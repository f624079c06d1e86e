import BaseConverter.Command.Arguments
import BaseConverter.Pointer
import BaseConverter.Json

/-!
# `BaseConverter.Command.Layout`: sheets and marks on the page

For people, each field is a row: its name and a colon in a column of
nine characters, then its text. A marked field has a second row with
carets under the marked characters. As JSON, a sheet is an object with a
member for each field, and the marks are a list with an object for each
field.

* `Layout.sheet` writes a sheet.
* `Layout.marks` writes a sheet with the spans that are marked in it.
-/

set_option autoImplicit false

namespace BaseConverter.Layout

/-- The width of the column of names. -/
def margin : Nat := 9

/-- One row: the column of names, and what stands behind it. -/
def row (name content : Text) : Text :=
  name.rightpad margin ' ' ++ content ++ ['\n']

/-- The row of a field. -/
def fieldRow (sheet : Sheet) (field : Field) : Text :=
  row (field.name ++ [':']) (sheet.get field)

/-- Carets under the characters of a span. -/
def carets (span : Span) : Text :=
  List.replicate span.start ' ' ++ List.replicate (span.stop - span.start) '^'

/-- The row of carets under a field, when it is marked. -/
def markRow : Option Span → Text
  | some span => row [] (carets span)
  | none => []

/-- The JSON object of a sheet. -/
def sheetJson (sheet : Sheet) : Json :=
  .object (Field.all.map fun field => (field.name, .text (sheet.get field)))

/-- The JSON object of a span. -/
def spanJson (span : Span) : Json :=
  .object [("start".toList, .integer span.start), ("end".toList, .integer span.stop),
    ("color".toList, .text Span.color)]

/-- The JSON object of a field with its span. -/
def markJson (sheet : Sheet) (span? : Field → Option Span) (field : Field) : Json :=
  .object [("field".toList, .text field.name), ("text".toList, .text (sheet.get field)),
    ("ranges".toList, .list ((span? field).toList.map spanJson))]

/-- A sheet in a format. -/
def sheet (format : Format) (values : Sheet) : Text :=
  match format with
  | .text => Field.all.flatMap (fieldRow values)
  | .json => (sheetJson values).document

/-- A sheet with its marked spans in a format. -/
def marks (format : Format) (values : Sheet) (span? : Field → Option Span) : Text :=
  match format with
  | .text => Field.all.flatMap fun field => fieldRow values field ++ markRow (span? field)
  | .json => (Json.list (Field.all.map (markJson values span?))).document

end BaseConverter.Layout
