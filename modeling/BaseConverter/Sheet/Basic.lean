import BaseConverter.Field
import BaseConverter.Numeral.Written

/-!
# `BaseConverter.Sheet.Basic`: the texts of the four fields

A sheet holds what the four fields show at one moment. The sheet of a
word shows one value; a sheet in general may hold any texts.

* `Sheet.get_set_self` and `Sheet.get_set_of_ne`: setting a field
  changes the text of that field and of no other.
-/

set_option autoImplicit false

namespace BaseConverter

/-- The texts of the four fields. -/
structure Sheet where
  decimal : Text := []
  hex : Text := []
  binary : Text := []
  ascii : Text := []
deriving DecidableEq

namespace Sheet

/-- The sheet with nothing written on it. -/
def empty : Sheet := {}

/-- The text of a field. -/
def get (sheet : Sheet) : Field → Text
  | .decimal => sheet.decimal
  | .hex => sheet.hex
  | .binary => sheet.binary
  | .ascii => sheet.ascii

/-- The sheet with the text of one field replaced. -/
def set (sheet : Sheet) (field : Field) (text : Text) : Sheet :=
  match field with
  | .decimal => { sheet with decimal := text }
  | .hex => { sheet with hex := text }
  | .binary => { sheet with binary := text }
  | .ascii => { sheet with ascii := text }

/-- The sheet on which only one field is written. -/
def only (field : Field) (text : Text) : Sheet :=
  empty.set field text

/-- Whether nothing is written on a sheet. -/
def isEmpty (sheet : Sheet) : Bool :=
  Field.all.all fun field => (sheet.get field).isEmpty

/-- The sheet that shows one word. A word that is no code point leaves
the field of characters empty. -/
def ofWord (word : Word) : Sheet where
  decimal := Base.decimal.write word
  hex := Base.hex.write word
  binary := Base.binary.write word
  ascii := word.char?.toList

/-- The sheet of a calculated line: each numeric field shows its line,
an equals sign and the result, and the field of characters shows the
result alone. White space at the end of a line is dropped first. -/
def withResult (line result : Sheet) : Sheet where
  decimal := Text.trimEnd line.decimal ++ '=' :: result.decimal
  hex := Text.trimEnd line.hex ++ '=' :: result.hex
  binary := Text.trimEnd line.binary ++ '=' :: result.binary
  ascii := result.ascii

@[simp]
theorem get_set_self (sheet : Sheet) (field : Field) (text : Text) :
    (sheet.set field text).get field = text := by
  cases field <;> rfl

@[simp]
theorem get_set_of_ne (sheet : Sheet) {field other : Field} (text : Text) (h : other ≠ field) :
    (sheet.set field text).get other = sheet.get other := by
  cases field <;> cases other <;> first | rfl | exact absurd rfl h

end Sheet

end BaseConverter
