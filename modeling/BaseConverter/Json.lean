import BaseConverter.Numeral.Written

/-!
# `BaseConverter.Json`: JSON documents and their text

A document is a text, an integer, a list or an object. The members of an
object keep their order. `Json.document` writes a document over several
lines, one item or member on each, indented by two spaces for each level
around it.

* `Json.quote` writes a text. A quotation mark, a backslash and the
  control characters below the space are escaped, and everything else is
  written as it is.
-/

set_option autoImplicit false

namespace BaseConverter

/-- A JSON document. -/
inductive Json where
  | text (value : Text)
  | integer (value : Int)
  | list (items : List Json)
  | object (members : List (Text × Json))

namespace Json

/-- A character as it is written between quotation marks. -/
def escape (c : Char) : Text :=
  if c = '"' then "\\\"".toList
  else if c = '\\' then "\\\\".toList
  else if c = '\x08' then "\\b".toList
  else if c = '\x0c' then "\\f".toList
  else if c = '\n' then "\\n".toList
  else if c = '\r' then "\\r".toList
  else if c = '\t' then "\\t".toList
  else if c.toNat < 0x20 then "\\u".toList ++ (Nat.toDigits 16 c.toNat).leftpad 4 '0'
  else [c]

/-- A text between quotation marks. -/
def quote (text : Text) : Text :=
  '"' :: text.flatMap escape ++ ['"']

/-- A line break and the indentation of a level. -/
def lineBreak (level : Nat) : Text :=
  '\n' :: List.replicate (2 * level) ' '

/-- Pieces between two brackets: each on a line of its own, one level
deeper than the brackets, and separated by commas. Without pieces the
brackets stand together. -/
def enclose (opening closing : Char) (level : Nat) (pieces : List Text) : Text :=
  if pieces.isEmpty then
    [opening, closing]
  else
    opening :: [','].intercalate (pieces.map fun piece => lineBreak (level + 1) ++ piece)
      ++ lineBreak level ++ [closing]

mutual

/-- The text of a document that stands at a level. -/
def render (level : Nat) : Json → Text
  | text value => quote value
  | integer value => writeInt value
  | list items => enclose '[' ']' level (renderItems (level + 1) items)
  | object members => enclose '\x7b' '\x7d' level (renderMembers (level + 1) members)

/-- The texts of the items of a list. -/
def renderItems (level : Nat) : List Json → List Text
  | [] => []
  | item :: items => render level item :: renderItems level items

/-- The texts of the members of an object. -/
def renderMembers (level : Nat) : List (Text × Json) → List Text
  | [] => []
  | member :: members => renderMember level member :: renderMembers level members

/-- The text of a member of an object. -/
def renderMember (level : Nat) : Text × Json → Text
  | (name, value) => quote name ++ ": ".toList ++ render level value

end

/-- The text of a whole document, with a line break at its end. -/
def document (json : Json) : Text :=
  render 0 json ++ ['\n']

end Json

end BaseConverter
