import BaseConverter.Sheet.Basic
import BaseConverter.Text.Stretch

/-!
# `BaseConverter.Sheet.Filling`: one field fills the other three

A numeric field may hold several values, separated by spaces. The field of
characters holds one value for each of its characters. `Sheet.fill?`
reads the values of one field and shows them all in every other field.
The field itself keeps the text that was typed into it.

* `Field.values` are the values that a text shows in a field.
* `Sheet.ofWords` is the sheet that shows several values.
-/

set_option autoImplicit false

namespace BaseConverter

/-- The values that a text shows in a field. A part of a numeric field
that is not a number is passed over. -/
def Field.values (field : Field) (text : Text) : List Word :=
  match field.base? with
  | none => text.map Word.ofChar
  | some base => text.parts.filterMap fun part => (base.read part.text).toOption

namespace Sheet

/-- The sheet that shows several words: in the numeric fields separated by
single spaces, as characters side by side. -/
def ofWords (words : List Word) : Sheet where
  decimal := Text.spaced (words.map fun word => (ofWord word).decimal)
  hex := Text.spaced (words.map fun word => (ofWord word).hex)
  binary := Text.spaced (words.map fun word => (ofWord word).binary)
  ascii := words.flatMap fun word => (ofWord word).ascii

/-- The sheet that a text fills when it is typed into a field. A text of
white space leaves the other fields empty. There is no sheet when no part
of the text is a value. -/
def fill? (field : Field) (text : Text) : Option Sheet :=
  if Text.allWhite text then
    some (only field text)
  else
    match field.values text with
    | [] => none
    | words => some ((ofWords words).set field text)

end Sheet

end BaseConverter
