import BaseConverter.Command.Layout
import BaseConverter.Session

/-!
# `BaseConverter.Command.Single`: commands that answer once

Three commands take their whole input as arguments and write one
answer, or fail and write nothing. What stands behind the first
arguments is one text, joined by single spaces.
-/

set_option autoImplicit false

namespace BaseConverter.Command

/-- Shows a text of one field in all four. -/
def convert (arguments : Arguments) : Except Failure Text :=
  match arguments.positional with
  | field :: first :: rest => do
    let field ← readField field
    let session := Session.new.input field (Text.spaced (first :: rest))
    return Layout.sheet arguments.format session.sheet
  | _ => .error (.usage "radix convert <field> <text...>".toList)

/-- The JSON object of a line with its value. -/
def valueJson (base : Base) (line : Text) (value : Word) : Json :=
  .object [("expression".toList, .text line), ("base".toList, .integer base.radix),
    ("result".toList, .integer value.toInt),
    ("values".toList, Layout.sheetJson (Sheet.ofWord value))]

/-- The answer to a line with its value: for people, the value in the
base of the line. -/
def valueText (format : Format) (base : Base) (line : Text) (value : Word) : Text :=
  match format with
  | .text => base.write value ++ ['\n']
  | .json => (valueJson base line value).document

/-- Calculates a line. -/
def evaluate (arguments : Arguments) : Except Failure Text :=
  match arguments.positional with
  | base :: first :: rest => do
    let base ← readBase base
    let line := Text.spaced (first :: rest)
    let value ← (Expression.valueOf base line).mapError .evaluation
    return valueText arguments.format base line value
  | _ => .error (.usage "radix eval <base> <expr...>".toList)

/-- Marks what shows the same as one character of a field. -/
def highlight (arguments : Arguments) : Except Failure Text :=
  match arguments.positional with
  | field :: position :: first :: rest => do
    let field ← readField field
    let position ← readPosition position
    let typed := Session.new.input field (Text.spaced (first :: rest))
    let session := typed.point ⟨field, position⟩
    return Layout.marks arguments.format session.sheet session.span?
  | _ => .error (.usage "radix highlight <field> <position> <text...>".toList)

end BaseConverter.Command
