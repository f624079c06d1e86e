import BaseConverter.Text.Basic

/-!
# `BaseConverter.Expression.Operator`: the operators of a line

An operator of one character joins two operands anywhere in a line. The
two shifts are written with two characters and stand alone in theirs, so
they are a type of their own. The complement `~` stands in front of a
single operand.

* `Operator.ofSymbol?_symbol`: the symbol of an operator belongs to it
  alone.
* `Text.hasOperator` tells a line with an operator from a plain number.
-/

set_option autoImplicit false

namespace BaseConverter

/-- The operators that join the operands of a line from left to
right. -/
inductive Operator where
  | add
  | subtract
  | multiply
  | divide
  | modulo
  | bitAnd
  | bitOr
  | bitXor
deriving DecidableEq

namespace Operator

/-- The character that an operator is written with. -/
def symbol : Operator → Char
  | add => '+'
  | subtract => '-'
  | multiply => '*'
  | divide => '/'
  | modulo => '%'
  | bitAnd => '&'
  | bitOr => '|'
  | bitXor => '^'

/-- The operator that a character stands for. -/
def ofSymbol? : Char → Option Operator
  | '+' => some add
  | '-' => some subtract
  | '*' => some multiply
  | '/' => some divide
  | '%' => some modulo
  | '&' => some bitAnd
  | '|' => some bitOr
  | '^' => some bitXor
  | _ => none

/-- Whether an operator works on each bit by itself. -/
def isBitwise : Operator → Bool
  | bitAnd | bitOr | bitXor => true
  | _ => false

/-- The symbol of an operator belongs to it alone. -/
@[simp]
theorem ofSymbol?_symbol (op : Operator) : ofSymbol? op.symbol = some op := by
  cases op <;> rfl

/-- An operator has the symbol that it was found by. -/
theorem symbol_of_ofSymbol? {c : Char} {op : Operator} (h : ofSymbol? c = some op) :
    op.symbol = c := by
  unfold ofSymbol? at h
  split at h <;> cases h <;> rfl

end Operator

/-- The two shifts. -/
inductive Shift where
  | left
  | right
deriving DecidableEq

/-- The two characters that a shift is written with. -/
def Shift.symbol : Shift → Text
  | left => "<<".toList
  | right => ">>".toList

/-- Whether a character belongs to the writing of an operator: to one of
one character, to the complement, or to half a shift. -/
def isOperatorChar (c : Char) : Bool :=
  (Operator.ofSymbol? c).isSome || c == '~' || c == '<' || c == '>'

/-- Whether a character of an operator occurs in a text. -/
def Text.hasOperator (text : Text) : Bool :=
  text.any isOperatorChar

end BaseConverter
