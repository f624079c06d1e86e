import BaseConverter.Expression.Operator
import BaseConverter.Word

/-!
# `BaseConverter.Expression.Basic`: the three forms of a line

A line is the complement of one operand, one shift, or a chain of
operands joined by operators. A chain has no precedence: it is worked
off strictly from left to right, and a minus in front of it belongs to
its first operand alone.

* `Expression.render` writes an expression with its operands in a form
  of the caller's choice, and without white space.
* `Expression.operands` lists the operands from left to right.
-/

set_option autoImplicit false

namespace BaseConverter

/-- An operand of a line. -/
structure Operand where
  /-- The text as it was typed, without white space around it. -/
  text : Text
  /-- The value that the text stands for. -/
  value : Word
deriving DecidableEq

/-- An operator of a chain together with the operand behind it. -/
structure Link where
  operator : Operator
  operand : Operand
deriving DecidableEq

/-- A line that has been read. -/
inductive Expression where
  /-- The complement of an operand. -/
  | complement (operand : Operand)
  /-- The operand `left` shifted by the operand `right`. -/
  | shift (left : Operand) (direction : Shift) (right : Operand)
  /-- A first operand, negated or not, and the links behind it. -/
  | chain (negated : Bool) (first : Operand) (links : List Link)
deriving DecidableEq

namespace Expression

/-- The operands from left to right. -/
def operands : Expression → List Operand
  | complement operand => [operand]
  | shift left _ right => [left, right]
  | chain _ first links => first :: links.map Link.operand

/-- The text of an expression with every operand written by `write`. -/
def render (write : Word → Text) : Expression → Text
  | complement operand => '~' :: write operand.value
  | shift left direction right => write left.value ++ direction.symbol ++ write right.value
  | chain negated first links =>
    (if negated then [Operator.subtract.symbol] else []) ++ write first.value
      ++ links.flatMap fun link => link.operator.symbol :: write link.operand.value

end Expression

end BaseConverter
