import BaseConverter.Expression.Arithmetic
import BaseConverter.Expression.Reading

/-!
# `BaseConverter.Expression.Value`: the value of a line

An expression is worked off from left to right, and the first step that
fails ends the calculation.

* `Expression.value` is the value of an expression that has been read.
* `Expression.valueOf` reads a line and takes its value; its errors tell
  a line that is no expression from an expression without a value.
-/

set_option autoImplicit false

namespace BaseConverter

/-- Why a line has no value. -/
inductive EvaluationError where
  /-- The line is not an expression. -/
  | parse (error : ParseError)
  /-- The expression of the line has no value. -/
  | arithmetic (error : ArithmeticError)
deriving DecidableEq

/-- The sentence that tells why a line has no value. -/
def EvaluationError.message : EvaluationError → Text
  | parse error => error.message
  | arithmetic error => error.message

namespace Expression

/-- Works off the links of a chain behind the value `value`. -/
def follow (value : Word) : List Link → Except ArithmeticError Word
  | [] => .ok value
  | link :: links =>
    match link.operator.apply value link.operand.value with
    | .ok next => follow next links
    | .error error => .error error

/-- The value of an expression. -/
def value : Expression → Except ArithmeticError Word
  | complement operand => .ok operand.value.complement
  | shift left direction right => direction.apply left.value right.value
  | chain false first links => follow first.value links
  | chain true first links =>
    match first.value.negate with
    | .ok start => follow start links
    | .error error => .error error

/-- The value of an expression, or the reason why it has none. -/
def valueOfRead : Except ParseError Expression → Except EvaluationError Word
  | .ok expression => expression.value.mapError .arithmetic
  | .error error => .error (.parse error)

/-- The value of a line in a base. -/
def valueOf (base : Base) (line : Text) : Except EvaluationError Word :=
  valueOfRead (read base line)

/-- The value of a line in the base with a given number of digits. -/
def valueOfRadix (radix : Nat) (line : Text) : Except EvaluationError Word :=
  valueOfRead (readRadix radix line)

end Expression

end BaseConverter
