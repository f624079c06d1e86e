import BaseConverter.Expression.Operator
import BaseConverter.Numeral.Written

/-!
# `BaseConverter.Expression.Arithmetic`: operators on words

The arithmetic operators work on the signed values and refuse a result
that no word has. The bitwise ones work on the patterns, at the width
that the longer of the two operands shows. A shift amount is 0 to 63.

* `Operator.apply`, `Shift.apply` and `Word.complement` are the
  operations.
* A quotient is rounded toward negative infinity, and a remainder has
  the sign of the dividend.
-/

set_option autoImplicit false

namespace BaseConverter

/-- The calculations whose result may have no word. -/
inductive Calculation where
  | addition
  | subtraction
  | multiplication
  | division
  | remainder
  | negation
deriving DecidableEq

/-- Why an expression has no value. -/
inductive ArithmeticError where
  | divisionByZero
  | moduloByZero
  /-- The exact result of a calculation is not the value of a word. -/
  | overflow (calculation : Calculation)
  /-- The amount of a shift is not from 0 to 63. -/
  | shiftOutOfRange (amount : Word)
deriving DecidableEq

namespace Word

/-- The word of an exact result, or the overflow of the calculation that
it comes from. -/
def checked (calculation : Calculation) (result : Int) : Except ArithmeticError Word :=
  match ofInt? result with
  | some word => .ok word
  | none => .error (.overflow calculation)

/-- The word with the opposite sign. -/
def negate (word : Word) : Except ArithmeticError Word :=
  checked .negation (-word.toInt)

/-- The quotient rounded toward negative infinity. It is the one rounded
toward zero, less one when the division leaves a remainder whose sign is
not the one of the divisor. -/
def quotient (a b : Word) : Except ArithmeticError Word :=
  if b = 0 then
    .error .divisionByZero
  else do
    let truncated ← checked .division (a.toInt.tdiv b.toInt)
    let rest ← checked .division (a.toInt.tmod b.toInt)
    if rest.toInt ≠ 0 ∧ ¬(rest.toInt < 0 ↔ b.toInt < 0) then
      checked .division (truncated.toInt - 1)
    else
      return truncated

/-- The remainder with the sign of the dividend. It is refused together
with its quotient: a division that overflows leaves no remainder. -/
def remainder (a b : Word) : Except ArithmeticError Word :=
  if b = 0 then
    .error .moduloByZero
  else if InRange (a.toInt.tdiv b.toInt) then
    checked .remainder (a.toInt.tmod b.toInt)
  else
    .error (.overflow .remainder)

/-- The result of a bitwise operation, cut to the width that the longer
of the two operands shows. -/
def bitwise (combine : Word → Word → Word) (a b : Word) : Word :=
  lowBits (max a.shownWidth b.shownWidth) (combine a b)

/-- The word with every bit flipped that its binary form shows. The bits
above stay zero. -/
def complement (word : Word) : Word :=
  lowBits word.shownWidth (~~~word)

end Word

/-- The value of an operator on two words. -/
def Operator.apply : Operator → Word → Word → Except ArithmeticError Word
  | add, a, b => Word.checked .addition (a.toInt + b.toInt)
  | subtract, a, b => Word.checked .subtraction (a.toInt - b.toInt)
  | multiply, a, b => Word.checked .multiplication (a.toInt * b.toInt)
  | divide, a, b => Word.quotient a b
  | modulo, a, b => Word.remainder a b
  | bitAnd, a, b => .ok (Word.bitwise (· &&& ·) a b)
  | bitOr, a, b => .ok (Word.bitwise (· ||| ·) a b)
  | bitXor, a, b => .ok (Word.bitwise (· ^^^ ·) a b)

/-- The value of a shift. Bits that leave the word at the left are
dropped; at the left of a word shifted right its sign is repeated. -/
def Shift.apply (direction : Shift) (word amount : Word) : Except ArithmeticError Word :=
  if 0 ≤ amount.toInt ∧ amount.toInt < 64 then
    match direction with
    | left => .ok (word <<< amount.toNat)
    | right => .ok (word.sshiftRight amount.toNat)
  else
    .error (.shiftOutOfRange amount)

/-- The name of a calculation. -/
def Calculation.name : Calculation → Text
  | addition => "addition".toList
  | subtraction => "subtraction".toList
  | multiplication => "multiplication".toList
  | division => "division".toList
  | remainder => "remainder".toList
  | negation => "negation".toList

/-- The sentence that tells why an expression has no value. -/
def ArithmeticError.message : ArithmeticError → Text
  | divisionByZero => "division by zero".toList
  | moduloByZero => "modulo by zero".toList
  | overflow calculation => "integer overflow in ".toList ++ calculation.name
  | shiftOutOfRange amount =>
    "shift amount ".toList ++ writeInt amount.toInt ++ " out of range (0-63)".toList

end BaseConverter
