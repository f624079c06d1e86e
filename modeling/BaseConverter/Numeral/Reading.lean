import BaseConverter.Numeral.Digit
import BaseConverter.Text.WhiteSpace
import BaseConverter.Word

/-!
# `BaseConverter.Numeral.Reading`: numbers on paper as words

`Base.read` reads the text of one number. White space around it does not
count. A decimal number may carry a sign; a hexadecimal number may carry
the mark `0x`; hexadecimal and binary numbers are patterns of 64 bits,
so they have no sign.

The digits are taken from left to right, and the first thing that is
wrong is the one reported: a character that is no digit, or the digit
that makes the number too large.

`count?` reads a plain count, without a limit.
-/

set_option autoImplicit false

namespace BaseConverter

/-- Why the text of a field is not a number. -/
inductive NumeralError where
  /-- There is no digit to read. -/
  | empty
  /-- A character of the text is not a digit of the base. -/
  | invalidDigits (text : Text) (base : Base)
  /-- The digits stand for a number outside the 64 bits of a word. -/
  | outOfRange (text : Text)
  /-- The field shows characters and has no base to read in. -/
  | notNumeric
deriving DecidableEq

/-- What is wrong with a row of characters that should be digits. -/
inductive DigitFault where
  /-- A character is no digit of the base. -/
  | notDigit
  /-- The digits so far stand for a number that reaches the limit. -/
  | tooLarge
deriving DecidableEq

namespace Base

/-- Goes on reading digits from left to right behind digits of the value
`value`, below the limit `limit`. -/
def scan (base : Base) (limit : Nat) (value : Nat) : Text → Except DigitFault Nat
  | [] => .ok value
  | c :: rest =>
    match base.digit? c with
    | none => .error .notDigit
    | some digit =>
      let next := value * base.radix + digit
      if next < limit then base.scan limit next rest else .error .tooLarge

/-- The error for the text of a number whose digits have a fault. -/
def faultOf (base : Base) (text : Text) : DigitFault → NumeralError
  | .notDigit => .invalidDigits text base
  | .tooLarge => .outOfRange text

/-- Reads `digits` as a pattern of 64 bits. An error names the whole
text of the number. -/
def readPattern (base : Base) (text digits : Text) : Except NumeralError Word :=
  if digits.isEmpty then
    .error .empty
  else
    match base.scan Word.patternCount 0 digits with
    | .ok value => .ok (BitVec.ofNat 64 value)
    | .error fault => .error (base.faultOf text fault)

/-- Reads the magnitude of a decimal number behind its sign. A sign
without digits is no number. The negative numbers reach one further than
the positive ones. -/
def readMagnitude (negative : Bool) (text digits : Text) : Except NumeralError Word :=
  if digits.isEmpty then
    .error (.invalidDigits text .decimal)
  else
    let limit := if negative then Word.positiveCount + 1 else Word.positiveCount
    match decimal.scan limit 0 digits with
    | .ok value => .ok (BitVec.ofInt 64 (if negative then -value else value))
    | .error fault => .error (decimal.faultOf text fault)

/-- Reads the text of a decimal number without white space around it. -/
def readSigned (text : Text) : Except NumeralError Word :=
  match text with
  | [] => .error .empty
  | '+' :: digits => readMagnitude false text digits
  | '-' :: digits => readMagnitude true text digits
  | digits => readMagnitude false text digits

/-- Reads the text of a number in a base. -/
def read (base : Base) (text : Text) : Except NumeralError Word :=
  let trimmed := Text.trim text
  match base with
  | .decimal => readSigned trimmed
  | .hex => hex.readPattern trimmed (dropHexMark trimmed)
  | .binary => binary.readPattern trimmed trimmed

end Base

/-- The number that a row of decimal digits stands for, with a plus in
front allowed and white space around it ignored. -/
def count? (text : Text) : Option Nat :=
  let trimmed := Text.trim text
  let digits := if trimmed.head? = some '+' then trimmed.tail else trimmed
  if !digits.isEmpty && digits.all Base.decimal.isDigit then
    some (Base.decimal.placeValue digits)
  else
    none

/-- The sentence that tells why a text is not a number. -/
def NumeralError.message : NumeralError → Text
  | empty => "empty input".toList
  | invalidDigits text base =>
    "`".toList ++ text ++ "` is not a valid base-".toList ++ Base.decimal.digits base.radix
      ++ " number".toList
  | outOfRange text => "`".toList ++ text ++ "` does not fit in 64 bits".toList
  | notNumeric => "the ascii field has no numeric base".toList

end BaseConverter
