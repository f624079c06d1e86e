import BaseConverter.Expression.Basic
import BaseConverter.Expression.Token
import BaseConverter.Numeral.Digit

/-!
# `BaseConverter.Expression.Reading`: lines as expressions

`Expression.read` reads a line in a base. The three forms are tried in
this order: the complement, one shift with an operand on each side, and
the chain. A line that looks like a shift but lacks an operand on one
side goes on to the chain, whose operands then are not digits.

A chain is read token by token, and the error is the one of the first
token that does not fit.

* `Operand.read` reads one operand. Operands have no sign.
* `Expression.complete?` is the expression of a line that a person has
  finished typing.
-/

set_option autoImplicit false

namespace BaseConverter

/-- Why a line is not an expression. -/
inductive ParseError where
  /-- No operator occurs in the line. -/
  | noOperator
  /-- There is no base with this number of digits. -/
  | unsupportedRadix (radix : Nat)
  /-- What should be an operand is not a row of digits of the base. -/
  | invalidOperand (text : Text) (base : Base)
  /-- The digits of an operand stand for a number that has no word. -/
  | operandTooLarge
  /-- The line ends behind an operator. -/
  | missingOperand (op : Operator)
  /-- There is an operator where an operand is due. -/
  | unexpectedOperator (op : Operator)
deriving DecidableEq

/-- The digits of an operand: in base sixteen without the mark `0x`. -/
def Base.operandDigits (base : Base) (text : Text) : Text :=
  match base with
  | .hex => dropHexMark (Text.trim text)
  | _ => Text.trim text

/-- Whether a text is written like an operand. -/
def Base.isOperandText (base : Base) (text : Text) : Bool :=
  !(base.operandDigits text).isEmpty && (base.operandDigits text).all base.isDigit

/-- The first number that is too large for an operand. Decimal operands
are values with a sign to come, the others are patterns of 64 bits. -/
def Base.operandLimit : Base → Nat
  | .decimal => Word.positiveCount
  | _ => Word.patternCount

/-- Reads one operand. -/
def Operand.read (base : Base) (text : Text) : Except ParseError Operand :=
  if base.isOperandText text then
    let value := base.placeValue (base.operandDigits text)
    if value < base.operandLimit then
      .ok ⟨Text.trim text, BitVec.ofNat 64 value⟩
    else
      .error .operandTooLarge
  else
    .error (.invalidOperand (Text.trim text) base)

namespace Expression

/-- A text cut at the first shift that occurs in it. -/
def cutAtShift? : Text → Option (Text × Shift × Text)
  | [] => none
  | '<' :: '<' :: rest => some ([], .left, rest)
  | '>' :: '>' :: rest => some ([], .right, rest)
  | c :: rest =>
    (cutAtShift? rest).map fun (before, direction, after) => (c :: before, direction, after)

/-- The two sides of the first shift, when both are written like
operands. -/
def shiftSides? (base : Base) (text : Text) : Option (Text × Shift × Text) :=
  (cutAtShift? text).filter fun (before, _, after) =>
    base.isOperandText before && base.isOperandText after

/-- Reads the links of a chain behind its first operand. -/
def readLinks (base : Base) : List Token → Except ParseError (List Link)
  | [] => .ok []
  | .operand text :: _ => .error (.invalidOperand text base)
  | [.operator op] => .error (.missingOperand op)
  | .operator _ :: .operator next :: _ => .error (.unexpectedOperator next)
  | .operator op :: .operand text :: rest => do
    let operand ← Operand.read base text
    let links ← readLinks base rest
    return ⟨op, operand⟩ :: links

/-- Reads a chain from its first operand on. -/
def readFrom (base : Base) (negated : Bool) (first : Text) (rest : List Token) :
    Except ParseError Expression := do
  let operand ← Operand.read base first
  let links ← readLinks base rest
  return chain negated operand links

/-- Reads the tokens of a chain. Only a minus may stand in front of the
first operand. -/
def readChain (base : Base) : List Token → Except ParseError Expression
  | [] => .error .noOperator
  | .operand first :: rest => readFrom base false first rest
  | .operator .subtract :: .operand first :: rest => readFrom base true first rest
  | .operator .subtract :: .operator op :: _ => .error (.unexpectedOperator op)
  | [.operator .subtract] => .error (.missingOperand .subtract)
  | .operator op :: _ => .error (.unexpectedOperator op)

/-- Reads a line without white space around it. -/
def readTrimmed (base : Base) (line : Text) : Except ParseError Expression :=
  if !line.hasOperator then
    .error .noOperator
  else if line.head? = some '~' then
    complement <$> Operand.read base line.tail
  else
    match shiftSides? base line with
    | some (before, direction, after) => do
      let left ← Operand.read base before
      let right ← Operand.read base after
      return shift left direction right
    | none => readChain base (Token.ofText line)

/-- Reads a line in a base. -/
def read (base : Base) (line : Text) : Except ParseError Expression :=
  readTrimmed base (Text.trim line)

/-- Reads a line in the base with a given number of digits. -/
def readRadix (radix : Nat) (line : Text) : Except ParseError Expression :=
  match Base.ofRadix? radix with
  | some base => read base line
  | none => .error (.unsupportedRadix radix)

/-- The expression of a line that is finished: an operator occurs in it,
it ends in a digit of the base, and it can be read. The first two are
quick to see and spare the reading of most lines that are still being
typed. -/
def complete? (base : Base) (line : Text) : Option Expression :=
  let trimmed := Text.trim line
  if trimmed.hasOperator && trimmed.getLast?.any base.isDigit then
    (read base line).toOption
  else
    none

/-- Whether a line is finished, in the base with a given number of
digits. -/
def isComplete (radix : Nat) (line : Text) : Bool :=
  (Base.ofRadix? radix).any fun base => (complete? base line).isSome

end Expression

/-- The sentence that tells why a line is not an expression. -/
def ParseError.message : ParseError → Text
  | noOperator => "no operator in expression".toList
  | unsupportedRadix radix =>
    "base ".toList ++ Base.decimal.digits radix
      ++ " is not supported (expected 2, 10 or 16)".toList
  | invalidOperand text base =>
    "`".toList ++ text ++ "` is not a base-".toList ++ Base.decimal.digits base.radix
      ++ " operand".toList
  | operandTooLarge => "integer overflow in operand".toList
  | missingOperand op => "operator `".toList ++ op.symbol :: "` has no right-hand operand".toList
  | unexpectedOperator op => "unexpected operator `".toList ++ op.symbol :: "`".toList

end BaseConverter
