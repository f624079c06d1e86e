import BaseConverter.Expression.Operator
import BaseConverter.Text.WhiteSpace

/-!
# `BaseConverter.Expression.Token`: a line as operands and operators

A line is cut at its operators of one character. What stands between two
of them, without the white space around it, is an operand; nothing but
white space between them is no token. The tokens carry texts and no
values yet, and the characters `~`, `<` and `>` stay inside the operands.

* `Token.split` is the cut, before white space is dropped.
* `Token.ofText` lists the tokens of a line.
-/

set_option autoImplicit false

namespace BaseConverter

/-- A piece of a line. -/
inductive Token where
  /-- The text of an operand, without white space around it. -/
  | operand (text : Text)
  | operator (op : Operator)
deriving DecidableEq

namespace Token

/-- A line cut at its operators: the text in front of the first operator,
and every operator with the text up to the next one. -/
def split : Text → Text × List (Operator × Text)
  | [] => ([], [])
  | c :: rest =>
    let (first, others) := split rest
    match Operator.ofSymbol? c with
    | some op => ([], (op, first) :: others)
    | none => (c :: first, others)

/-- The operand that stands between two operators, when one does. -/
def operand? (text : Text) : Option Token :=
  let trimmed := Text.trim text
  if trimmed.isEmpty then none else some (operand trimmed)

/-- The tokens of a line, in order. -/
def ofText (text : Text) : List Token :=
  let (first, others) := split text
  (operand? first).toList
    ++ others.flatMap fun (op, after) => operator op :: (operand? after).toList

end Token

end BaseConverter
