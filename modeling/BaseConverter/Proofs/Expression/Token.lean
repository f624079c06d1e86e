import BaseConverter.Expression.Token
import BaseConverter.Proofs.Text.Trim

/-!
# `BaseConverter.Proofs.Expression.Token`: how a line falls into tokens

`Token.ofText` cuts the whole line first and drops white space later.
The laws below cut it at its first operator only, so that proofs can
follow a line from left to right:

* `Token.ofText_of_forall`: without an operator there is one operand, or
  only white space.
* `Token.ofText_append_cons`: an operator is a token, and the text in
  front of it and the text behind it fall into tokens by themselves.
* `Token.eq_append_flatten_split`: the cut loses no character.
-/

set_option autoImplicit false

namespace BaseConverter.Token

/-- The token of a piece of a line, and the tokens of an operator with
the text up to the next one. -/
def ofPiece (piece : Operator × Text) : List Token :=
  operator piece.1 :: (operand? piece.2).toList

theorem ofText_eq (text : Text) :
    ofText text = (operand? (split text).1).toList ++ (split text).2.flatMap ofPiece := rfl

/-- Without an operator there is nothing to cut. -/
theorem split_of_forall {text : Text} (h : ∀ c ∈ text, Operator.ofSymbol? c = none) :
    split text = (text, []) := by
  induction text with
  | nil => rfl
  | cons c rest ih =>
      have hrest := ih fun d hd => h d (List.mem_cons_of_mem c hd)
      simp only [split, hrest, h c List.mem_cons_self]

/-- The first cut is at the first operator. -/
theorem split_append_cons {before : Text} (h : ∀ c ∈ before, Operator.ofSymbol? c = none)
    (op : Operator) (after : Text) :
    split (before ++ op.symbol :: after) = (before, (op, (split after).1) :: (split after).2) := by
  induction before with
  | nil => simp [split]
  | cons c before ih =>
      have hrest := ih fun d hd => h d (List.mem_cons_of_mem c hd)
      simp only [List.cons_append, split, hrest, h c List.mem_cons_self]

/-- The cut loses no character of the line. -/
theorem eq_append_flatten_split (text : Text) :
    text = (split text).1
      ++ ((split text).2.map fun piece => piece.1.symbol :: piece.2).flatten := by
  induction text with
  | nil => rfl
  | cons c rest ih =>
      simp only [split]
      -- An operator opens a new piece; any other character joins the first one.
      cases hop : Operator.ofSymbol? c with
      | none =>
          simp only
          rw [List.cons_append, ← ih]
      | some op =>
          simp only [List.nil_append, List.map_cons, List.flatten_cons, List.cons_append]
          rw [← ih, Operator.symbol_of_ofSymbol? hop]

/-- A line without an operator is an operand, or white space. -/
theorem ofText_of_forall {text : Text} (h : ∀ c ∈ text, Operator.ofSymbol? c = none) :
    ofText text = (operand? text).toList := by
  rw [ofText_eq, split_of_forall h]
  exact List.append_nil _

/-- What stands in front of an operator and what stands behind it fall
into tokens by themselves. -/
theorem ofText_append_cons {before : Text} (h : ∀ c ∈ before, Operator.ofSymbol? c = none)
    (op : Operator) (after : Text) :
    ofText (before ++ op.symbol :: after)
      = (operand? before).toList ++ operator op :: ofText after := by
  rw [ofText_eq, split_append_cons h, List.flatMap_cons, ofText_eq after]
  rfl

/-- A piece of a line is an operand unless it is white space. -/
theorem operand?_of_not_allWhite {text : Text} (h : Text.trim text ≠ []) :
    operand? text = some (operand (Text.trim text)) := by
  simp [operand?, h]

theorem eq_of_operand?_eq_some {text : Text} {token : Token} (h : operand? text = some token) :
    token = operand (Text.trim text) := by
  unfold operand? at h
  simp only at h
  split at h
  · cases h
  · exact (Option.some.inj h).symm

/-- White space is no operand. -/
theorem operand?_eq_none_iff (text : Text) :
    operand? text = none ↔ Text.allWhite text = true := by
  rw [← Text.trim_eq_nil_iff]
  simp [operand?]

end BaseConverter.Token
