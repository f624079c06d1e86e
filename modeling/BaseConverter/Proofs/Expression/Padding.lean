import BaseConverter.Proofs.Expression.Grammar

/-!
# `BaseConverter.Proofs.Expression.Padding`: white space around a line

The grammar lets white space stand around every operand, and none in front
of a leading minus or a complement. A line as a person types it may have
white space around the whole of it. Dropping that takes white space away
from the first and from the last operand only, and leaves every form the
form that it is (`Expression.Spelled.trim`). So a line is read whatever
white space stands around it (`Expression.read_of_padded`).
-/

set_option autoImplicit false

namespace BaseConverter

/-- Texts that differ in the white space around them are the same
operand. -/
theorem Operand.Spelled.of_trim_eq {base : Base} {text other : Text} {operand : Operand}
    (h : Operand.Spelled base text operand) (htrim : Text.trim other = Text.trim text) :
    Operand.Spelled base other operand := by
  rw [← Operand.read_eq_ok_iff] at h ⊢
  rw [← Operand.read_trim base other, htrim, Operand.read_trim]
  exact h

/-- An operand has a character that is no white space. -/
theorem Operand.Spelled.trimStart_ne_nil {base : Base} {text : Text} {operand : Operand}
    (h : Operand.Spelled base text operand) : Text.trimStart text ≠ [] :=
  (h.of_trim_eq (Text.trim_trimStart text)).ne_nil

/-- The white space in front of a text stands in front of what it begins
with. -/
theorem Text.trimStart_append_of_ne_nil {text : Text} (rest : Text) (h : trimStart text ≠ []) :
    trimStart (text ++ rest) = trimStart text ++ rest := by
  have hempty : (text.dropWhile isWhite).isEmpty = false := by
    rw [List.isEmpty_eq_false_iff]
    exact h
  rw [trimStart, List.dropWhile_append, hempty]
  rfl

namespace Expression

variable {base : Base}

/-- White space behind a chain is white space behind its last operand. -/
theorem exists_trimEnd_chain {text : Text} {first : Operand} {pieces : List Text}
    {links : List Link} (hfirst : Operand.Spelled base text first)
    (hlinks : List.Forall₂ (Link.Spelled base) pieces links) :
    ∃ text' pieces', Text.trimEnd (text ++ pieces.flatten) = text' ++ pieces'.flatten
      ∧ Operand.Spelled base text' first ∧ List.Forall₂ (Link.Spelled base) pieces' links := by
  induction hlinks generalizing text first with
  | nil =>
      refine ⟨Text.trimEnd text, [], ?_, hfirst.of_trim_eq (Text.trim_trimEnd text), .nil⟩
      simp only [List.flatten_nil, List.append_nil]
  | cons hlink _ ih =>
      obtain ⟨op, hoperand⟩ := hlink
      obtain ⟨text', pieces', heq, hoperand', hlinks'⟩ := ih hoperand
      refine ⟨text, (op.symbol :: text') :: pieces', ?_, hfirst, .cons (.intro op hoperand') hlinks'⟩
      rw [List.flatten_cons, List.cons_append,
        Text.trimEnd_append_cons _ _ (not_white_of_isOperatorChar op.isOperatorChar_symbol), heq]
      rfl

/-- The last character of a shift is no white space. -/
theorem trimEnd_shift (before : Text) (direction : Shift) (after : Text) :
    Text.trimEnd (before ++ direction.symbol ++ after)
      = before ++ direction.symbol ++ Text.trimEnd after := by
  obtain ⟨c, hsymbol, hc⟩ := direction.exists_symbol_eq
  have hcut := Text.trimEnd_append_cons (before ++ [c]) after (not_white_of_isOperatorChar hc)
  simpa [hsymbol] using hcut

/-- An expression without the white space behind it is the same. -/
theorem Spelled.trimEnd {core : Text} {e : Expression} (h : Spelled base core e) :
    Spelled base (Text.trimEnd core) e := by
  cases h with
  | @complement text operand hoperand =>
      have hcut := Text.trimEnd_append_cons [] (c := '~') text (by decide)
      rw [List.nil_append, List.nil_append] at hcut
      rw [hcut]
      exact .complement (hoperand.of_trim_eq (Text.trim_trimEnd text))
  | @shift direction before after left right hbefore hafter =>
      rw [trimEnd_shift]
      exact .shift direction hbefore (hafter.of_trim_eq (Text.trim_trimEnd after))
  | @chain negated text first pieces links hfirst hlinks hsome =>
      obtain ⟨text', pieces', heq, hfirst', hlinks'⟩ := exists_trimEnd_chain hfirst hlinks
      have hchain := Spelled.chain negated hfirst' hlinks' hsome
      rw [List.append_assoc, ← heq] at hchain
      cases negated with
      | false =>
          rw [List.append_assoc]
          exact hchain
      | true =>
          have hcut := Text.trimEnd_append_cons [] (c := '-') (text ++ pieces.flatten) (by decide)
          rw [List.append_assoc]
          show Spelled base (Text.trimEnd ('-' :: (text ++ pieces.flatten))) _
          rw [← List.nil_append ('-' :: _), hcut]
          exact hchain

/-- An expression without the white space in front of it is the same. -/
theorem Spelled.trimStart {core : Text} {e : Expression} (h : Spelled base core e) :
    Spelled base (Text.trimStart core) e := by
  cases h with
  | complement hoperand => exact .complement hoperand
  | @shift direction before after left right hbefore hafter =>
      rw [List.append_assoc, Text.trimStart_append_of_ne_nil _ hbefore.trimStart_ne_nil,
        ← List.append_assoc]
      exact .shift direction (hbefore.of_trim_eq (Text.trim_trimStart before)) hafter
  | @chain negated text first pieces links hfirst hlinks hsome =>
      cases negated with
      | true =>
          -- Nothing stands in front of the minus.
          exact .chain true hfirst hlinks hsome
      | false =>
          rw [if_neg Bool.false_ne_true, List.nil_append,
            Text.trimStart_append_of_ne_nil _ hfirst.trimStart_ne_nil]
          exact .chain false (hfirst.of_trim_eq (Text.trim_trimStart text)) hlinks hsome

/-- An expression without the white space around it is the same. -/
theorem Spelled.trim {core : Text} {e : Expression} (h : Spelled base core e) :
    Spelled base (Text.trim core) e :=
  h.trimStart.trimEnd

/-- An expression is read with any white space around it. -/
theorem read_of_padded {core line : Text} {e : Expression} (h : Spelled base core e)
    (hline : Text.Padded core line) : read base line = .ok e := by
  rw [read_eq_ok_iff, Text.trim_eq_of_padded hline]
  exact h.trim

end Expression

end BaseConverter
