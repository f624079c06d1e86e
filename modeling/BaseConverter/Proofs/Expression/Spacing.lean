import BaseConverter.Proofs.Expression.Padding
import BaseConverter.Proofs.Text.Spaces

/-!
# `BaseConverter.Proofs.Expression.Spacing`: spaces around the operators of a line

A line may have spaces in front of its operators and behind them.
`Text.SpacedOut text spaced` says that `spaced` is `text` with such spaces put
in. A shift is written with two characters and is not taken apart.

The operands of the grammar have white space around them already, so the
spaces go to the operands that they stand beside, and the line stays the same
expression (`Expression.read_of_spacedOut`). Only in front of a leading minus
or complement there is no operand. Spaces there are spaces around the line.
-/

set_option autoImplicit false

namespace BaseConverter

/-- The texts that operators are written with. -/
inductive IsOperatorText : Text → Prop
  | complement : IsOperatorText ['~']
  | operator (op : Operator) : IsOperatorText [op.symbol]
  | shift (direction : Shift) : IsOperatorText direction.symbol

/-- `spaced` is `text` with any number of spaces put in front of operators and
behind them. -/
inductive Text.SpacedOut : Text → Text → Prop
  | nil : SpacedOut [] []
  | keep (c : Char) {text spaced : Text} (rest : SpacedOut text spaced) :
      SpacedOut (c :: text) (c :: spaced)
  | widen {op : Text} (operator : IsOperatorText op) (before after : Nat) {text spaced : Text}
      (rest : SpacedOut text spaced) :
      SpacedOut (op ++ text)
        (List.replicate before ' ' ++ op ++ (List.replicate after ' ' ++ spaced))

theorem IsOperatorText.isOperatorChar_of_mem {op : Text} (h : IsOperatorText op) :
    ∀ c ∈ op, isOperatorChar c = true := by
  cases h with
  | complement => exact List.forall_mem_singleton.mpr rfl
  | operator op => exact List.forall_mem_singleton.mpr op.isOperatorChar_symbol
  | shift direction =>
      obtain ⟨c, hsymbol, hc⟩ := direction.exists_symbol_eq
      rw [hsymbol]
      exact List.forall_mem_cons.mpr ⟨hc, List.forall_mem_singleton.mpr hc⟩

/-- Half a shift at the head of a text that begins with an operator is one
half of this operator. -/
theorem IsOperatorText.eq_of_append_eq_cons {op text rest : Text} {c : Char}
    (h : IsOperatorText op) (hc : c = '<' ∨ c = '>') (heq : op ++ text = c :: rest) :
    op = [c, c] ∧ rest = c :: text := by
  cases h with
  | complement =>
      obtain ⟨rfl, -⟩ := List.cons.inj heq
      exact absurd hc (by decide)
  | operator op =>
      obtain ⟨rfl, -⟩ := List.cons.inj heq
      cases op <;> exact absurd hc (by decide)
  | shift direction =>
      cases direction <;> (obtain ⟨rfl, rfl⟩ := List.cons.inj heq; exact ⟨rfl, rfl⟩)

/-- Any other character at the head of such a text is the whole operator. -/
theorem IsOperatorText.eq_singleton_of_append_eq_cons {op text rest : Text} {c : Char}
    (h : IsOperatorText op) (hc : c ≠ '<' ∧ c ≠ '>') (heq : op ++ text = c :: rest) :
    op = [c] ∧ rest = text ∧ isOperatorChar c = true := by
  cases h with
  | complement =>
      obtain ⟨rfl, rfl⟩ := List.cons.inj heq
      exact ⟨rfl, rfl, rfl⟩
  | operator op =>
      obtain ⟨rfl, rfl⟩ := List.cons.inj heq
      exact ⟨rfl, rfl, op.isOperatorChar_symbol⟩
  | shift direction =>
      cases direction with
      | left => exact absurd (List.cons.inj heq).1.symm hc.1
      | right => exact absurd (List.cons.inj heq).1.symm hc.2

namespace Text.SpacedOut

variable {text spaced : Text}

/-- Without its spaces a spaced text is what the text is without its own. -/
theorem withoutSpaces_eq (h : SpacedOut text spaced) :
    spaced.withoutSpaces = text.withoutSpaces := by
  induction h with
  | nil => rfl
  | keep c _ ih =>
      by_cases hc : c = ' '
      · rw [hc, withoutSpaces_space_cons, withoutSpaces_space_cons, ih]
      · rw [withoutSpaces_cons hc, withoutSpaces_cons hc, ih]
  | widen _ before after _ ih => simp [ih]

/-- The characters of a spaced text are those of the text, and spaces. -/
theorem mem_or_eq (h : SpacedOut text spaced) {c : Char} (hc : c ∈ spaced) :
    c ∈ text ∨ c = ' ' := by
  by_cases hspace : c = ' '
  · exact .inr hspace
  · have hmem := mem_withoutSpaces.mpr ⟨hc, hspace⟩
    rw [h.withoutSpaces_eq] at hmem
    exact .inl (mem_withoutSpaces.mp hmem).1

/-! ### Following a text from operator to operator -/

/-- A character that is not half a shift has spaces beside it only if it is an
operator. -/
theorem exists_cons {c : Char} (hc : c ≠ '<' ∧ c ≠ '>') (h : SpacedOut (c :: text) spaced) :
    ∃ before after rest,
      spaced = List.replicate before ' ' ++ c :: (List.replicate after ' ' ++ rest)
        ∧ SpacedOut text rest ∧ (isOperatorChar c = false → before = 0 ∧ after = 0) := by
  generalize hline : c :: text = line at h
  cases h with
  | nil => cases hline
  | keep d rest =>
      cases hline
      exact ⟨0, 0, _, rfl, rest, fun _ => ⟨rfl, rfl⟩⟩
  | widen operator before after rest =>
      obtain ⟨rfl, rfl, hop⟩ := operator.eq_singleton_of_append_eq_cons hc hline.symm
      refine ⟨before, after, _, by simp, rest, fun hplain => ?_⟩
      rw [hop] at hplain
      cases hplain

/-- Only nothing is spaced out from nothing. -/
theorem eq_nil (h : SpacedOut [] spaced) : spaced = [] := by
  generalize hline : ([] : Text) = line at h
  cases h with
  | nil => rfl
  | keep c rest => cases hline
  | widen operator before after rest =>
      cases operator with
      | complement => cases hline
      | operator op => cases hline
      | shift direction => cases direction <;> cases hline

/-- What stands in front of the first operator stays as it is. -/
theorem exists_append {plain : Text} (hplain : ∀ c ∈ plain, isOperatorChar c = false)
    (h : SpacedOut (plain ++ text) spaced) :
    ∃ rest, spaced = plain ++ rest ∧ SpacedOut text rest := by
  induction plain generalizing spaced with
  | nil => exact ⟨spaced, rfl, h⟩
  | cons c plain ih =>
      obtain ⟨hc, hothers⟩ := List.forall_mem_cons.mp hplain
      obtain ⟨before, after, rest, rfl, hrest, hnone⟩ := h.exists_cons (ne_of_not_operatorChar hc).2
      obtain ⟨rfl, rfl⟩ := hnone hc
      obtain ⟨others, rfl, htext⟩ := ih hothers hrest
      exact ⟨others, rfl, htext⟩

/-- A text without an operator stays as it is. -/
theorem eq_of_forall (hplain : ∀ c ∈ text, isOperatorChar c = false) (h : SpacedOut text spaced) :
    spaced = text := by
  rw [← List.append_nil text] at h
  obtain ⟨rest, rfl, hrest⟩ := h.exists_append hplain
  rw [hrest.eq_nil, List.append_nil]

/-- A shift has spaces on its two sides, and none between its characters. -/
theorem exists_shift (direction : Shift) (hplain : ∀ c ∈ text, isOperatorChar c = false)
    (h : SpacedOut (direction.symbol ++ text) spaced) :
    ∃ before after, spaced = List.replicate before ' ' ++ direction.symbol
      ++ (List.replicate after ' ' ++ text) := by
  obtain ⟨c, hsymbol, hop⟩ := direction.exists_symbol_eq
  have hc : c = '<' ∨ c = '>' := by
    cases direction with
    | left => exact .inl (List.cons.inj hsymbol).1.symm
    | right => exact .inr (List.cons.inj hsymbol).1.symm
  -- Behind the shift no operator begins with its second character.
  have hsecond : ∀ spaced', SpacedOut (c :: text) spaced' → spaced' = c :: text := by
    intro spaced' hspaced'
    generalize hline : c :: text = line at hspaced'
    cases hspaced' with
    | nil => rfl
    | keep d rest =>
        cases hline
        rw [rest.eq_of_forall hplain]
    | widen operator before after rest =>
        obtain ⟨-, rfl⟩ := operator.eq_of_append_eq_cons hc hline.symm
        rw [hplain c List.mem_cons_self] at hop
        cases hop
  rw [hsymbol] at h ⊢
  generalize hline : [c, c] ++ text = line at h
  cases h with
  | nil => cases hline
  | keep d rest =>
      cases hline
      exact ⟨0, 0, by rw [hsecond _ rest]; rfl⟩
  | widen operator before after rest =>
      obtain ⟨rfl, htext⟩ := operator.eq_of_append_eq_cons hc hline.symm
      obtain rfl := (List.cons.inj htext).2
      exact ⟨before, after, by rw [rest.eq_of_forall hplain]⟩

end Text.SpacedOut

/-! ### Reading a spaced line -/

namespace Expression

variable {base : Base} {line spaced : Text} {e : Expression}

/-- The spaces in a chain stand around its operands. -/
theorem exists_spacedOut_chain {text : Text} {first : Operand} {pieces : List Text}
    {links : List Link} (hfirst : Operand.Spelled base text first)
    (hlinks : List.Forall₂ (Link.Spelled base) pieces links)
    (h : Text.SpacedOut (text ++ pieces.flatten) spaced) :
    ∃ text' pieces', spaced = text' ++ pieces'.flatten
      ∧ Operand.Spelled base text' first ∧ List.Forall₂ (Link.Spelled base) pieces' links := by
  induction hlinks generalizing text first spaced with
  | nil =>
      rw [List.flatten_nil, List.append_nil] at h
      obtain rfl := h.eq_of_forall hfirst.not_operatorChar
      exact ⟨spaced, [], (List.append_nil spaced).symm, hfirst, .nil⟩
  | cons hlink _ ih =>
      obtain ⟨op, hoperand⟩ := hlink
      rw [List.flatten_cons, List.cons_append] at h
      obtain ⟨behind, rfl, hbehind⟩ := h.exists_append hfirst.not_operatorChar
      obtain ⟨before, after, rest, rfl, hrest, -⟩ :=
        hbehind.exists_cons (by cases op <;> decide)
      obtain ⟨text', pieces', rfl, hoperand', hlinks'⟩ := ih hoperand hrest
      have hspaces := Text.trim_spaces_append after text'
      refine ⟨text ++ List.replicate before ' ',
        (op.symbol :: (List.replicate after ' ' ++ text')) :: pieces', by simp,
        hfirst.of_trim_eq (Text.trim_append_spaces text before),
        .cons (.intro op (hoperand'.of_trim_eq hspaces)) hlinks'⟩

/-- A spaced line is the same expression behind the spaces at its head. -/
theorem Spelled.exists_spacedOut (h : Spelled base line e) (hspaced : Text.SpacedOut line spaced) :
    ∃ count core, spaced = List.replicate count ' ' ++ core ∧ Spelled base core e := by
  cases h with
  | complement hoperand =>
      obtain ⟨before, after, rest, rfl, hrest, -⟩ := hspaced.exists_cons (by decide)
      obtain rfl := hrest.eq_of_forall hoperand.not_operatorChar
      exact ⟨before, _, rfl,
        .complement (hoperand.of_trim_eq (Text.trim_spaces_append after rest))⟩
  | @shift direction front back left right hfront hback =>
      rw [List.append_assoc] at hspaced
      obtain ⟨rest, rfl, hrest⟩ := hspaced.exists_append hfront.not_operatorChar
      obtain ⟨before, after, rfl⟩ := hrest.exists_shift direction hback.not_operatorChar
      have hshift := Spelled.shift direction
        (hfront.of_trim_eq (Text.trim_append_spaces front before))
        (hback.of_trim_eq (Text.trim_spaces_append after back))
      refine ⟨0, _, ?_, hshift⟩
      simp only [List.replicate_zero, List.nil_append, List.append_assoc]
  | @chain negated text first pieces links hfirst hlinks hsome =>
      cases negated with
      | false =>
          rw [if_neg Bool.false_ne_true, List.nil_append] at hspaced
          obtain ⟨text', pieces', rfl, hfirst', hlinks'⟩ :=
            exists_spacedOut_chain hfirst hlinks hspaced
          exact ⟨0, _, rfl, .chain false hfirst' hlinks' hsome⟩
      | true =>
          -- The spaces in front of the sign are in front of the line.
          rw [if_pos rfl, List.append_assoc] at hspaced
          obtain ⟨before, after, rest, rfl, hrest, -⟩ := hspaced.exists_cons (by decide)
          obtain ⟨text', pieces', rfl, hfirst', hlinks'⟩ :=
            exists_spacedOut_chain hfirst hlinks hrest
          have hspaces := hfirst'.of_trim_eq (Text.trim_spaces_append after text')
          have hchain := Spelled.chain true hspaces hlinks' hsome
          refine ⟨before, _, ?_, hchain⟩
          simp [Operator.symbol]

/-- A line is read as the same expression with spaces around its
operators. -/
theorem read_of_spacedOut (h : Spelled base line e) (hspaced : Text.SpacedOut line spaced) :
    read base spaced = .ok e := by
  obtain ⟨count, core, rfl, hcore⟩ := h.exists_spacedOut hspaced
  exact read_of_padded hcore
    ⟨List.replicate count ' ', [], Text.allWhite_replicate count, rfl, (List.append_nil _).symm⟩

end Expression

end BaseConverter
