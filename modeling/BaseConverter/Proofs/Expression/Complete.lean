import BaseConverter.Proofs.Expression.Grammar
import BaseConverter.Proofs.Numeral.Reading

/-!
# `BaseConverter.Proofs.Expression.Complete`: finished lines and plain numbers

While a line is being typed it is read only when it looks finished: an
operator occurs in it and its last character is a digit. Nothing is lost by
this. Every line of the grammar ends in an operand
(`Expression.Spelled.exists_suffix`), so a line that can be read looks
finished (`Expression.complete?_eq_some_iff`).

A line may also be a number as it stands, because a number may begin with a
sign. `Expression.Spelled.eq_of_read` tells which lines are: a minus in
front of a single operand. In every other form an operator stands behind
the first character, or is none that a number begins with.
-/

set_option autoImplicit false

namespace BaseConverter

/-! ### The end of a line -/

theorem Base.Marked.exists_eq_append {base : Base} {digits core : Text}
    (h : base.Marked digits core) : ∃ lead, core = lead ++ digits := by
  cases h with
  | bare => exact ⟨[], rfl⟩
  | small => exact ⟨"0x".toList, rfl⟩
  | capital => exact ⟨"0X".toList, rfl⟩

/-- An operand with no white space at its end has a digit there. -/
theorem Operand.Spelled.exists_getLast? {base : Base} {text : Text} {operand : Operand}
    (h : Operand.Spelled base text operand) (hlast : ∀ c ∈ text.getLast?, Text.isWhite c = false) :
    ∃ c, text.getLast? = some c ∧ base.isDigit c = true := by
  obtain ⟨⟨before, after, -, hafter, rfl⟩, hmarked, hne, hdigits, -⟩ := h
  obtain ⟨lead, rfl⟩ := hmarked.exists_eq_append
  -- The white space behind the operand is none at all.
  obtain rfl : after = [] := by
    by_contra hsome
    have hwhite := List.all_eq_true.mp hafter _ (List.getLast_mem hsome)
    rw [hlast (after.getLast hsome)
      (by rw [List.getLast?_append_of_ne_nil _ hsome, List.getLast?_eq_some_getLast hsome]; rfl)]
      at hwhite
    cases hwhite
  refine ⟨_, ?_, hdigits _ (List.getLast_mem hne)⟩
  rw [List.append_nil, ← List.append_assoc, List.getLast?_append_of_ne_nil _ hne,
    List.getLast?_eq_some_getLast hne]

/-- Links end in the operand of the last one. -/
theorem Link.exists_suffix {base : Base} {pieces : List Text} {links : List Link}
    (h : List.Forall₂ (Link.Spelled base) pieces links) (hne : links ≠ []) :
    ∃ front text operand, pieces.flatten = front ++ text ∧ Operand.Spelled base text operand := by
  induction h with
  | nil => exact absurd rfl hne
  | @cons piece link pieces links hlink hothers ih =>
      by_cases hlast : links = []
      · subst hlast
        obtain ⟨op, hoperand⟩ := hlink
        rw [List.forall₂_nil_right_iff.mp hothers]
        exact ⟨[op.symbol], _, _, by simp, hoperand⟩
      · obtain ⟨front, text, operand, hflatten, hoperand⟩ := ih hlast
        exact ⟨piece ++ front, text, operand, by rw [List.flatten_cons, hflatten, List.append_assoc],
          hoperand⟩

namespace Expression

variable {base : Base} {line : Text} {e : Expression}

/-- Every line ends in an operand. -/
theorem Spelled.exists_suffix (h : Spelled base line e) :
    ∃ front text operand, line = front ++ text ∧ Operand.Spelled base text operand := by
  cases h with
  | complement hoperand => exact ⟨['~'], _, _, rfl, hoperand⟩
  | shift direction _ hafter => exact ⟨_, _, _, rfl, hafter⟩
  | @chain negated text first pieces links hfirst hlinks _ =>
      by_cases hnone : links = []
      · subst hnone
        rw [List.forall₂_nil_right_iff.mp hlinks]
        exact ⟨_, text, first, by rw [List.flatten_nil, List.append_nil], hfirst⟩
      · obtain ⟨front, after, operand, hflatten, hoperand⟩ := Link.exists_suffix hlinks hnone
        exact ⟨_, after, operand, by rw [hflatten, ← List.append_assoc], hoperand⟩

/-- A line without white space at its end has a digit there. -/
theorem Spelled.exists_getLast? (h : Spelled base line e)
    (hlast : ∀ c ∈ line.getLast?, Text.isWhite c = false) :
    ∃ c, line.getLast? = some c ∧ base.isDigit c = true := by
  obtain ⟨front, text, operand, rfl, hoperand⟩ := h.exists_suffix
  rw [List.getLast?_append_of_ne_nil _ hoperand.ne_nil] at hlast ⊢
  exact hoperand.exists_getLast? hlast

/-- There is an operator in every line. -/
theorem Spelled.hasOperator (h : Spelled base line e) : line.hasOperator = true := by
  have hread := readTrimmed_of_spelled h
  unfold readTrimmed at hread
  split at hread
  · cases hread
  · rename_i hop
    simpa using hop

/-- A line is finished when it can be read. -/
theorem complete?_eq_some_iff : complete? base line = some e ↔ read base line = .ok e := by
  unfold complete?
  simp only
  split
  · exact toOption_eq_some_iff
  · rename_i hlooks
    refine iff_of_false (Option.some_ne_none e).symm (fun hread => hlooks ?_)
    have hspelled := (read_eq_ok_iff base line e).mp hread
    obtain ⟨c, hlast, hdigit⟩ := hspelled.exists_getLast? (Text.trimmed_trim line).last
    rw [hspelled.hasOperator, hlast, Option.any_some, hdigit]
    rfl

end Expression

/-! ### Lines that are numbers -/

/-- Behind the first character of a number there is no operator. -/
theorem Base.not_operatorChar_of_mem_tail {base : Base} {text : Text} {word : Word}
    (h : base.read text = .ok word) : ∀ c ∈ (Text.trim text).tail, isOperatorChar c = false := by
  have hleads : base.leads.all (fun lead => lead.tail.all fun c => !isOperatorChar c) = true := by
    cases base <;> decide
  obtain ⟨lead, hmem, digits, htrim, hdigits⟩ := exists_lead_of_read h
  have hlead := List.all_eq_true.mp hleads lead hmem
  rw [htrim]
  intro c hc
  cases lead with
  | nil => exact not_operatorChar_of_isDigit (hdigits c (List.mem_of_mem_tail hc))
  | cons first others =>
      rcases List.mem_append.mp hc with hc | hc
      · simpa using List.all_eq_true.mp hlead c hc
      · exact not_operatorChar_of_isDigit (hdigits c hc)

/-- A line that is a number as it stands is a minus in front of an
operand. -/
theorem Expression.Spelled.eq_of_read {base : Base} {line : Text} {e : Expression} {word : Word}
    (h : Spelled base line e) (htrim : Text.trim line = line) (hread : base.read line = .ok word) :
    ∃ operand, e = .chain true operand [] := by
  have htail := Base.not_operatorChar_of_mem_tail hread
  rw [htrim] at htail
  have hbehind : ∀ front back : Text, line = front ++ back → front ≠ [] →
      ∀ c ∈ back, isOperatorChar c = false := by
    rintro front back rfl hfront c hc
    refine htail c ?_
    rw [List.tail_append_of_ne_nil hfront]
    exact List.mem_append_right _ hc
  cases h with
  | complement hoperand =>
      -- No number begins with a tilde.
      have hleads : base.leads.all (·.all (· != '~')) = true := by cases base <;> decide
      have hplain := Base.of_mem_trim_of_read hleads (by decide) hread '~'
      rw [htrim] at hplain
      exact absurd (hplain List.mem_cons_self) (by decide)
  | @shift direction before after left right hbefore hafter =>
      obtain ⟨c, hsymbol, hc⟩ := direction.exists_symbol_eq
      have hnone := hbehind before (direction.symbol ++ after) (List.append_assoc _ _ _)
        hbefore.ne_nil c (by simp [hsymbol])
      rw [hc] at hnone
      cases hnone
  | @chain negated text first pieces links hfirst hlinks hsome =>
      cases hlinks with
      | nil =>
          have hnegated : negated = true := hsome.resolve_right fun hne => hne rfl
          exact ⟨first, by rw [hnegated]⟩
      | @cons piece link pieces links hlink hothers =>
          obtain ⟨op, hoperand⟩ := hlink
          have hnone := hbehind _ _ rfl (List.append_ne_nil_of_right_ne_nil _ hfirst.ne_nil)
            op.symbol (by simp)
          rw [op.isOperatorChar_symbol] at hnone
          cases hnone

end BaseConverter
