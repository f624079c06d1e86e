import BaseConverter.Pointer
import BaseConverter.Proofs.Group.Lookup
import BaseConverter.Proofs.Numeral.HalfByte
import BaseConverter.Proofs.Sheet.Filling

/-!
# `BaseConverter.Proofs.Pointer.Number`: pointing at the numbers of filled fields

When several words fill the fields, the written form of each takes up a
span of its own in every numeric field. `Base.numberSpan` is this span,
and `Base.numberGroup` the group that is found there.

A negative decimal number is narrowed to its digits, because its minus
looks like an operator. The groups of the other fields that belong to
the digits are still those of the whole number (`alignedIn?_narrowAt`).
-/

set_option autoImplicit false

namespace BaseConverter

/-- The characters of a text that a span marks. -/
def Span.textIn (span : Span) (text : Text) : Text :=
  (text.drop span.start).take (span.stop - span.start)

/-- A span inside another marks a part of what the other marks. -/
theorem Span.textIn_inside {span : Span} {offset length : Nat}
    (h : span.start + offset + length ≤ span.stop) (text : Text) :
    Span.textIn ⟨span.start + offset, span.start + offset + length⟩ text
      = ((span.textIn text).drop offset).take length := by
  have hmin : min length (span.stop - span.start - offset) = length := by omega
  rw [textIn, textIn, List.drop_take, List.take_take, List.drop_drop, hmin,
    Nat.add_sub_cancel_left]

namespace Base

/-- The span of the number `word`, which stands behind `index` others, in
the field of a base that shows `words`. -/
def numberSpan (base : Base) (words : List Word) (index : Nat) (word : Word) : Span :=
  let start := Text.spacedStart (words.map base.write) index
  ⟨start, start + (base.write word).length⟩

/-- The group that this number is. -/
def numberGroup (base : Base) (words : List Word) (index : Nat) (word : Word) : Group :=
  Group.placed (words.map base.write) index (base.write word)

/-- Only a minus separates operands in the form of a word. -/
theorem isLine_numberGroup {base : Base} (hbase : base ≠ .decimal) (words : List Word)
    (index : Nat) (word : Word) : (base.numberGroup words index word).isLine = false := by
  rw [Group.isLine_eq_false_iff]
  exact not_separates_of_mem_write (.inl hbase)

/-- A hexadecimal or binary number is never narrowed. -/
theorem narrowAt_numberGroup {base : Base} (hbase : base ≠ .decimal) (words : List Word)
    (index : Nat) (word : Word) (position : Nat) :
    (base.numberGroup words index word).narrowAt position = base.numberGroup words index word := by
  rw [Group.narrowAt, isLine_numberGroup hbase, if_neg Bool.false_ne_true]

/-- The only operand of a number takes the number up but for a minus. -/
theorem operands_numberGroup (base : Base) (words : List Word) (index : Nat) (word : Word) :
    ∃ stretch, (base.numberGroup words index word).operands
      = [(base.numberGroup words index word).narrow stretch 0] := by
  cases hline : (base.numberGroup words index word).isLine with
  | false => exact ⟨_, Group.operands_of_not_isLine hline (base.write_ne_nil word)⟩
  | true =>
      -- Only a negative decimal number has a character that separates operands.
      have hdecimal : base = .decimal := by
        by_contra hbase
        rw [isLine_numberGroup hbase] at hline
        cases hline
      subst hdecimal
      have hdigits : ∀ c ∈ decimal.shownDigits word, separatesOperands c = false :=
        fun c hc => not_separates_of_isDigit (decimal.isDigit_of_mem_shownDigits word c hc)
      have htext : (decimal.numberGroup words index word).text
          = decimal.lead word ++ decimal.shownDigits word :=
        decimal.write_eq word
      rw [lead] at htext
      split at htext
      · exact ⟨_, Group.operands_of_lead htext (by decide) hdigits
          (decimal.shownDigits_ne_nil word)⟩
      · rw [List.nil_append] at htext
        rw [(Group.isLine_eq_false_iff _).mpr (htext ▸ hdigits)] at hline
        cases hline

end Base

section

variable {words : List Word} {index : Nat} {word : Word}

theorem getElem?_map_write (base : Base) (hword : words[index]? = some word) :
    (words.map base.write)[index]? = some (base.write word) := by
  rw [List.getElem?_map, hword, Option.map_some]

/-- The span of a number holds its written form. -/
theorem textIn_numberSpan (base : Base) (hword : words[index]? = some word) :
    (base.numberSpan words index word).textIn ((Sheet.ofWords words).get (Field.ofBase base))
      = base.write word := by
  have hlength : (base.numberSpan words index word).stop - (base.numberSpan words index word).start
      = (base.write word).length :=
    Nat.add_sub_cancel_left _ _
  rw [Span.textIn, hlength, Sheet.get_ofWords]
  exact Text.take_drop_spaced (getElem?_map_write base hword)

/-! ### Groups -/

theorem group?_ofWords (base : Base) (hword : words[index]? = some word) :
    ((Sheet.ofWords words).get (Field.ofBase base)).group? index
      = some (base.numberGroup words index word) := by
  rw [Sheet.get_ofWords, Text.group?_spaced (base.ne_nil_and_space_not_mem words),
    getElem?_map_write base hword]
  rfl

theorem groupAt?_ofWords (base : Base) (hword : words[index]? = some word) {offset : Nat}
    (hoffset : offset < (base.write word).length) :
    ((Sheet.ofWords words).get (Field.ofBase base)).groupAt?
        ((base.numberSpan words index word).start + offset)
      = some ((base.numberGroup words index word).narrowAt
          ((base.numberSpan words index word).start + offset)) := by
  rw [Sheet.get_ofWords]
  exact Text.groupAt?_spaced (base.ne_nil_and_space_not_mem words)
    (getElem?_map_write base hword) hoffset

/-- The group of another field that a number belongs to is the same
number there. -/
theorem alignedIn?_numberGroup (source base : Base) (hword : words[index]? = some word) :
    (source.numberGroup words index word).alignedIn?
        ((Sheet.ofWords words).get (Field.ofBase base))
      = some (base.numberGroup words index word) := by
  rw [Group.alignedIn?]
  exact group?_ofWords base hword

/-- The digits of a negative decimal number belong to the same groups as
the whole number. -/
theorem alignedIn?_narrowAt (source : Base) {base : Base} (hbase : base ≠ .decimal)
    (hword : words[index]? = some word) (position : Nat) :
    ∃ group, ((source.numberGroup words index word).narrowAt position).alignedIn?
        ((Sheet.ofWords words).get (Field.ofBase base)) = some group
      ∧ group.span = base.numberSpan words index word := by
  -- On the minus the group stays whole, behind it the operand is taken.
  rcases (source.numberGroup words index word).narrowAt_eq_or_mem position with heq | hmem
  · rw [heq]
    exact ⟨_, alignedIn?_numberGroup source base hword, rfl⟩
  · obtain ⟨stretch, hoperands⟩ := source.operands_numberGroup words index word
    rw [hoperands, List.mem_singleton] at hmem
    -- Operand 0 of a number without separating characters is the number.
    have hothers := Group.operands_of_not_isLine
      (Base.isLine_numberGroup hbase words index word) (base.write_ne_nil word)
    refine ⟨(base.numberGroup words index word).narrow
      ⟨(base.numberSpan words index word).start, base.write word⟩ 0, ?_, rfl⟩
    rw [hmem, Group.alignedIn?]
    show (((Sheet.ofWords words).get (Field.ofBase base)).group? index).bind
      (·.operands[0]?) = _
    rw [group?_ofWords base hword, Option.bind_some, hothers]
    rfl

end

end BaseConverter
