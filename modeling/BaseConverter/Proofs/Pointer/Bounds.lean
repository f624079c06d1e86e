import BaseConverter.Pointer
import BaseConverter.Proofs.Group.Extent

/-!
# `BaseConverter.Proofs.Pointer.Bounds`: every marked span can be shown

The four texts of a sheet may have nothing to do with each other, and the
pointer may be anywhere. A span that is marked still lies in the text of
its field and has a character in it. Between two numeric fields it also
keeps to one group, so that no space is marked.

Half bytes are found by counting from the start of a group, and the group
that is marked may be shorter than the one pointed at. Both
`Group.hexDigit?` and `Group.bits?` compare the count with the length of
their own group first (`Aim.inGroup_of_spanOf?`). So a span never needs to
be compared with the text: it lies in a group, and the group lies in the
text.

* `Pointer.usable_of_span?` is the main statement.
-/

set_option autoImplicit false

namespace BaseConverter

/-- The span of a text as a whole is not empty. -/
theorem Span.eq_of_whole? {text : Text} {span : Span} (h : whole? text = some span) :
    span = ⟨0, text.length⟩ ∧ 0 < text.length := by
  unfold whole? at h
  split at h
  · cases h
  · rename_i hne
    cases h
    refine ⟨rfl, List.length_pos_iff.mpr ?_⟩
    simpa using hne

/-! ### Half bytes -/

namespace Group

variable {group : Group} {n : Nat} {span : Span}

/-- A hexadecimal digit is a character of its group. -/
theorem inGroup_of_hexDigit? (h : group.hexDigit? n = some span) : span.InGroup group := by
  unfold hexDigit? at h
  simp only at h
  split at h
  · rename_i hn
    cases h
    unfold length at hn
    constructor <;> simp only [Span.single] <;> omega
  · cases h

/-- The bits of a half byte are characters of their group, also where the
group ends in the middle of them. -/
theorem inGroup_of_bits? (h : group.bits? n = some span) : span.InGroup group := by
  unfold bits? at h
  simp only at h
  split at h
  · rename_i hfirst
    cases h
    unfold length at hfirst ⊢
    constructor <;> simp only <;> omega
  · cases h

end Group

/-- What shows an aim in a part of a group lies in this group. -/
theorem Aim.inGroup_of_spanOf? {aim : Aim} {base : Base} {group outer : Group} {span : Span}
    (hgroup : group.span.InGroup outer) (h : aim.spanOf? base group = some span) :
    span.InGroup outer := by
  unfold spanOf? at h
  split at h
  · exact (Group.inGroup_of_hexDigit? h).trans hgroup
  · exact (Group.inGroup_of_bits? h).trans hgroup
  · cases h
    exact hgroup

namespace Pointer

/-! ### What is marked -/

/-- The group that is aimed at is the one under the position. -/
theorem groupAt?_of_aim? {base : Base} {text : Text} {position : Nat} {aim : Aim}
    (h : aim? base text position = some aim) : text.groupAt? position = some aim.group := by
  obtain ⟨group, hgroup, haim⟩ := Option.bind_eq_some_iff.mp h
  rw [hgroup]
  cases base with
  | decimal =>
      cases haim
      rfl
  | hex =>
      simp only at haim
      split at haim <;> cases haim
      rfl
  | binary =>
      simp only at haim
      split at haim <;> cases haim
      rfl

variable {sheet : Sheet} {source : Base} {position : Nat} {span : Span}

/-- In another numeric field a span keeps to the group with the same number
as the one that is aimed at. -/
theorem exists_aim_of_numericSpan? {base : Base} (hne : base ≠ source)
    (h : numericSpan? sheet source position (Field.ofBase base) = some span) :
    ∃ aim, aim? source (sheet.get (Field.ofBase source)) position = some aim
      ∧ ∃ group, (sheet.get (Field.ofBase base)).group? aim.group.index = some group
        ∧ span.InGroup group := by
  obtain ⟨aim, haim, hspan⟩ := Option.bind_eq_some_iff.mp h
  rw [Field.base?_ofBase] at hspan
  simp only [if_neg hne] at hspan
  obtain ⟨group, haligned, hspan⟩ := Option.bind_eq_some_iff.mp hspan
  obtain ⟨outer, houter, hgroup⟩ := Group.exists_inGroup_of_alignedIn? haligned
  exact ⟨aim, haim, outer, houter, Aim.inGroup_of_spanOf? hgroup hspan⟩

/-- Between numeric fields a span keeps to one group of the field that is
marked. -/
theorem exists_inGroup_of_numericSpan? (base : Base)
    (h : numericSpan? sheet source position (Field.ofBase base) = some span) :
    ∃ group ∈ (sheet.get (Field.ofBase base)).groups, span.InGroup group := by
  by_cases hsame : base = source
  · -- The field pointed at: the group is the one under the position.
    subst hsame
    obtain ⟨aim, haim, hspan⟩ := Option.bind_eq_some_iff.mp h
    rw [Field.base?_ofBase] at hspan
    simp only [if_true] at hspan
    obtain ⟨outer, hmem, hgroup⟩ := Text.exists_inGroup_of_groupAt? (groupAt?_of_aim? haim)
    exact ⟨outer, hmem, Aim.inGroup_of_spanOf? hgroup hspan⟩
  · obtain ⟨_, _, group, hgroup, hspan⟩ := exists_aim_of_numericSpan? hsame h
    exact ⟨group, List.mem_of_getElem? hgroup, hspan⟩

/-- From a numeric field the characters are marked whole. -/
theorem whole?_of_numericSpan? (h : numericSpan? sheet source position .ascii = some span) :
    Span.whole? sheet.ascii = some span := by
  obtain ⟨aim, -, hspan⟩ := Option.bind_eq_some_iff.mp h
  exact hspan

/-- From a character the other fields are marked whole, and the field of
the characters at this character alone. -/
theorem bounds_of_asciiSpan? {target : Field} (h : asciiSpan? sheet position target = some span) :
    span.start < span.stop ∧ span.stop ≤ (sheet.get target).length := by
  unfold asciiSpan? at h
  split at h
  · split at h
    · rename_i hposition
      cases h
      exact ⟨Nat.lt_succ_self position, hposition⟩
    · cases h
  · obtain ⟨rfl, hpos⟩ := Span.eq_of_whole? h
    exact ⟨hpos, Nat.le_refl _⟩

/-- Every span that a pointer marks has a character in it and lies in the
text of its field, whatever the four texts are and wherever the pointer is.
When the field pointed at and the field that is marked are both numeric,
no character of the span is a space, and the span lies in a single group
of its field. -/
theorem usable_of_span? (sheet : Sheet) (pointer : Pointer) (target : Field) (span : Span)
    (h : pointer.span? sheet target = some span) :
    span.start < span.stop ∧ span.stop ≤ (sheet.get target).length
    ∧ (pointer.field ≠ .ascii → target ≠ .ascii →
        (∀ position, span.start ≤ position → position < span.stop →
          (sheet.get target)[position]? ≠ some ' ')
        ∧ ∃ group ∈ (sheet.get target).groups,
            group.start ≤ span.start ∧ span.stop ≤ group.stop) := by
  unfold span? at h
  split at h
  · cases hbase : target.base? with
    | none =>
        obtain rfl := target.base?_eq_none_iff.mp hbase
        obtain ⟨rfl, hpos⟩ := Span.eq_of_whole? (whole?_of_numericSpan? h)
        refine ⟨hpos, Nat.le_refl _, ?_⟩
        intro _ htarget
        exact absurd rfl htarget
    | some base =>
        obtain rfl := (target.base?_eq_some_iff base).mp hbase
        obtain ⟨group, hmem, hspan⟩ := exists_inGroup_of_numericSpan? base h
        obtain ⟨-, hstop, hspaces⟩ := Text.extent_of_mem_groups hmem
        refine ⟨hspan.start_lt_stop, Nat.le_trans hspan.stop_le hstop, ?_⟩
        intro _ _
        refine ⟨?_, group, hmem, hspan.start_le, hspan.stop_le⟩
        intro position hlo hhi
        exact hspaces position (Nat.le_trans hspan.start_le hlo)
          (Nat.lt_of_lt_of_le hhi hspan.stop_le)
  · rename_i hbase
    obtain ⟨hlt, hstop⟩ := bounds_of_asciiSpan? h
    refine ⟨hlt, hstop, ?_⟩
    intro hfield _
    exact absurd (pointer.field.base?_eq_none_iff.mp hbase) hfield

/-- The second digit of `0X1F` stands for the bits five to eight of the
binary group at its place. That group has six bits, so two are marked. -/
theorem usable_of_span?_two_bits :
    let sheet : Sheet := { hex := "7 0X1F".toList, binary := "11 011111".toList }
    let pointer : Pointer := ⟨.hex, 5⟩
    pointer.span? sheet .binary = some ⟨7, 9⟩
    ∧ 9 ≤ sheet.binary.length
    ∧ (∀ position, 7 ≤ position → position < 9 → sheet.binary[position]? ≠ some ' ')
    ∧ ∃ group ∈ sheet.binary.groups, group.start ≤ 7 ∧ 9 ≤ group.stop := by
  intro sheet pointer
  have hspan : pointer.span? sheet .binary = some ⟨7, 9⟩ := by decide
  obtain ⟨-, hstop, hgroup⟩ := usable_of_span? sheet pointer .binary ⟨7, 9⟩ hspan
  obtain ⟨hspaces, hsingle⟩ := hgroup (by decide) (by decide)
  exact ⟨hspan, hstop, hspaces, hsingle⟩

end Pointer

end BaseConverter
