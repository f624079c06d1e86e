import BaseConverter.Proofs.Group.Spacing
import BaseConverter.Proofs.Pointer.Bounds
import BaseConverter.Proofs.Pointer.Line

/-!
# `BaseConverter.Proofs.Pointer.Spacing`: pointers over a line with spaces in it

A line is shown in every field, and in one of them there are spaces in it. A
pointer over a digit in this field should mark what it marks over the same
digit of the line without spaces. It does so in the first group of the line,
if this group has operands. Then the group under the pointer is an operand
with the same number, begun at the same place, and so the same half byte is
aimed at (`Pointer.numericSpan?_of_inFirstLine`).

Over any other group it does not. Nothing is marked in the other fields, or
their whole line, where an operand should be
(`Pointer.exists_numericSpan?_ne`).
-/

set_option autoImplicit false

namespace BaseConverter

namespace Sheet

/-- A position in a numeric field is at a digit of an operand or of the
result. -/
def IsDigitAt (sheet : Sheet) (base : Base) (position : Nat) : Prop :=
  ∃ index run, sheet.run? base index = some run
    ∧ run.start + base.markLength run.text ≤ position ∧ position < run.stop

/-- `spaced` is `sheet` with spaces put into the text of one field. -/
structure SpacesIn (source : Base) (sheet spaced : Sheet) : Prop where
  withoutSpaces : (spaced.get (Field.ofBase source)).withoutSpaces
    = sheet.get (Field.ofBase source)
  same : ∀ field, field ≠ Field.ofBase source → spaced.get field = sheet.get field

end Sheet

/-! ### The beginning of an operand -/

/-- A text has the mark of a longer one when it reaches behind this mark. -/
theorem hexMarkLength_of_prefix {short long : Text} (h : short <+: long)
    (hlength : hexMarkLength long < short.length) : hexMarkLength short = hexMarkLength long := by
  obtain ⟨rest, rfl⟩ := h
  match short, hlength with
  | [c], hlength =>
      have hnone : hexMarkLength ([c] ++ rest) = 0 := by
        rw [List.length_singleton] at hlength
        omega
      rw [hnone]
      simp [hexMarkLength]
  | c :: d :: others, _ =>
      unfold hexMarkLength
      split <;> simp_all

theorem Base.markLength_of_prefix (base : Base) {short long : Text} (h : short <+: long)
    (hlength : base.markLength long < short.length) :
    base.markLength short = base.markLength long := by
  cases base with
  | hex => exact hexMarkLength_of_prefix h hlength
  | decimal => rfl
  | binary => rfl

/-- A run of a line is not all of it. -/
theorem Text.IsLine.span_line_ne {text : Text} (h : text.IsLine) {run : Stretch}
    (hrun : run ∈ text.operandRuns) : (Group.line text).span ≠ run.span := by
  intro hspan
  obtain ⟨hstart, hstop⟩ := Span.mk.inj hspan
  obtain ⟨c, hc, hseparates⟩ := h.separated
  obtain ⟨position, hposition⟩ := List.mem_iff_getElem?.mp hc
  have hlt := (List.getElem?_eq_some_iff.mp hposition).1
  have hlo : run.start ≤ position := by
    rw [← hstart]
    exact Nat.zero_le position
  have hhi : position < run.stop := by
    rw [← hstop]
    show position < 0 + text.length
    omega
  obtain ⟨d, hd, hinside⟩ := exists_inside_of_mem_stretches hrun hlo hhi
  obtain rfl : c = d := Option.some.inj (hposition.symm.trans hd)
  rw [hseparates] at hinside
  cases hinside

namespace Pointer

/-- An aim at an operand is known by how far the pointer is from its beginning
and from its mark. -/
theorem aim?_of_same_offset (base : Base) {text other : Text} {position position' : Nat}
    {group group' : Group} {halfByte? : Option Nat}
    (hgroup : text.groupAt? position = some group)
    (hgroup' : other.groupAt? position' = some group') (hoperand : group.operand?.isNone = false)
    (hoperand' : group'.operand?.isNone = false)
    (hoffset : position' - group'.start = position - group.start)
    (hmark : base.markLength group'.text = base.markLength group.text)
    (haim : aim? base text position = some ⟨group, halfByte?⟩) :
    aim? base other position' = some ⟨group', halfByte?⟩ := by
  rw [aim?_of_groupAt? base hgroup, Group.isWholeLine, hoperand] at haim
  rw [aim?_of_groupAt? base hgroup', Group.isWholeLine, hoperand', hoffset]
  cases base with
  | decimal =>
      obtain ⟨-, rfl⟩ := Aim.mk.inj (Option.some.inj haim)
      rfl
  | hex =>
      rw [Base.markLength, Base.markLength] at hmark
      rw [hmark]
      simp only [Bool.false_and, Bool.false_or, decide_eq_true_eq] at haim ⊢
      split at haim
      · cases haim
      · rename_i hinside
        obtain ⟨-, rfl⟩ := Aim.mk.inj (Option.some.inj haim)
        rw [if_neg hinside]
  | binary =>
      obtain ⟨-, rfl⟩ := Aim.mk.inj (Option.some.inj haim)
      rfl

section

variable {sheet spaced : Sheet} {count : Nat} {source : Base} {position : Nat}

/-- Over a digit the pointer has an aim, and in some other field it marks the
whole operand, whatever the half byte. -/
theorem exists_whole_target (h : sheet.ShowsLines count) (hdigit : sheet.IsDigitAt source position) :
    ∃ target, target ≠ source
      ∧ (∃ index same, sheet.run? target index = some same
        ∧ numericSpan? sheet source position (Field.ofBase target) = some same.span)
      ∧ ∀ text place aim, aim? source text place = some aim →
          ∀ group, aim.spanOf? target group = some group.span := by
  obtain ⟨index, run, hrun, hlo, hhi⟩ := hdigit
  by_cases hsource : source = .decimal
  · subst hsource
    obtain ⟨same, hsame, hspan⟩ := h.marksRuns.fromDecimal index run hrun position
      (by omega) hhi .hex
    refine ⟨.hex, by decide, ⟨index, same, hsame, hspan⟩, ?_⟩
    intro text place aim haim group
    rw [aim?_of_groupAt? .decimal (groupAt?_of_aim? haim)] at haim
    rw [← Option.some.inj haim]
    rfl
  · obtain ⟨⟨same, hsame, hspan⟩, -⟩ := h.marksRuns.fromDigit source index run hrun position hlo hhi
    rw [span?_ofBase] at hspan
    exact ⟨.decimal, fun heq => hsource heq.symm, ⟨index, same, hsame, hspan⟩,
      fun _ _ _ _ _ => rfl⟩

/-- Over a digit in the first group of a line with spaces, the same is marked in
the other fields as in the line without. -/
theorem numericSpan?_of_inFirstLine (h : sheet.ShowsLines count)
    (hspaces : Sheet.SpacesIn source sheet spaced) (hdigit : sheet.IsDigitAt source position)
    (hfirst : (spaced.get (Field.ofBase source)).InFirstLine
      ((spaced.get (Field.ofBase source)).placeOf position)) {target : Base}
    (htarget : target ≠ source) :
    numericSpan? spaced source ((spaced.get (Field.ofBase source)).placeOf position)
        (Field.ofBase target)
      = numericSpan? sheet source position (Field.ofBase target) := by
  obtain ⟨index, run, hrun, hlo, hhi⟩ := hdigit
  obtain ⟨same, hsame⟩ := h.exists_run hrun target
  obtain ⟨halfByte?, haim, -⟩ := aim?_run source (h.isLine source) hrun hlo hhi
  have hplain : ((spaced.get (Field.ofBase source)).withoutSpaces.operandRuns)[index]? = some run := by
    rw [hspaces.withoutSpaces]
    exact hrun
  obtain ⟨group, hgroup, hindex, hoperand, hoffset, hprefix, hlength⟩ :=
    Text.groupAt?_placeOf hplain (by omega) hhi hfirst
  have hmark : source.markLength run.text < group.text.length := by omega
  have haim' := aim?_of_same_offset source ((h.isLine source).groupAt?_run hrun (by omega) hhi)
    hgroup rfl (by rw [hoperand]; rfl) hoffset (source.markLength_of_prefix hprefix hmark) haim
  have haligned : group.alignedIn? (sheet.get (Field.ofBase target))
      = ((Group.line (sheet.get (Field.ofBase source))).narrow run index).alignedIn?
          (sheet.get (Field.ofBase target)) :=
    Group.alignedIn?_congr hindex hoperand _
  rw [(h.isLine target).alignedIn?_run run hsame] at haligned
  rw [numericSpan?_run h hrun hsame haim, numericSpan?_of_aim haim', if_neg htarget,
    hspaces.same _ (Field.ofBase_ne htarget), haligned, Option.bind_some]
  rfl

/-- Over any other digit something else is marked in another field. -/
theorem exists_numericSpan?_ne (h : sheet.ShowsLines count)
    (hspaces : Sheet.SpacesIn source sheet spaced) (hdigit : sheet.IsDigitAt source position)
    (hfirst : ¬ (spaced.get (Field.ofBase source)).InFirstLine
      ((spaced.get (Field.ofBase source)).placeOf position)) :
    ∃ target, target ≠ source
      ∧ numericSpan? spaced source ((spaced.get (Field.ofBase source)).placeOf position)
          (Field.ofBase target)
        ≠ numericSpan? sheet source position (Field.ofBase target) := by
  obtain ⟨target, htarget, ⟨index, same, hsame, hspan⟩, hwhole⟩ := exists_whole_target h hdigit
  obtain ⟨_, run, hrun, hlo, hhi⟩ := hdigit
  obtain ⟨c, hc, -⟩ := Text.exists_inside_of_mem_stretches (List.mem_of_getElem? hrun)
    (Nat.le_trans (Nat.le_add_right _ _) hlo) hhi
  rw [← hspaces.withoutSpaces] at hc
  obtain ⟨number, part, hpart, hstart, hstop⟩ := Text.exists_part_of_placeOf hc
  obtain ⟨group, hgroup, haligned⟩ :=
    (h.isLine target).alignedIn?_of_not_inFirstLine hpart hstart hstop hfirst
  refine ⟨target, htarget, ?_⟩
  rw [hspan]
  cases haim : aim? source (spaced.get (Field.ofBase source))
      ((spaced.get (Field.ofBase source)).placeOf position) with
  | none =>
      rw [numericSpan?_of_no_aim source haim]
      exact (Option.some_ne_none _).symm
  | some aim =>
      have haimed := groupAt?_of_aim? haim
      rw [hgroup] at haimed
      rw [numericSpan?_of_aim haim, if_neg htarget, hspaces.same _ (Field.ofBase_ne htarget),
        ← Option.some.inj haimed]
      rcases haligned with hnone | hline
      · rw [hnone]
        exact (Option.some_ne_none _).symm
      · rw [hline, Option.bind_some, hwhole _ _ aim haim]
        intro heq
        exact (h.isLine target).span_line_ne (List.mem_of_getElem? hsame) (Option.some.inj heq)

end

end Pointer

end BaseConverter
