import BaseConverter.Proofs.Group.Line
import BaseConverter.Proofs.Text.Spaces

/-!
# `BaseConverter.Proofs.Group.Spacing`: groups of a line with spaces in it

Spaces separate groups, in a line too. A line with spaces in it falls into
several groups, and the operands are counted in each of them anew.

The first group begins with the line. If there is an operator or the equals
sign in it, it has operands, and they have the numbers that they have in the
line without spaces (`Text.groupAt?_placeOf`). Then each belongs to the operand
of another line with this number. Any other group belongs to another line as a
whole, or to nothing in it (`Text.IsLine.alignedIn?_of_not_inFirstLine`).
-/

set_option autoImplicit false

namespace BaseConverter

/-- A position is in the first part of a text, and this part is a line. -/
def Text.InFirstLine (text : Text) (position : Nat) : Prop :=
  ∃ part, text.parts[0]? = some part ∧ part.start ≤ position ∧ position < part.stop
    ∧ (Group.ofPart part 0).isLine = true

namespace Text

variable {text : Text}

/-- The place of a character other than a space is in one of the parts. -/
theorem exists_part_of_placeOf {index : Nat} {c : Char}
    (h : text.withoutSpaces[index]? = some c) :
    ∃ (number : Nat) (part : Stretch), text.parts[number]? = some part
      ∧ part.start ≤ text.placeOf index ∧ text.placeOf index < part.stop := by
  obtain ⟨before, after, htext, hplace, -⟩ := exists_of_placeOf h
  have hspace : c ≠ ' ' := (mem_withoutSpaces.mp (List.mem_of_getElem? h)).2
  have hc : text[text.placeOf index]? = some c := by
    rw [← hplace, htext, List.getElem?_append_right (Nat.le_refl _), Nat.sub_self]
    rfl
  obtain ⟨number, part, hpart, hrun⟩ := exists_part_at hc hspace
  exact ⟨number, part, hpart, hrun.start_le, hrun.lt_stop⟩

/-- In the first part every character has as many characters in front of it as
in the text without spaces. -/
theorem placeOf_eq_of_first {part : Stretch} (hpart : text.parts[0]? = some part) {index : Nat}
    {c : Char} (hc : text.withoutSpaces[index]? = some c) (hlo : part.start ≤ text.placeOf index)
    (hhi : text.placeOf index < part.stop) :
    text.placeOf index = part.start + index
      ∧ ∃ behind, text.withoutSpaces = part.text ++ behind := by
  obtain ⟨lead, after, htext, hstart, hlead⟩ := exists_eq_append_of_first hpart
  obtain ⟨-, hinside, -⟩ := exists_eq_append_of_mem_stretches (List.mem_of_getElem? hpart)
  obtain ⟨before, behind, hcut, hplace, hfront⟩ := exists_of_placeOf hc
  rw [Nat.zero_add] at hstart
  have hleadSpaces : withoutSpaces lead = [] := by
    rw [withoutSpaces, List.filter_eq_nil_iff]
    intro d hd
    simpa using hlead d hd
  have hnoSpace : ∀ kept, kept <+: part.text → withoutSpaces kept = kept := by
    intro kept hkept
    refine withoutSpaces_eq_self fun hspace => ?_
    exact absurd (hinside ' ' (hkept.subset hspace)) (by decide)
  refine ⟨?_, withoutSpaces after, ?_⟩
  · -- What stands in front of the character is the lead and a piece of the part.
    have hbefore : before = lead ++ part.text.take (before.length - lead.length) := by
      have htake := congrArg (List.take before.length) (hcut.symm.trans htext)
      rw [Stretch.stop, ← hplace] at hhi
      rw [List.take_left, List.append_assoc, List.take_append, List.take_of_length_le (by omega),
        List.take_append_of_le_length (by omega)] at htake
      exact htake
    have hcount := congrArg List.length hfront
    have hindex := (List.getElem?_eq_some_iff.mp hc).1
    rw [hbefore, withoutSpaces_append, hleadSpaces, hnoSpace _ (List.take_prefix _ _),
      List.nil_append, List.length_take, List.length_take] at hcount
    rw [Stretch.stop] at hhi
    omega
  · rw [htext, withoutSpaces_append, withoutSpaces_append, hleadSpaces,
      hnoSpace _ (List.prefix_refl _), List.nil_append]

/-! ### Operands of the first part -/

/-- The group under a character of the first part of a line is the operand with
the same number as in the line without spaces. Its end may be missing. -/
theorem groupAt?_placeOf {number : Nat} {run : Stretch}
    (hrun : text.withoutSpaces.operandRuns[number]? = some run) {index : Nat}
    (hlo : run.start ≤ index) (hhi : index < run.stop) (h : text.InFirstLine (text.placeOf index)) :
    ∃ group, text.groupAt? (text.placeOf index) = some group ∧ group.index = 0
      ∧ group.operand? = some number ∧ text.placeOf index - group.start = index - run.start
      ∧ group.text <+: run.text ∧ index - run.start < group.text.length := by
  obtain ⟨part, hpart, hstart, hstop, hline⟩ := h
  obtain ⟨c, hc, -⟩ := exists_inside_of_mem_stretches (List.mem_of_getElem? hrun) hlo hhi
  obtain ⟨hplace, behind, hbehind⟩ := placeOf_eq_of_first hpart hc hstart hstop
  rw [Stretch.stop, hplace] at hstop
  rw [operandRuns, hbehind] at hrun
  obtain ⟨operand, hprefix, hlength, hoperand⟩ :=
    exists_stretch_of_append hrun hlo hhi (by omega)
  -- The operands of a group are placed in the whole text.
  have hplaced := stretches_add (fun c => !separatesOperands c) part.start 0 part.text
  rw [Nat.add_zero] at hplaced
  have hplacedRun : (stretches (fun c => !separatesOperands c) part.start part.text)[number]?
      = some ⟨part.start + run.start, operand⟩ := by
    rw [hplaced, List.getElem?_map, hoperand, Option.map_some]
  refine ⟨(Group.ofPart part 0).narrow ⟨part.start + run.start, operand⟩ number, ?_, rfl, rfl, ?_,
    hprefix, ?_⟩
  · rw [groupAt?_part hpart hstart (by rw [hplace]; exact hstop)]
    refine congrArg some (Group.narrowAt_of_operand hline hplacedRun ?_ ?_) <;>
      simp only [Stretch.stop] <;> omega
  · show text.placeOf index - (part.start + run.start) = index - run.start
    omega
  · show index - run.start < operand.length
    omega

/-! ### Other parts -/

/-- A group that does not lie in the first line of its text belongs to a line
without spaces as a whole, or to nothing in it. -/
theorem IsLine.alignedIn?_of_not_inFirstLine {other : Text} (hother : other.IsLine) {number : Nat}
    {part : Stretch} (hpart : text.parts[number]? = some part) {position : Nat}
    (hlo : part.start ≤ position) (hhi : position < part.stop) (h : ¬ text.InFirstLine position) :
    ∃ group, text.groupAt? position = some group
      ∧ (group.alignedIn? other = none ∨ group.alignedIn? other = some (Group.line other)) := by
  have hgroups := hother.groups_eq
  refine ⟨_, groupAt?_part hpart hlo hhi, ?_⟩
  cases number with
  | zero =>
      -- Without an operator the group is not narrowed to an operand.
      have hline : ¬ (Group.ofPart part 0).isLine = true :=
        fun hline => h ⟨part, hpart, hlo, hhi, hline⟩
      rw [Group.narrowAt, if_neg hline]
      right
      show other.group? 0 = _
      rw [group?, hgroups]
      rfl
  | succ number =>
      -- There is only one group in the line.
      have hnone : other.group? (number + 1) = none := by
        rw [group?, hgroups]
        rfl
      have hindex := Group.index_narrowAt (Group.ofPart part (number + 1)) position
      left
      unfold Group.alignedIn?
      rw [hindex]
      split
      · exact hnone
      · show (other.group? (number + 1)).bind _ = none
        rw [hnone]
        rfl

end Text

end BaseConverter
