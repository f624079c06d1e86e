import BaseConverter.Proofs.Group.Extent

/-!
# `BaseConverter.Proofs.Group.Enumeration`: the list of the groups of a text

The groups of a text are found by walking through it, and each is told where it
begins by what was walked over. `Text.SpaceFreeRun` says which stretches of a
text are groups without such a walk: it looks at the characters between two
positions and at the two next to them.

* `Text.spaceFreeRun_iff`: these are the parts of a text.
* `Text.existsUnique_groups_iff`: a position is in exactly one group, or there
  is a space or nothing at it.
* `Text.groups_enumerate_runs` is the main statement: the list of groups has
  these runs, all of them, in order, and each with its number.
-/

set_option autoImplicit false

namespace BaseConverter

/-- The characters from `start` up to `stop` are a run without a space, and it
cannot be made longer: on either side there is a space or the end of the
text. -/
structure Text.SpaceFreeRun (text : Text) (start stop : Nat) : Prop where
  start_lt_stop : start < stop
  stop_le : stop ≤ text.length
  no_space : ' ' ∉ text.extract start stop
  opens : start = 0 ∨ text[start - 1]? = some ' '
  closes : stop = text.length ∨ text[stop]? = some ' '

/-- A group is the entry number `index` of the groups of a text: a run without a
space, with its characters and its number. -/
structure Group.IsEntry (group : Group) (text : Text) (index : Nat) : Prop where
  run : text.SpaceFreeRun group.start group.stop
  text_eq : group.text = text.extract group.start group.stop
  index_eq : group.index = index
  operand?_eq : group.operand? = none

namespace Text

variable {text : Text}

/-- A part has the characters of the text between its bounds. -/
theorem extract_of_mem_parts {part : Stretch} (h : part ∈ text.parts) :
    text.extract part.start part.stop = part.text := by
  obtain ⟨-, -, before, after, htext, hstart⟩ := exists_eq_append_of_mem_stretches h
  rw [Nat.zero_add] at hstart
  exact extract_of_eq_append htext hstart rfl

/-- Every part is a run without a space. -/
theorem spaceFreeRun_of_mem_parts {part : Stretch} (h : part ∈ text.parts) :
    text.SpaceFreeRun part.start part.stop := by
  obtain ⟨hlt, hle⟩ := bounds_of_mem_stretches h
  have hextract := extract_of_mem_parts h
  obtain ⟨-, hinside, before, after, htext, hstart, hlast, hhead⟩ := maximalRun_of_mem_stretches h
  have hspace : ∀ {c : Char}, decide (c ≠ ' ') = false → c = ' ' := by
    intro c hc
    simpa using hc
  rw [Nat.zero_add] at hle hstart
  refine ⟨hlt, hle, ?_, ?_, ?_⟩
  · rw [hextract]
    intro hmem
    exact of_decide_eq_true (hinside ' ' hmem) rfl
  · -- The character in front of the part is the last one of what stands there.
    rcases List.eq_nil_or_concat before with rfl | ⟨front, c, rfl⟩
    · exact .inl hstart
    · right
      obtain rfl := hspace (hlast c (by simp))
      rw [htext, hstart]
      simp
  · cases after with
    | nil =>
        left
        rw [Stretch.stop, hstart, htext, List.append_nil, List.length_append]
    | cons c back =>
        right
        obtain rfl := hspace (hhead c rfl)
        rw [Stretch.stop, hstart, ← List.length_append, htext,
          List.getElem?_append_right (Nat.le_refl _), Nat.sub_self]
        rfl

/-- Every run without a space is a part. -/
theorem SpaceFreeRun.mem_parts {start stop : Nat} (h : text.SpaceFreeRun start stop) :
    ⟨start, text.extract start stop⟩ ∈ text.parts := by
  obtain ⟨hlt, hle, hspace, hopens, hcloses⟩ := h
  -- Cut in three, the text shows the run between the two characters next to it.
  have htext : text = text.take start ++ text.extract start stop ++ text.drop stop := by
    have hdrop : stop = start + (stop - start) := by omega
    conv_rhs => rw [List.extract_eq_take_drop, hdrop, Nat.add_sub_cancel_left, ← List.drop_drop]
    rw [List.append_assoc, List.take_append_drop, List.take_append_drop]
  have hne : text.extract start stop ≠ [] := by
    rw [← List.length_pos_iff, List.extract_eq_take_drop, List.length_take, List.length_drop]
    omega
  rw [parts, mem_stretches_iff]
  refine ⟨hne, decide_ne_of_not_mem hspace, text.take start, text.drop stop, htext, ?_, ?_, ?_⟩
  · rw [Nat.zero_add, List.length_take_of_le (by omega)]
  · intro c hc
    rcases hopens with rfl | hopens
    · cases hc
    · rw [List.getLast?_take, hopens] at hc
      split at hc
      · cases hc
      · rw [← Option.some.inj hc]
        rfl
  · intro c hc
    rw [List.head?_drop] at hc
    rcases hcloses with rfl | hcloses
    · rw [List.getElem?_eq_none (Nat.le_refl _)] at hc
      cases hc
    · rw [hcloses] at hc
      rw [← Option.some.inj hc]
      rfl

/-- The runs of a text without a space are its parts. -/
theorem spaceFreeRun_iff (text : Text) (start stop : Nat) :
    text.SpaceFreeRun start stop
      ↔ ∃ part ∈ text.parts, part.start = start ∧ part.stop = stop := by
  constructor
  · intro h
    refine ⟨⟨start, text.extract start stop⟩, h.mem_parts, rfl, ?_⟩
    have hlt := h.start_lt_stop
    have hle := h.stop_le
    show start + (text.extract start stop).length = stop
    rw [List.extract_eq_take_drop, List.length_take, List.length_drop]
    omega
  · rintro ⟨part, hpart, rfl, rfl⟩
    exact spaceFreeRun_of_mem_parts hpart

/-- The groups of a text are entries of their list. -/
theorem isEntry_of_group? {index : Nat} {group : Group} (h : text.group? index = some group) :
    group.IsEntry text index := by
  rw [group?_eq] at h
  obtain ⟨part, hpart, rfl⟩ := Option.map_eq_some_iff.mp h
  have hmem := List.mem_of_getElem? hpart
  exact ⟨spaceFreeRun_of_mem_parts hmem, (extract_of_mem_parts hmem).symm, rfl, rfl⟩

/-- Every run without a space is a group. -/
theorem SpaceFreeRun.exists_group {start stop : Nat} (h : text.SpaceFreeRun start stop) :
    ∃ group ∈ text.groups, group.start = start ∧ group.stop = stop := by
  obtain ⟨part, hpart, rfl, rfl⟩ := (spaceFreeRun_iff text start stop).mp h
  obtain ⟨index, hindex⟩ := List.mem_iff_getElem?.mp hpart
  exact ⟨Group.ofPart part index, List.mem_of_getElem? (group?_of_getElem?_parts hindex), rfl, rfl⟩

/-- There is exactly one group over every character other than a space, and none
over a space or behind the end. -/
theorem existsUnique_groups_iff (text : Text) (position : Nat) :
    (∃! group, group ∈ text.groups ∧ group.start ≤ position ∧ position < group.stop)
      ↔ ∃ c, text[position]? = some c ∧ c ≠ ' ' := by
  constructor
  · rintro ⟨group, ⟨hmem, hlo, hhi⟩, -⟩
    obtain ⟨-, hstop, hspace⟩ := extent_of_mem_groups hmem
    have hlt : position < text.length := Nat.lt_of_lt_of_le hhi hstop
    have hc := List.getElem?_eq_getElem hlt
    refine ⟨text[position], hc, fun heq => hspace position hlo hhi ?_⟩
    rw [hc, heq]
  · rintro ⟨c, hc, hne⟩
    obtain ⟨index, part, hpart, hrun⟩ := exists_part_at hc hne
    have hgroup : Group.ofPart part index ∈ text.groups :=
      List.mem_of_getElem? (group?_of_getElem?_parts hpart)
    -- Any other one would be found as the group that covers the position, too.
    have hfound : ∀ group ∈ text.groups, group.start ≤ position → position < group.stop →
        text.groups.find? (·.covers position) = some group := by
      intro group hmem hlo hhi
      exact find?_covers text.pairwise_groups hmem ((group.covers_iff position).mpr ⟨hlo, hhi⟩)
    refine ⟨Group.ofPart part index, ⟨hgroup, hrun.start_le, hrun.lt_stop⟩, ?_⟩
    rintro other ⟨hmem, hlo, hhi⟩
    have hother := hfound other hmem hlo hhi
    rw [hfound _ hgroup hrun.start_le hrun.lt_stop] at hother
    exact (Option.some.inj hother).symm

/-- The groups of a text lie in order, each ending before the next one begins.
They are runs without a space, with the characters and the number that they
tell, and no such run is missing. Every character other than a space is in
exactly one of them. A group is found by its number, and there is none for a
number past the end. -/
theorem groups_enumerate_runs (text : Text) :
    text.groups.Pairwise (fun first second => first.stop < second.start)
    ∧ (∀ (index : Nat) (h : index < text.groups.length),
        text.groups[index].IsEntry text index ∧ text.group? index = some text.groups[index])
    ∧ (∀ index, text.groups.length ≤ index → text.group? index = none)
    ∧ (∀ start stop, text.SpaceFreeRun start stop →
        ∃ group ∈ text.groups, group.start = start ∧ group.stop = stop)
    ∧ ∀ position,
        (∃! group, group ∈ text.groups ∧ group.start ≤ position ∧ position < group.stop)
          ↔ ∃ c, text[position]? = some c ∧ c ≠ ' ' := by
  refine ⟨text.pairwise_groups, ?_, ?_, fun _ _ => SpaceFreeRun.exists_group,
    text.existsUnique_groups_iff⟩
  · intro index h
    have hgroup : text.group? index = some text.groups[index] := List.getElem?_eq_getElem h
    exact ⟨isEntry_of_group? hgroup, hgroup⟩
  · intro index h
    exact List.getElem?_eq_none h

/-- Spaces in front, in between and behind take up positions and no number, and a
character takes up one position however it is encoded. -/
example : groups "  a  éé ".toList
    = [⟨"a".toList, 2, 3, 0, none⟩, ⟨"éé".toList, 5, 7, 1, none⟩] := by decide

end Text

end BaseConverter
