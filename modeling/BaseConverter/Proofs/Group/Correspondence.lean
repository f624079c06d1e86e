import BaseConverter.Proofs.Group.Extent

/-!
# `BaseConverter.Proofs.Group.Correspondence`: groups of two texts that belong together

A group is found by its position in one text and by its two numbers in
another: its index, and its ordinal if it is an operand. Both ways of looking
go through the same lists, so in its own text a group belongs to itself
(`Group.alignedIn?_self`). What is found by the numbers has these numbers
(`Group.numbers_of_alignedIn?`), so the way to another text and back ends where
it began.

The numbers put groups in an order, `Group.Precedes`. Two groups found by
position are the same, or one precedes the other, unless a line was taken whole
(`Group.precedes_or_precedes`). In every text the groups that they belong to
then lie in this order, with a gap between them
(`Group.stop_lt_start_of_precedes`).

* `Group.alignedIn?_partialBijection` is the main statement.
-/

set_option autoImplicit false

namespace BaseConverter.Group

/-- A group comes before another by its numbers: it has a smaller index, or both
are operands of the same group and it has a smaller ordinal. -/
def Precedes (group group' : Group) : Prop :=
  group.index < group'.index
    ∨ group.index = group'.index ∧ ∃ ordinal ordinal', group.operand? = some ordinal
      ∧ group'.operand? = some ordinal' ∧ ordinal < ordinal'

/-! ### Looking up by numbers -/

theorem alignedIn?_of_whole {group : Group} (h : group.operand? = none) (text : Text) :
    group.alignedIn? text = text.group? group.index := by
  rw [alignedIn?, h]

theorem alignedIn?_of_operand {group : Group} {ordinal : Nat} (h : group.operand? = some ordinal)
    (text : Text) :
    group.alignedIn? text = (text.group? group.index).bind (·.operands[ordinal]?) := by
  rw [alignedIn?, h]

/-- A group found by its index has this index and is whole. -/
theorem numbers_of_group? {text : Text} {index : Nat} {group : Group}
    (h : text.group? index = some group) : group.index = index ∧ group.operand? = none := by
  rw [Text.group?_eq] at h
  obtain ⟨part, -, rfl⟩ := Option.map_eq_some_iff.mp h
  exact ⟨rfl, rfl⟩

/-- An operand found by its ordinal has this ordinal, and the index of its
group. -/
theorem numbers_of_operand {group operand : Group} {ordinal : Nat}
    (h : group.operands[ordinal]? = some operand) :
    operand.index = group.index ∧ operand.operand? = some ordinal := by
  rw [getElem?_operands] at h
  obtain ⟨run, -, rfl⟩ := Option.map_eq_some_iff.mp h
  exact ⟨rfl, rfl⟩

/-- What a group belongs to has its numbers. -/
theorem numbers_of_alignedIn? {text : Text} {group aligned : Group}
    (h : group.alignedIn? text = some aligned) :
    aligned.index = group.index ∧ aligned.operand? = group.operand? := by
  cases hoperand : group.operand? with
  | none =>
      rw [alignedIn?_of_whole hoperand] at h
      exact numbers_of_group? h
  | some ordinal =>
      rw [alignedIn?_of_operand hoperand] at h
      obtain ⟨outer, houter, haligned⟩ := Option.bind_eq_some_iff.mp h
      obtain ⟨hindex, hordinal⟩ := numbers_of_operand haligned
      exact ⟨hindex.trans (numbers_of_group? houter).1, hordinal⟩

/-- What a group belongs to has the characters between its bounds. -/
theorem cutFrom_of_alignedIn? {text : Text} {group aligned : Group}
    (h : group.alignedIn? text = some aligned) : aligned.CutFrom text := by
  cases hoperand : group.operand? with
  | none =>
      rw [alignedIn?_of_whole hoperand] at h
      exact cutFrom_of_mem_groups (List.mem_of_getElem? h)
  | some ordinal =>
      rw [alignedIn?_of_operand hoperand] at h
      obtain ⟨outer, houter, haligned⟩ := Option.bind_eq_some_iff.mp h
      exact cutFrom_of_mem_operands (List.mem_of_getElem? houter) (List.mem_of_getElem? haligned)

/-! ### Looking up by position -/

/-- What is under a position is the group of the text with its index, or an
operand of this group if it is a line. -/
theorem exists_outer_of_groupAt? {text : Text} {position : Nat} {group : Group}
    (h : text.groupAt? position = some group) :
    ∃ outer, text.group? group.index = some outer
      ∧ (group = outer ∨ outer.isLine = true
          ∧ ∃ ordinal : Nat, outer.operands[ordinal]? = some group) := by
  obtain ⟨index, part, hpart, -, rfl⟩ := Text.exists_part_of_groupAt? h
  refine ⟨Group.ofPart part index, ?_, ?_⟩
  · rw [index_narrowAt]
    exact Text.group?_of_getElem?_parts hpart
  · unfold narrowAt
    split
    · rename_i hline
      cases hfind : (Group.ofPart part index).operands.find? (·.covers position) with
      | none => exact .inl rfl
      | some operand =>
          exact .inr ⟨hline, List.mem_iff_getElem?.mp (List.mem_of_find?_eq_some hfind)⟩
    · exact .inl rfl

/-- A line that is a group of a text is taken whole. -/
theorem isWholeLine_of_group? {text : Text} {index : Nat} {group : Group}
    (h : text.group? index = some group) (hline : group.isLine = true) :
    group.isWholeLine = true := by
  rw [isWholeLine, (numbers_of_group? h).2, hline]
  rfl

/-- In its own text a group belongs to itself. -/
theorem alignedIn?_self {text : Text} {position : Nat} {group : Group}
    (h : text.groupAt? position = some group) : group.alignedIn? text = some group := by
  obtain ⟨outer, houter, rfl | ⟨-, ordinal, hordinal⟩⟩ := exists_outer_of_groupAt? h
  · rw [alignedIn?_of_whole (numbers_of_group? houter).2, houter]
  · rw [alignedIn?_of_operand (numbers_of_operand hordinal).2, houter, Option.bind_some, hordinal]

/-! ### Order -/

/-- Of two different groups found by position one comes first, if neither is a
line taken whole. -/
theorem precedes_or_precedes {text : Text} {position position' : Nat} {group group' : Group}
    (h : text.groupAt? position = some group) (h' : text.groupAt? position' = some group')
    (hne : group ≠ group') (hwhole : group.isWholeLine = false)
    (hwhole' : group'.isWholeLine = false) : group.Precedes group' ∨ group'.Precedes group := by
  obtain ⟨outer, houter, hgroup⟩ := exists_outer_of_groupAt? h
  obtain ⟨outer', houter', hgroup'⟩ := exists_outer_of_groupAt? h'
  rcases Nat.lt_trichotomy group.index group'.index with hlt | hindex | hgt
  · exact .inl (.inl hlt)
  · -- With one index both come from one group of the text. It cannot be one of them and
    -- have the other as an operand: it would be a line, taken whole.
    rw [← hindex, houter, Option.some.injEq] at houter'
    subst houter'
    rcases hgroup with rfl | ⟨hline, ordinal, hordinal⟩ <;>
      rcases hgroup' with rfl | ⟨hline', ordinal', hordinal'⟩
    · exact absurd rfl hne
    · rw [isWholeLine_of_group? houter hline'] at hwhole
      cases hwhole
    · rw [isWholeLine_of_group? houter hline] at hwhole'
      cases hwhole'
    · have hoperand := (numbers_of_operand hordinal).2
      have hoperand' := (numbers_of_operand hordinal').2
      rcases Nat.lt_trichotomy ordinal ordinal' with hlt | rfl | hgt
      · exact .inl (.inr ⟨hindex, ordinal, ordinal', hoperand, hoperand', hlt⟩)
      · exact absurd (Option.some.inj (hordinal.symm.trans hordinal')) hne
      · exact .inr (.inr ⟨hindex.symm, ordinal', ordinal, hoperand', hoperand, hgt⟩)
  · exact .inr (.inl hgt)

/-- What two groups belong to lies in their order, with a gap in between. -/
theorem stop_lt_start_of_precedes {text : Text} {group group' aligned aligned' : Group}
    (h : group.Precedes group') (haligned : group.alignedIn? text = some aligned)
    (haligned' : group'.alignedIn? text = some aligned') : aligned.stop < aligned'.start := by
  rcases h with hlt | ⟨hindex, ordinal, ordinal', hordinal, hordinal', hlt⟩
  · obtain ⟨outer, houter, hinside⟩ := exists_inGroup_of_alignedIn? haligned
    obtain ⟨outer', houter', hinside'⟩ := exists_inGroup_of_alignedIn? haligned'
    have hgap := Text.stop_lt_start houter houter' hlt
    exact Nat.lt_of_le_of_lt hinside.stop_le (Nat.lt_of_lt_of_le hgap hinside'.start_le)
  · rw [alignedIn?_of_operand hordinal, hindex] at haligned
    rw [alignedIn?_of_operand hordinal'] at haligned'
    obtain ⟨outer, houter, hoperand⟩ := Option.bind_eq_some_iff.mp haligned
    obtain ⟨outer', houter', hoperand'⟩ := Option.bind_eq_some_iff.mp haligned'
    obtain rfl := Option.some.inj (houter.symm.trans houter')
    obtain ⟨hbound, rfl⟩ := List.getElem?_eq_some_iff.mp hoperand
    obtain ⟨hbound', rfl⟩ := List.getElem?_eq_some_iff.mp hoperand'
    exact List.pairwise_iff_getElem.mp outer.pairwise_operands ordinal ordinal' hbound hbound' hlt

/-- Groups of two texts belong together in pairs. A group found in the text
`text` belongs to itself there. If it belongs to a group of `other`, this group
belongs to it in turn, and has at least one character, and those of `other`
between its bounds. Different groups found in `text`, neither of them a line
taken whole, belong to groups of `other` that do not overlap. -/
theorem alignedIn?_partialBijection (text other : Text) (position : Nat) (group : Group)
    (h : text.groupAt? position = some group) :
    group.alignedIn? text = some group
    ∧ (∀ aligned, group.alignedIn? other = some aligned →
        aligned.alignedIn? text = some group
        ∧ aligned.start < aligned.stop ∧ aligned.stop ≤ other.length
        ∧ aligned.text = other.extract aligned.start aligned.stop)
    ∧ ∀ position' group', text.groupAt? position' = some group' → group ≠ group' →
        group.isWholeLine = false → group'.isWholeLine = false →
        ∀ aligned aligned', group.alignedIn? other = some aligned →
          group'.alignedIn? other = some aligned' →
          aligned.stop ≤ aligned'.start ∨ aligned'.stop ≤ aligned.start := by
  refine ⟨alignedIn?_self h, ?_, ?_⟩
  · intro aligned haligned
    obtain ⟨hindex, hoperand⟩ := numbers_of_alignedIn? haligned
    have hcut := cutFrom_of_alignedIn? haligned
    refine ⟨?_, hcut.start_lt_stop, hcut.stop_le, hcut.extract_eq.symm⟩
    rw [alignedIn?_congr hindex hoperand, alignedIn?_self h]
  · intro position' group' h' hne hwhole hwhole' aligned aligned' haligned haligned'
    rcases precedes_or_precedes h h' hne hwhole hwhole' with hbefore | hbehind
    · exact .inl (Nat.le_of_lt (stop_lt_start_of_precedes hbefore haligned haligned'))
    · exact .inr (Nat.le_of_lt (stop_lt_start_of_precedes hbehind haligned' haligned))

/-- The operand `34` belongs to the operand `22` of another line, whatever
stands in front of it there, and lies apart from the operand that `12` belongs
to. -/
theorem alignedIn?_partialBijection_operands :
    let text : Text := "12+34 5".toList
    let other : Text := "0xC+-22".toList
    let first : Group := ⟨"12".toList, 0, 2, 0, some 0⟩
    let second : Group := ⟨"34".toList, 3, 5, 0, some 1⟩
    let aligned : Group := ⟨"0xC".toList, 0, 3, 0, some 0⟩
    let aligned' : Group := ⟨"22".toList, 5, 7, 0, some 1⟩
    text.groupAt? 0 = some first ∧ text.groupAt? 4 = some second
    ∧ second.alignedIn? text = some second
    ∧ first.alignedIn? other = some aligned ∧ second.alignedIn? other = some aligned'
    ∧ aligned'.alignedIn? text = some second ∧ aligned'.text = other.extract 5 7
    ∧ (aligned'.stop ≤ aligned.start ∨ aligned.stop ≤ aligned'.start) := by
  intro text other first second aligned aligned'
  have hfirst : text.groupAt? 0 = some first := by decide
  have hsecond : text.groupAt? 4 = some second := by decide
  have haligned : first.alignedIn? other = some aligned := by decide
  have haligned' : second.alignedIn? other = some aligned' := by decide
  obtain ⟨hself, hback, hapart⟩ := alignedIn?_partialBijection text other 4 second hsecond
  obtain ⟨hsame, -, -, htext⟩ := hback aligned' haligned'
  have hside := hapart 0 first hfirst (by decide) (by decide) (by decide) aligned' aligned
    haligned' haligned
  exact ⟨hfirst, hsecond, hself, haligned, haligned', hsame, htext, hside⟩

end BaseConverter.Group
