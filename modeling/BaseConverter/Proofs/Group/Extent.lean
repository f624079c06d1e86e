import BaseConverter.Proofs.Group.Lookup
import BaseConverter.Span

/-!
# `BaseConverter.Proofs.Group.Extent`: how far a group that is found reaches

What is found by a position or by a number is a group of the text or an
operand of one. `Span.InGroup` says that a span marks positions of a group
only. The span of an operand does, so whatever is known of the positions
of the groups holds of what is found:

* `Text.exists_inGroup_of_groupAt?` for the group under a position;
* `Group.exists_inGroup_of_alignedIn?` for the group of another text that
  a group belongs to.

`Group.CutFrom` says that a group has the characters of a text between its
bounds. It holds of the groups of the text and of their operands
(`Group.cutFrom_of_mem_groups`, `Group.cutFrom_of_mem_operands`).
-/

set_option autoImplicit false

namespace BaseConverter

/-- A span marks at least one position, and only positions of a group. -/
structure Span.InGroup (span : Span) (group : Group) : Prop where
  start_le : group.start ≤ span.start
  start_lt_stop : span.start < span.stop
  stop_le : span.stop ≤ group.stop

/-- What lies in a part of a group lies in the group. -/
theorem Span.InGroup.trans {span : Span} {inner outer : Group} (h : span.InGroup inner)
    (hinner : inner.span.InGroup outer) : span.InGroup outer where
  start_le := Nat.le_trans hinner.start_le h.start_le
  start_lt_stop := h.start_lt_stop
  stop_le := Nat.le_trans h.stop_le hinner.stop_le

namespace Group

theorem span_inGroup_self {group : Group} (h : group.start < group.stop) :
    group.span.InGroup group :=
  ⟨Nat.le_refl _, h, Nat.le_refl _⟩

/-- An operand reaches no further than its group. -/
theorem span_inGroup_of_mem_operands {text : Text} {group operand : Group}
    (hgroup : group ∈ text.groups) (h : operand ∈ group.operands) :
    operand.span.InGroup group := by
  obtain ⟨⟨stretch, ordinal⟩, hmem, rfl⟩ := List.mem_map.mp h
  have hstretch : stretch ∈ Text.stretches (fun c => !separatesOperands c) group.start group.text :=
    List.fst_mem_of_mem_zipIdx hmem
  have hstart := Text.start_le_of_mem_stretches _ group.start group.text stretch hstretch
  obtain ⟨hpos, hlast⟩ := Text.bounds_of_mem_stretches hstretch
  have hstop := Text.stop_eq_of_mem_groups hgroup
  exact ⟨hstart, hpos, by rw [hstop]; exact hlast⟩

end Group

/-- The group under a position is a group of the text, or narrowed to an
operand of one. -/
theorem Text.exists_inGroup_of_groupAt? {text : Text} {position : Nat} {group : Group}
    (h : text.groupAt? position = some group) :
    ∃ outer ∈ text.groups, group.span.InGroup outer := by
  obtain ⟨outer, hfind, rfl⟩ := Option.map_eq_some_iff.mp h
  have hmem := List.mem_of_find?_eq_some hfind
  refine ⟨outer, hmem, ?_⟩
  rcases outer.narrowAt_eq_or_mem position with hwhole | hoperand
  · rw [hwhole]
    exact Group.span_inGroup_self (extent_of_mem_groups hmem).1
  · exact Group.span_inGroup_of_mem_operands hmem hoperand

/-- The group of a text that a group of another text belongs to is the
group of this text with the same number, or an operand of it. -/
theorem Group.exists_inGroup_of_alignedIn? {text : Text} {group aligned : Group}
    (h : group.alignedIn? text = some aligned) :
    ∃ outer, text.group? group.index = some outer ∧ aligned.span.InGroup outer := by
  unfold alignedIn? at h
  split at h
  · have hmem : aligned ∈ text.groups := List.mem_of_getElem? h
    exact ⟨aligned, h, span_inGroup_self (Text.extent_of_mem_groups hmem).1⟩
  · obtain ⟨outer, houter, hoperand⟩ := Option.bind_eq_some_iff.mp h
    have hmem : outer ∈ text.groups := List.mem_of_getElem? houter
    exact ⟨outer, houter, span_inGroup_of_mem_operands hmem (List.mem_of_getElem? hoperand)⟩

/-! ### The characters of a group -/

namespace Group

/-- A group has the characters of a text between its bounds, and at least
one. -/
structure CutFrom (group : Group) (text : Text) : Prop where
  start_lt_stop : group.start < group.stop
  stop_le : group.stop ≤ text.length
  extract_eq : text.extract group.start group.stop = group.text

variable {text : Text} {group : Group}

/-- A group ends as many positions behind its first one as it has
characters. -/
theorem CutFrom.stop_eq (h : group.CutFrom text) : group.stop = group.start + group.text.length := by
  have hlt := h.start_lt_stop
  have hle := h.stop_le
  rw [← h.extract_eq, List.extract_eq_take_drop, List.length_take, List.length_drop]
  omega

theorem cutFrom_of_eq_append (before after : Text) (htext : text = before ++ group.text ++ after)
    (hne : group.text ≠ []) (hstart : group.start = before.length)
    (hstop : group.stop = group.start + group.text.length) : group.CutFrom text where
  start_lt_stop := by
    have hpos := List.length_pos_iff.mpr hne
    omega
  stop_le := by
    rw [htext, List.length_append, List.length_append]
    omega
  extract_eq := Text.extract_of_eq_append htext hstart hstop

theorem cutFrom_of_mem_groups (h : group ∈ text.groups) : group.CutFrom text := by
  obtain ⟨part, hpart, index, rfl⟩ := Text.exists_part_of_mem_groups h
  obtain ⟨hne, -, before, after, htext, hstart⟩ := Text.exists_eq_append_of_mem_stretches hpart
  rw [Nat.zero_add] at hstart
  exact cutFrom_of_eq_append before after htext hne hstart rfl

/-- A piece of a piece of a text is a piece of the text. -/
theorem cutFrom_of_mem_operands {operand : Group} (hgroup : group ∈ text.groups)
    (h : operand ∈ group.operands) : operand.CutFrom text := by
  obtain ⟨part, hpart, index, rfl⟩ := Text.exists_part_of_mem_groups hgroup
  obtain ⟨⟨run, ordinal⟩, hmem, rfl⟩ := List.mem_map.mp h
  obtain ⟨-, -, before, after, htext, hstart⟩ := Text.exists_eq_append_of_mem_stretches hpart
  obtain ⟨hne, -, front, back, hrun, hfront⟩ :=
    Text.exists_eq_append_of_mem_stretches (List.fst_mem_of_mem_zipIdx hmem)
  have hpiece : part.text = front ++ run.text ++ back := hrun
  have hoffset : run.start = part.start + front.length := hfront
  refine cutFrom_of_eq_append (before ++ front) (back ++ after) ?_ hne ?_ rfl
  · show text = before ++ front ++ run.text ++ (back ++ after)
    rw [htext, hpiece]
    simp only [List.append_assoc]
  · show run.start = (before ++ front).length
    rw [hoffset, hstart, Nat.zero_add, List.length_append]

end Group

end BaseConverter
