import BaseConverter.Group.Alignment
import BaseConverter.Proofs.Text.Run

/-!
# `BaseConverter.Proofs.Group.Lookup`: which group lies under a position

The groups of a text lie in order with a space between neighbours, so at
most one of them covers a position (`Text.groupAt?_of_covers`). Each of
them is not empty, lies in the text and covers no space
(`Text.extent_of_mem_groups`).

A field of several values is filled by joining their texts with single
spaces. `Group.placed` is the group of one of these texts.
`Text.group?_spaced` and `Text.groupAt?_spaced` find it by its number and
by a position in it, and `Text.take_drop_spaced` tells that its characters
are those of the text.
-/

set_option autoImplicit false

namespace BaseConverter

/-! ### Any text -/

theorem Group.covers_iff (group : Group) (position : Nat) :
    group.covers position = true ↔ group.start ≤ position ∧ position < group.stop := by
  simp [covers]

namespace Text

/-- Every group of a text is the group of one of its parts. -/
theorem exists_part_of_mem_groups {text : Text} {group : Group} (h : group ∈ text.groups) :
    ∃ part ∈ text.parts, ∃ index, group = Group.ofPart part index := by
  obtain ⟨⟨part, index⟩, hmem, rfl⟩ := List.mem_map.mp h
  exact ⟨part, List.fst_mem_of_mem_zipIdx hmem, index, rfl⟩

/-- The groups of a text are its parts, each with its number. -/
theorem group?_eq (text : Text) (index : Nat) :
    text.group? index = text.parts[index]?.map fun part => Group.ofPart part index := by
  rw [group?, groups, List.getElem?_map, List.getElem?_zipIdx]
  cases text.parts[index]? with
  | none => rfl
  | some part => simp

/-- The part with a number is the group with this number. -/
theorem group?_of_getElem?_parts {text : Text} {index : Nat} {part : Stretch}
    (h : text.parts[index]? = some part) : text.group? index = some (Group.ofPart part index) := by
  rw [group?_eq, h, Option.map_some]

/-- The groups lie in order, and there is a gap between neighbours. -/
theorem pairwise_groups (text : Text) :
    text.groups.Pairwise fun first second => first.stop < second.start :=
  List.pairwise_map.mpr (pairwise_zipIdx_stretches (· ≠ ' ') 0 text)

/-- A group with a smaller number ends before the other one begins. -/
theorem stop_lt_start {text : Text} {index index' : Nat} {group group' : Group}
    (hgroup : text.group? index = some group) (hgroup' : text.group? index' = some group')
    (hlt : index < index') : group.stop < group'.start := by
  obtain ⟨hindex, rfl⟩ := List.getElem?_eq_some_iff.mp hgroup
  obtain ⟨hindex', rfl⟩ := List.getElem?_eq_some_iff.mp hgroup'
  exact List.pairwise_iff_getElem.mp text.pairwise_groups index index' hindex hindex' hlt

/-- In a list of groups in order, a group that covers a position is the
first to do so. -/
theorem find?_covers {groups : List Group} {group : Group} {position : Nat}
    (hordered : groups.Pairwise fun first second => first.stop < second.start)
    (hmem : group ∈ groups) (hcovers : group.covers position = true) :
    groups.find? (·.covers position) = some group := by
  induction groups with
  | nil => cases hmem
  | cons first rest ih =>
      obtain ⟨hfirst, hrest⟩ := List.pairwise_cons.mp hordered
      rcases List.mem_cons.mp hmem with rfl | hmem
      · simp only [List.find?_cons, hcovers]
      · -- The first group ends before `group` begins.
        have hnot : first.covers position = false := by
          rw [Bool.eq_false_iff]
          intro hfirst_covers
          have hgap := hfirst group hmem
          have hstop := ((first.covers_iff position).mp hfirst_covers).2
          have hstart := ((group.covers_iff position).mp hcovers).1
          omega
        simp only [List.find?_cons, hnot]
        exact ih hrest hmem

/-- The group under a position is the one that covers it. -/
theorem groupAt?_of_covers {text : Text} {group : Group} {position : Nat}
    (hmem : group ∈ text.groups) (hcovers : group.covers position = true) :
    text.groupAt? position = some (group.narrowAt position) := by
  rw [groupAt?, find?_covers text.pairwise_groups hmem hcovers, Option.map_some]

/-- The group under a position of a part is this part, or narrowed to an
operand of it. -/
theorem groupAt?_part {text : Text} {index : Nat} {part : Stretch}
    (hpart : text.parts[index]? = some part) {position : Nat} (hlo : part.start ≤ position)
    (hhi : position < part.stop) :
    text.groupAt? position = some ((Group.ofPart part index).narrowAt position) := by
  refine groupAt?_of_covers (List.mem_of_getElem? (group?_of_getElem?_parts hpart)) ?_
  rw [Group.covers_iff]
  exact ⟨hlo, hhi⟩

/-- Every character other than a space is in a part. -/
theorem exists_part_at {text : Text} {position : Nat} {c : Char} (hc : text[position]? = some c)
    (hspace : c ≠ ' ') :
    ∃ (index : Nat) (part : Stretch), text.parts[index]? = some part
      ∧ RunAt (· ≠ ' ') 0 text position part :=
  exists_runAt (· ≠ ' ') (Nat.zero_le position) hc (decide_eq_true hspace)

/-- The group under a position is the part around it, or narrowed to an operand
of it. -/
theorem exists_part_of_groupAt? {text : Text} {position : Nat} {group : Group}
    (h : text.groupAt? position = some group) :
    ∃ (index : Nat) (part : Stretch), text.parts[index]? = some part
      ∧ RunAt (· ≠ ' ') 0 text position part
      ∧ group = (Group.ofPart part index).narrowAt position := by
  obtain ⟨outer, hfind, rfl⟩ := Option.map_eq_some_iff.mp h
  obtain ⟨index, hindex⟩ := List.mem_iff_getElem?.mp (List.mem_of_find?_eq_some hfind)
  rw [← group?, group?_eq] at hindex
  obtain ⟨part, hpart, rfl⟩ := Option.map_eq_some_iff.mp hindex
  have hcovers := List.find?_some hfind
  obtain ⟨hlo, hhi⟩ := (Group.covers_iff _ position).mp hcovers
  exact ⟨index, part, hpart,
    ⟨maximalRun_of_mem_stretches (List.mem_of_getElem? hpart), hlo, hhi⟩, rfl⟩

/-- A group of a text is not empty, ends with the text at the latest, and
covers no space. -/
theorem extent_of_mem_groups {text : Text} {group : Group} (h : group ∈ text.groups) :
    group.start < group.stop ∧ group.stop ≤ text.length
    ∧ ∀ position, group.start ≤ position → position < group.stop →
        text[position]? ≠ some ' ' := by
  obtain ⟨part, hpart, index, rfl⟩ := exists_part_of_mem_groups h
  obtain ⟨hpos, hstop⟩ := bounds_of_mem_stretches hpart
  rw [Nat.zero_add] at hstop
  refine ⟨hpos, hstop, ?_⟩
  intro position hlo hhi hspace
  obtain ⟨c, hc, hinside⟩ := exists_inside_of_mem_stretches hpart hlo hhi
  obtain rfl : c = ' ' := Option.some.inj (hc.symm.trans hspace)
  exact absurd hinside (by decide)

theorem stop_eq_of_mem_groups {text : Text} {group : Group} (h : group ∈ text.groups) :
    group.stop = group.start + group.text.length := by
  obtain ⟨part, -, index, rfl⟩ := exists_part_of_mem_groups h
  rfl

/-- There is no group under a space. -/
theorem groupAt?_of_space {text : Text} {position : Nat} (h : text[position]? = some ' ') :
    text.groupAt? position = none := by
  have hnone : ∀ group ∈ text.groups, ¬ group.covers position = true := by
    intro group hmem hcovers
    obtain ⟨-, -, hspaces⟩ := extent_of_mem_groups hmem
    obtain ⟨hlo, hhi⟩ := (Group.covers_iff group position).mp hcovers
    exact hspaces position hlo hhi h
  rw [groupAt?, List.find?_eq_none.mpr hnone, Option.map_none]

end Text

/-! ### Texts joined by spaces -/

/-- The group of a text that stands behind `index` of the texts, when
they are joined by single spaces. -/
def Group.placed (texts : List Text) (index : Nat) (text : Text) : Group where
  text := text
  start := Text.spacedStart texts index
  stop := Text.spacedStart texts index + text.length
  index := index
  operand? := none

namespace Text

variable {texts : List Text}

/-- The groups of texts joined by single spaces are found by their
number. -/
theorem group?_spaced (h : ∀ text ∈ texts, text ≠ [] ∧ ' ' ∉ text) (index : Nat) :
    (spaced texts).group? index = texts[index]?.map (Group.placed texts index) := by
  rw [group?_eq, parts_spaced h, getElem?_placed, Option.map_map]
  cases texts[index]? with
  | none => rfl
  | some text => simp [Group.ofPart, Group.placed, Stretch.stop]

/-- A position in one of the texts has the group of this text under
it. -/
theorem groupAt?_spaced (h : ∀ text ∈ texts, text ≠ [] ∧ ' ' ∉ text) {index : Nat} {text : Text}
    (htext : texts[index]? = some text) {offset : Nat} (hoffset : offset < text.length) :
    (spaced texts).groupAt? (spacedStart texts index + offset)
      = some ((Group.placed texts index text).narrowAt (spacedStart texts index + offset)) := by
  have hgroup : (spaced texts).groups[index]? = some (Group.placed texts index text) := by
    have hfound := group?_spaced h index
    rwa [htext] at hfound
  refine groupAt?_of_covers (List.mem_of_getElem? hgroup) ?_
  rw [Group.covers_iff]
  exact ⟨Nat.le_add_right _ _, Nat.add_lt_add_left hoffset _⟩

/-- The characters from the start of a text on, as many as it has, are
the text. -/
theorem take_drop_spaced {index : Nat} {text : Text} (htext : texts[index]? = some text) :
    ((spaced texts).drop (spacedStart texts index)).take text.length = text := by
  induction texts generalizing index with
  | nil => cases htext
  | cons first texts ih =>
      cases index with
      | zero =>
          -- The first text stands alone, or with a space behind it.
          cases htext
          cases texts with
          | nil => simp [spaced, spacedStart, List.intercalate_singleton]
          | cons second texts => simp [spaced_cons_cons, spacedStart]
      | succ index =>
          rw [List.getElem?_cons_succ] at htext
          cases texts with
          | nil => cases htext
          | cons second texts =>
              have hskip : (first ++ ' ' :: spaced (second :: texts)).drop
                  (first.length + 1 + spacedStart (second :: texts) index)
                    = (spaced (second :: texts)).drop (spacedStart (second :: texts) index) := by
                rw [← List.drop_drop, ← List.drop_drop, List.drop_left]
                rfl
              rw [spaced_cons_cons, spacedStart, hskip]
              exact ih htext

end Text

/-! ### Operands of a group -/

namespace Group

/-- The group under a position is a group or one of its operands. -/
theorem narrowAt_eq_or_mem (group : Group) (position : Nat) :
    group.narrowAt position = group ∨ group.narrowAt position ∈ group.operands := by
  unfold narrowAt
  split
  · cases hfind : group.operands.find? (·.covers position) with
    | none => exact .inl rfl
    | some operand => exact .inr (List.mem_of_find?_eq_some hfind)
  · exact .inl rfl

/-- Narrowing keeps the number of a group. -/
@[simp]
theorem index_narrowAt (group : Group) (position : Nat) :
    (group.narrowAt position).index = group.index := by
  rcases group.narrowAt_eq_or_mem position with heq | hmem
  · rw [heq]
  · obtain ⟨⟨stretch, ordinal⟩, -, hoperand⟩ := List.mem_map.mp hmem
    rw [← hoperand]
    rfl

/-- The operands of a group lie in order, with a gap between neighbours. -/
theorem pairwise_operands (group : Group) :
    group.operands.Pairwise fun first second => first.stop < second.start :=
  List.pairwise_map.mpr (Text.pairwise_zipIdx_stretches _ group.start group.text)

/-- The operands of a group are the stretches between its separating
characters, each with its number. -/
theorem getElem?_operands (group : Group) (ordinal : Nat) :
    group.operands[ordinal]?
      = (Text.stretches (fun c => !separatesOperands c) group.start group.text)[ordinal]?.map
          fun run => group.narrow run ordinal := by
  rw [operands, List.getElem?_map, List.getElem?_zipIdx]
  cases (Text.stretches (fun c => !separatesOperands c) group.start group.text)[ordinal]? with
  | none => rfl
  | some run => simp

/-- Over an operand a line is narrowed to it. -/
theorem narrowAt_of_operand {group : Group} (hline : group.isLine = true) {ordinal : Nat}
    {run : Text.Stretch}
    (hrun : (Text.stretches (fun c => !separatesOperands c) group.start group.text)[ordinal]?
      = some run) {position : Nat} (hlo : run.start ≤ position) (hhi : position < run.stop) :
    group.narrowAt position = group.narrow run ordinal := by
  have hoperand : group.narrow run ordinal ∈ group.operands := by
    refine List.mem_of_getElem? (i := ordinal) ?_
    rw [getElem?_operands, hrun, Option.map_some]
  have hcovers : (group.narrow run ordinal).covers position = true := by
    rw [covers_iff]
    exact ⟨hlo, hhi⟩
  rw [narrowAt, if_pos hline, Text.find?_covers group.pairwise_operands hoperand hcovers,
    Option.getD_some]

/-- Over a separating character a group stays whole. -/
theorem narrowAt_of_separator {group : Group} {position : Nat} {c : Char}
    (hc : group.text[position - group.start]? = some c) (hseparates : separatesOperands c = true) :
    group.narrowAt position = group := by
  have hnone : ∀ operand ∈ group.operands, ¬ operand.covers position = true := by
    intro operand hmem hcovers
    obtain ⟨⟨run, ordinal⟩, hrun, rfl⟩ := List.mem_map.mp hmem
    obtain ⟨hlo, hhi⟩ := (covers_iff _ position).mp hcovers
    -- The character at this position would be one of the run.
    obtain ⟨d, hd, hinside⟩ := Text.RunAt.exists_inside
      ⟨Text.maximalRun_of_mem_stretches (List.fst_mem_of_mem_zipIdx hrun), hlo, hhi⟩
    obtain rfl : c = d := Option.some.inj (hc.symm.trans hd)
    rw [hseparates] at hinside
    cases hinside
  rw [narrowAt, List.find?_eq_none.mpr hnone, Option.getD_none, ite_self]

/-- The group that a group belongs to is found by its numbers. -/
theorem alignedIn?_congr {group group' : Group} (hindex : group.index = group'.index)
    (hoperand : group.operand? = group'.operand?) (text : Text) :
    group.alignedIn? text = group'.alignedIn? text := by
  rw [alignedIn?, alignedIn?, hindex, hoperand]

theorem isLine_eq_false_iff (group : Group) :
    group.isLine = false ↔ ∀ c ∈ group.text, separatesOperands c = false := by
  simp [isLine]

/-- A group that is no line is its own only operand. -/
theorem operands_of_not_isLine {group : Group} (hline : group.isLine = false)
    (hne : group.text ≠ []) : group.operands = [group.narrow ⟨group.start, group.text⟩ 0] := by
  have hinside : ∀ c ∈ group.text, (!separatesOperands c) = true := by
    intro c hc
    rw [group.isLine_eq_false_iff.mp hline c hc]
    rfl
  rw [operands, Text.stretches_run group.start hinside, Text.ofRun, if_neg hne]
  rfl

/-- One separating character in front of a single value leaves the value
as the only operand. -/
theorem operands_of_lead {group : Group} {c : Char} {rest : Text} (htext : group.text = c :: rest)
    (hc : separatesOperands c = true) (hrest : ∀ d ∈ rest, separatesOperands d = false)
    (hne : rest ≠ []) : group.operands = [group.narrow ⟨group.start + 1, rest⟩ 0] := by
  have hinside : ∀ d ∈ rest, (!separatesOperands d) = true := by
    intro d hd
    rw [hrest d hd]
    rfl
  have hcut : Text.stretches (fun c => !separatesOperands c) group.start ([] ++ c :: rest)
      = Text.ofRun group.start [] ++ Text.stretches (fun c => !separatesOperands c)
          (group.start + 1) rest :=
    Text.stretches_cut group.start rest (List.forall_mem_nil _) (by rw [hc]; rfl)
  rw [List.nil_append] at hcut
  rw [operands, htext, hcut, Text.stretches_run _ hinside]
  simp [Text.ofRun, hne]

end Group

end BaseConverter
