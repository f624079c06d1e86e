import BaseConverter.Proofs.Group.Extent

/-!
# `BaseConverter.Proofs.Group.Token`: the token under a position

The group under a position is found by two scans: first the parts between the
spaces, then the operands of one part. `Text.TokenAt` says without either of
them which token it is. Its part is the run of characters other than spaces
around the position. The token is this run, or the run of characters that
separate no operands around the position inside of it. Both of its numbers are
numbers of runs in front.

* `Text.TokenIn.unique`: only one group is the token of a part at a position.
* `Text.groupAt?_eq_some_iff`: the group under a position is its token.
* `Text.groupAt?_finds_token` adds that there is one exactly at a character
  other than a space.
-/

set_option autoImplicit false

namespace BaseConverter

namespace Text

/-- A part of a text is taken whole at a position: no character of the part
separates operands, or the one at the position does. -/
def WholeAt (text : Text) (part : Stretch) (position : Nat) : Prop :=
  (∀ c ∈ part.text, separatesOperands c = false)
    ∨ ∃ c, text[position]? = some c ∧ separatesOperands c = true

/-- The token at a position of a part. -/
structure TokenIn (text : Text) (part : Stretch) (position : Nat) (group : Group) : Prop
    extends group.CutFrom text where
  start_le : group.start ≤ position
  lt_stop : position < group.stop
  /-- The index is the number of parts in front of this one. -/
  index_eq : (group.index : ℕ∞) = runsBefore (· ≠ ' ') 0 text part.start
  /-- A part that is taken whole is the token. -/
  whole : text.WholeAt part position →
    group.start = part.start ∧ group.stop = part.stop ∧ group.operand? = none
  /-- Of any other part the token is the operand around the position, and its
  ordinal is the number of operands in front of it in the part. -/
  operand : ¬ text.WholeAt part position →
    RunAt (fun c => !separatesOperands c) part.start part.text position ⟨group.start, group.text⟩
    ∧ ∃ ordinal : Nat, group.operand? = some ordinal
      ∧ (ordinal : ℕ∞)
        = runsBefore (fun c => !separatesOperands c) part.start part.text group.start

/-- The token of a text at a position. -/
def TokenAt (text : Text) (position : Nat) (group : Group) : Prop :=
  ∃ part, RunAt (· ≠ ' ') 0 text position part ∧ text.TokenIn part position group

variable {text : Text} {position : Nat}

/-! ### There is only one token -/

theorem TokenIn.unique {part : Stretch} {group group' : Group}
    (h : text.TokenIn part position group) (h' : text.TokenIn part position group') :
    group = group' := by
  have hindex : group.index = group'.index := by
    have hcount := h.index_eq.trans h'.index_eq.symm
    exact Nat.cast_inj.mp hcount
  have hbounds : group.start = group'.start ∧ group.stop = group'.stop
      ∧ group.operand? = group'.operand? := by
    by_cases hwhole : text.WholeAt part position
    · obtain ⟨hstart, hstop, hoperand⟩ := h.whole hwhole
      obtain ⟨hstart', hstop', hoperand'⟩ := h'.whole hwhole
      exact ⟨hstart.trans hstart'.symm, hstop.trans hstop'.symm, hoperand.trans hoperand'.symm⟩
    · obtain ⟨hrun, ordinal, hoperand, hcount⟩ := h.operand hwhole
      obtain ⟨hrun', ordinal', hoperand', hcount'⟩ := h'.operand hwhole
      obtain ⟨hstart, htext⟩ := Stretch.mk.inj (hrun.unique hrun')
      rw [hstart, ← hcount', Nat.cast_inj] at hcount
      refine ⟨hstart, ?_, ?_⟩
      · rw [h.toCutFrom.stop_eq, h'.toCutFrom.stop_eq, hstart, htext]
      · rw [hoperand, hoperand', hcount]
  obtain ⟨hstart, hstop, hoperand⟩ := hbounds
  have htext : group.text = group'.text := by
    rw [← h.extract_eq, ← h'.extract_eq, hstart, hstop]
  cases group
  cases group'
  rw [Group.mk.injEq]
  exact ⟨htext, hstart, hstop, hindex, hoperand⟩

/-! ### The group under a position is a token -/

theorem getElem?_part {part : Stretch} (h : RunAt (· ≠ ' ') 0 text position part) :
    part.text[position - part.start]? = text[position]? :=
  h.getElem?_eq.symm

theorem narrowAt_of_wholeAt {index : Nat} {part : Stretch}
    (h : RunAt (· ≠ ' ') 0 text position part) (hwhole : text.WholeAt part position) :
    (Group.ofPart part index).narrowAt position = Group.ofPart part index := by
  rcases hwhole with hplain | ⟨c, hc, hseparates⟩
  · have hline : (Group.ofPart part index).isLine = false :=
      (Group.isLine_eq_false_iff _).mpr hplain
    rw [Group.narrowAt, hline, if_neg Bool.false_ne_true]
  · refine Group.narrowAt_of_separator (c := c) ?_ hseparates
    show part.text[position - part.start]? = some c
    rw [getElem?_part h, hc]

/-- A part that is not taken whole has an operand around the position. -/
theorem exists_operand_of_not_wholeAt {part : Stretch} (h : RunAt (· ≠ ' ') 0 text position part)
    (hwhole : ¬ text.WholeAt part position) (index : Nat) :
    ∃ (ordinal : Nat) (run : Stretch),
      (stretches (fun c => !separatesOperands c) part.start part.text)[ordinal]? = some run
      ∧ RunAt (fun c => !separatesOperands c) part.start part.text position run
      ∧ (Group.ofPart part index).narrowAt position
        = (Group.ofPart part index).narrow run ordinal := by
  obtain ⟨hline, hplain⟩ := not_or.mp hwhole
  obtain ⟨c, hc, -⟩ := h.exists_inside
  have hinside : (!separatesOperands c) = true := by
    cases hseparates : separatesOperands c with
    | false => rfl
    | true => exact absurd ⟨c, hc, hseparates⟩ hplain
  have hchar : part.text[position - part.start]? = some c := (getElem?_part h).trans hc
  obtain ⟨ordinal, run, hordinal, hrun⟩ :=
    exists_runAt (fun c => !separatesOperands c) h.start_le hchar hinside
  have hisLine : (Group.ofPart part index).isLine = true := by
    rw [← Bool.not_eq_false, Group.isLine_eq_false_iff]
    exact hline
  exact ⟨ordinal, run, hordinal, hrun,
    Group.narrowAt_of_operand hisLine hordinal hrun.start_le hrun.lt_stop⟩

/-- A part, narrowed at a position, is the token there. -/
theorem tokenIn_narrowAt {index : Nat} {part : Stretch} (hpart : text.parts[index]? = some part)
    (h : RunAt (· ≠ ' ') 0 text position part) :
    text.TokenIn part position ((Group.ofPart part index).narrowAt position) := by
  have hmem : Group.ofPart part index ∈ text.groups :=
    List.mem_of_getElem? (group?_of_getElem?_parts hpart)
  have hindex : (index : ℕ∞) = runsBefore (· ≠ ' ') 0 text part.start :=
    (runsBefore_start hpart).symm
  by_cases hwhole : text.WholeAt part position
  · rw [narrowAt_of_wholeAt h hwhole]
    exact {
      toCutFrom := Group.cutFrom_of_mem_groups hmem
      start_le := h.start_le
      lt_stop := h.lt_stop
      index_eq := hindex
      whole := fun _ => ⟨rfl, rfl, rfl⟩
      operand := fun hnot => absurd hwhole hnot }
  · obtain ⟨ordinal, run, hordinal, hrun, heq⟩ := exists_operand_of_not_wholeAt h hwhole index
    have hoperand : (Group.ofPart part index).narrow run ordinal
        ∈ (Group.ofPart part index).operands := by
      refine List.mem_of_getElem? (i := ordinal) ?_
      rw [Group.getElem?_operands]
      exact congrArg (Option.map _) hordinal
    rw [heq]
    exact {
      toCutFrom := Group.cutFrom_of_mem_operands hmem hoperand
      start_le := hrun.start_le
      lt_stop := hrun.lt_stop
      index_eq := hindex
      whole := fun hnot => absurd hnot hwhole
      operand := fun _ => ⟨hrun, ordinal, rfl, (runsBefore_start hordinal).symm⟩ }

/-- At every character other than a space there is a group, and it is the
token. -/
theorem exists_groupAt? {c : Char} (hc : text[position]? = some c) (hspace : c ≠ ' ') :
    ∃ group, text.groupAt? position = some group ∧ text.TokenAt position group := by
  obtain ⟨index, part, hpart, hrun⟩ := exists_part_at hc hspace
  exact ⟨_, groupAt?_part hpart hrun.start_le hrun.lt_stop, part, hrun,
    tokenIn_narrowAt hpart hrun⟩

/-- A token is at a character other than a space. -/
theorem TokenAt.exists_getElem? {group : Group} (h : text.TokenAt position group) :
    ∃ c, text[position]? = some c ∧ c ≠ ' ' := by
  obtain ⟨part, hrun, -⟩ := h
  obtain ⟨c, hc, hinside⟩ := hrun.exists_inside
  exact ⟨c, hc, of_decide_eq_true hinside⟩

/-- A token is around its position. -/
theorem TokenAt.around {group : Group} (h : text.TokenAt position group) :
    group.start ≤ position ∧ position < group.stop := by
  obtain ⟨part, -, hin⟩ := h
  exact ⟨hin.start_le, hin.lt_stop⟩

/-- The group under a position is the token there. -/
theorem groupAt?_eq_some_iff (text : Text) (position : Nat) (group : Group) :
    text.groupAt? position = some group ↔ text.TokenAt position group := by
  constructor
  · intro hgroup
    obtain ⟨index, part, hpart, hrun, rfl⟩ := exists_part_of_groupAt? hgroup
    exact ⟨part, hrun, tokenIn_narrowAt hpart hrun⟩
  · intro htoken
    obtain ⟨c, hc, hspace⟩ := htoken.exists_getElem?
    obtain ⟨part, hrun, hin⟩ := htoken
    obtain ⟨group', hgroup', part', hrun', hin'⟩ := exists_groupAt? hc hspace
    -- Both are the token of the only part around the position.
    obtain rfl := hrun.unique hrun'
    rw [hgroup', hin.unique hin']

/-- There is a group exactly under the characters other than spaces. -/
theorem isSome_groupAt?_iff (text : Text) (position : Nat) :
    (text.groupAt? position).isSome = true ↔ ∃ c, text[position]? = some c ∧ c ≠ ' ' := by
  constructor
  · intro hsome
    obtain ⟨group, hgroup⟩ := Option.isSome_iff_exists.mp hsome
    exact ((groupAt?_eq_some_iff text position group).mp hgroup).exists_getElem?
  · rintro ⟨c, hc, hspace⟩
    obtain ⟨group, hgroup, -⟩ := exists_groupAt? hc hspace
    rw [hgroup]
    rfl

/-- The group under a position is a line taken whole exactly over a character
that separates operands. -/
theorem isWholeLine_groupAt?_iff {group : Group} (h : text.groupAt? position = some group) :
    group.isWholeLine = true ↔ ∃ c, text[position]? = some c ∧ separatesOperands c = true := by
  obtain ⟨index, part, -, hrun, rfl⟩ := exists_part_of_groupAt? h
  obtain ⟨c, hc, -⟩ := hrun.exists_inside
  have hmem : c ∈ part.text := List.mem_of_getElem? ((getElem?_part hrun).trans hc)
  by_cases hwhole : text.WholeAt part position
  · rw [narrowAt_of_wholeAt hrun hwhole]
    show part.text.any separatesOperands = true ↔ _
    -- A part without such characters is taken whole as well, but it is no line.
    rw [List.any_eq_true]
    constructor
    · intro hline
      refine hwhole.resolve_left fun hplain => ?_
      obtain ⟨d, hd, hseparates⟩ := hline
      rw [hplain d hd] at hseparates
      cases hseparates
    · rintro ⟨d, hd, hseparates⟩
      obtain rfl : c = d := Option.some.inj (hc.symm.trans hd)
      exact ⟨c, hmem, hseparates⟩
  · obtain ⟨ordinal, run, -, -, heq⟩ := exists_operand_of_not_wholeAt hrun hwhole index
    rw [heq]
    exact iff_of_false Bool.false_ne_true (not_or.mp hwhole).2

/-- There is a group under a position exactly if the text reaches behind the
position and the character there is no space. This group is the token at the
position, and nothing else is: it has the characters between its bounds and
covers the position, its index is the number of parts in front, and it is the
part itself, or the operand around the position with the number of operands in
front. -/
theorem groupAt?_finds_token (text : Text) (position : Nat) :
    ((text.groupAt? position).isSome = true
      ↔ ∃ h : position < text.length, text[position] ≠ ' ')
    ∧ ∀ group, text.groupAt? position = some group ↔ text.TokenAt position group := by
  refine ⟨?_, groupAt?_eq_some_iff text position⟩
  rw [isSome_groupAt?_iff]
  constructor
  · rintro ⟨c, hc, hspace⟩
    obtain ⟨hlt, rfl⟩ := List.getElem?_eq_some_iff.mp hc
    exact ⟨hlt, hspace⟩
  · rintro ⟨hlt, hspace⟩
    exact ⟨_, List.getElem?_eq_getElem hlt, hspace⟩

end Text

end BaseConverter
