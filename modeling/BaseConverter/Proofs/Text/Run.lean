import BaseConverter.Proofs.Text.Stretch
import Mathlib.Data.Set.Card

/-!
# `BaseConverter.Proofs.Text.Run`: the run around a position

A pointer is over a position and asks for the run there. `RunAt` says which
run this is, and `runsBefore` how many runs there are in front of it. Neither
follows the text as `stretches` does: the first speaks of a run and its
neighbours only, the second counts a set.

* `exists_runAt`: there is a run around every character of the class. It is a
  stretch, so it has a place in the list of stretches.
* `RunAt.unique`: there is only one.
* `runsBefore_start`: its place in the list is the number of runs in front of
  it.
-/

set_option autoImplicit false

namespace BaseConverter.Text

/-- A maximal run of a class that covers a position. -/
structure RunAt (inside : Char → Bool) (start : Nat) (text : Text) (position : Nat)
    (run : Stretch) : Prop extends MaximalRun inside start text run where
  start_le : run.start ≤ position
  lt_stop : position < run.stop

/-- The number of maximal runs of a class that end in front of a position. -/
noncomputable def runsBefore (inside : Char → Bool) (start : Nat) (text : Text)
    (position : Nat) : ℕ∞ :=
  {run | MaximalRun inside start text run ∧ run.stop ≤ position}.encard

/-- What stands between two other pieces of a text is cut out by its bounds. -/
theorem extract_of_eq_append {text before piece after : Text} {start stop : Nat}
    (htext : text = before ++ piece ++ after) (hstart : start = before.length)
    (hstop : stop = start + piece.length) : text.extract start stop = piece := by
  rw [List.extract_eq_take_drop, htext, hstop, hstart, Nat.add_sub_cancel_left, List.append_assoc,
    List.drop_left, List.take_left]

section

variable {inside : Char → Bool} {start : Nat} {text : Text}

/-- A stretch ends before the stretches behind it begin. -/
theorem stop_lt_start_of_lt {index index' : Nat} {run run' : Stretch}
    (hrun : (stretches inside start text)[index]? = some run)
    (hrun' : (stretches inside start text)[index']? = some run') (hlt : index < index') :
    run.stop < run'.start := by
  obtain ⟨hindex, rfl⟩ := List.getElem?_eq_some_iff.mp hrun
  obtain ⟨hindex', rfl⟩ := List.getElem?_eq_some_iff.mp hrun'
  exact List.pairwise_iff_getElem.mp (pairwise_stretches inside start text) index index' hindex
    hindex' hlt

/-- The characters of a run are those of the text at its positions. -/
theorem RunAt.getElem?_eq {position : Nat} {run : Stretch} (h : RunAt inside start text position run) :
    text[position - start]? = run.text[position - run.start]? := by
  obtain ⟨⟨-, -, before, after, rfl, hstart, -⟩, hlo, hhi⟩ := h
  rw [Stretch.stop] at hhi
  have hoffset : position - start - before.length = position - run.start := by omega
  rw [List.append_assoc, List.getElem?_append_right (by omega),
    List.getElem?_append_left (by omega), hoffset]

/-- At every position of a run the text has a character of the class. -/
theorem RunAt.exists_inside {position : Nat} {run : Stretch}
    (h : RunAt inside start text position run) :
    ∃ c, text[position - start]? = some c ∧ inside c = true := by
  have hlo := h.start_le
  have hhi := h.lt_stop
  rw [Stretch.stop] at hhi
  have hoffset : position - run.start < run.text.length := by omega
  refine ⟨run.text[position - run.start], ?_, h.allInside _ (List.getElem_mem hoffset)⟩
  rw [h.getElem?_eq, List.getElem?_eq_getElem hoffset]

/-- Around every character of the class there is a run. -/
theorem exists_runAt (inside : Char → Bool) {position : Nat} {c : Char} (hstart : start ≤ position)
    (hc : text[position - start]? = some c) (hinside : inside c = true) :
    ∃ (index : Nat) (run : Stretch), (stretches inside start text)[index]? = some run
      ∧ RunAt inside start text position run := by
  obtain ⟨hoffset, rfl⟩ := List.getElem?_eq_some_iff.mp hc
  have htext : text = text.take (position - start) ++ [text[position - start]]
      ++ text.drop (position - start + 1) := by
    rw [List.append_assoc, List.singleton_append, List.getElem_cons_drop, List.take_append_drop]
  obtain ⟨run, hmem, front, back, hrun, -, -, hfront⟩ :=
    exists_stretch_around start (text.take (position - start))
      (text.drop (position - start + 1)) (List.cons_ne_nil _ [])
      (List.forall_mem_singleton.mpr hinside)
  rw [← htext] at hmem
  obtain ⟨index, hindex⟩ := List.mem_iff_getElem?.mp hmem
  have hlength := congrArg List.length hrun
  rw [List.length_append, List.length_append, List.length_singleton] at hlength
  rw [List.length_take_of_le (Nat.le_of_lt hoffset)] at hfront
  refine ⟨index, run, hindex, maximalRun_of_mem_stretches hmem, ?_, ?_⟩
  · omega
  · rw [Stretch.stop]
    omega

/-- There is only one run around a position. -/
theorem RunAt.unique {position : Nat} {run run' : Stretch} (h : RunAt inside start text position run)
    (h' : RunAt inside start text position run') : run = run' := by
  obtain ⟨index, hindex⟩ := List.mem_iff_getElem?.mp ((mem_stretches_iff _ _ _ _).mpr h.toMaximalRun)
  obtain ⟨index', hindex'⟩ :=
    List.mem_iff_getElem?.mp ((mem_stretches_iff _ _ _ _).mpr h'.toMaximalRun)
  have hlo := h.start_le
  have hlo' := h'.start_le
  have hhi := h.lt_stop
  have hhi' := h'.lt_stop
  rcases Nat.lt_trichotomy index index' with hlt | rfl | hgt
  · have hgap := stop_lt_start_of_lt hindex hindex' hlt
    omega
  · exact Option.some.inj (hindex.symm.trans hindex')
  · have hgap := stop_lt_start_of_lt hindex' hindex hgt
    omega

/-- The runs in front of a stretch are the stretches in front of it. -/
theorem mem_take_stretches_iff {index : Nat} {run : Stretch}
    (h : (stretches inside start text)[index]? = some run) (other : Stretch) :
    other ∈ (stretches inside start text).take index
      ↔ MaximalRun inside start text other ∧ other.stop ≤ run.start := by
  have hrun := (bounds_of_mem_stretches (List.mem_of_getElem? h)).1
  rw [← mem_stretches_iff]
  constructor
  · intro hmem
    obtain ⟨place, hplace⟩ := List.mem_iff_getElem?.mp hmem
    rw [List.getElem?_take, Option.ite_none_right_eq_some] at hplace
    obtain ⟨hlt, hother⟩ := hplace
    exact ⟨List.mem_of_getElem? hother, Nat.le_of_lt (stop_lt_start_of_lt hother h hlt)⟩
  · rintro ⟨hmem, hstop⟩
    have hlength := (bounds_of_mem_stretches hmem).1
    obtain ⟨place, hother⟩ := List.mem_iff_getElem?.mp hmem
    refine List.mem_of_getElem? (i := place) ?_
    rw [List.getElem?_take, Option.ite_none_right_eq_some]
    refine ⟨?_, hother⟩
    -- A run is not empty, so neither this stretch nor one behind it ends at its start.
    rcases Nat.lt_trichotomy place index with hlt | rfl | hgt
    · exact hlt
    · obtain rfl := Option.some.inj (hother.symm.trans h)
      omega
    · have hgap := stop_lt_start_of_lt h hother hgt
      omega

/-- The place of a run in the list of stretches is the number of runs in front
of it. -/
theorem runsBefore_start {index : Nat} {run : Stretch}
    (h : (stretches inside start text)[index]? = some run) :
    runsBefore inside start text run.start = index := by
  have hset : {other | MaximalRun inside start text other ∧ other.stop ≤ run.start}
      = ((stretches inside start text).take index).toFinset := by
    ext other
    rw [Set.mem_ofPred_eq, Finset.mem_coe, List.mem_toFinset, mem_take_stretches_iff h]
  have hnodup : (stretches inside start text).Nodup := by
    refine (pairwise_stretches inside start text).imp ?_
    rintro first second hgap rfl
    rw [Stretch.stop] at hgap
    omega
  have hindex := (List.getElem?_eq_some_iff.mp h).1
  rw [runsBefore, hset, Set.encard_coe_eq_coe_finsetCard,
    List.toFinset_card_of_nodup (hnodup.sublist (List.take_sublist index _)),
    List.length_take_of_le (Nat.le_of_lt hindex)]

end

end BaseConverter.Text
