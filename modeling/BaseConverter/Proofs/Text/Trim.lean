import BaseConverter.Text.WhiteSpace
import Mathlib.Data.List.TakeWhile

/-!
# `BaseConverter.Proofs.Text.Trim`: what trimming leaves

`Text.trim` is computed from both ends of a text. The theorem that the
rest of the development uses says what comes out instead:

* `trim_eq_iff`: the trimmed text is the one text that neither begins
  nor ends with white space and gives the whole text when white space is
  put around it.
* `trim_eq_self_of_forall`: a text without white space is already
  trimmed.
-/

set_option autoImplicit false

namespace BaseConverter.Text

/-- `text` is `core` with white space in front of it and behind it. -/
def Padded (core text : Text) : Prop :=
  ∃ before after, allWhite before = true ∧ allWhite after = true
    ∧ text = before ++ core ++ after

/-- Neither the first nor the last character of a text is white
space. -/
structure Trimmed (text : Text) : Prop where
  head : ∀ c ∈ text.head?, isWhite c = false
  last : ∀ c ∈ text.getLast?, isWhite c = false

theorem allWhite_append (first second : Text) :
    allWhite (first ++ second) = (allWhite first && allWhite second) :=
  List.all_append

/-- A text without white space neither begins nor ends with it. -/
theorem Trimmed.of_forall {text : Text} (h : ∀ c ∈ text, isWhite c = false) : Trimmed text where
  head c hc := h c (List.mem_of_mem_head? hc)
  last c hc := h c (List.mem_of_mem_getLast? hc)

/-! ### The end of a text -/

/-- With nothing left behind it, a character is kept unless it is white
space. -/
theorem trimEnd_cons_of_eq_nil (c : Char) {rest : Text} (h : trimEnd rest = []) :
    trimEnd (c :: rest) = if isWhite c then [] else [c] := by
  rw [trimEnd, h]

/-- With something left behind it, every character is kept. -/
theorem trimEnd_cons_of_ne_nil (c : Char) {rest : Text} (h : trimEnd rest ≠ []) :
    trimEnd (c :: rest) = c :: trimEnd rest := by
  rw [trimEnd]
  split
  · contradiction
  · rfl

/-- White space at the end is dropped, whatever stands in front of it. -/
theorem trimEnd_append_of_allWhite (text : Text) {after : Text} (h : allWhite after = true) :
    trimEnd (text ++ after) = trimEnd text := by
  induction text with
  | nil =>
      rw [List.nil_append, (trimEnd_eq_nil_iff after).mpr h]
      rfl
  | cons c rest ih => rw [List.cons_append, trimEnd, ih, trimEnd]

/-- A character that is no white space is kept, with all that stands in front
of it. -/
theorem trimEnd_append_cons (before : Text) {c : Char} (after : Text) (h : isWhite c = false) :
    trimEnd (before ++ c :: after) = before ++ c :: trimEnd after := by
  have hc : trimEnd (c :: after) = c :: trimEnd after := by
    by_cases hafter : trimEnd after = []
    · rw [trimEnd_cons_of_eq_nil c hafter, h, hafter]
      rfl
    · exact trimEnd_cons_of_ne_nil c hafter
  induction before with
  | nil => exact hc
  | cons d rest ih =>
      have hne : trimEnd (rest ++ c :: after) ≠ [] := by
        rw [ih]
        simp
      rw [List.cons_append, trimEnd_cons_of_ne_nil d hne, ih, List.cons_append]

/-- Nothing is dropped from a text that does not end with white space. -/
theorem trimEnd_eq_self {text : Text} (h : ∀ c ∈ text.getLast?, isWhite c = false) :
    trimEnd text = text := by
  induction text with
  | nil => rfl
  | cons c rest ih =>
      cases rest with
      | nil =>
          have hc : isWhite c = false := h c (by simp)
          simp [trimEnd, hc]
      | cons d rest =>
          have hrest : trimEnd (d :: rest) = d :: rest := ih (by simpa using h)
          rw [trimEnd, hrest]

/-- A text is what `trimEnd` leaves of it, and white space. -/
theorem exists_eq_trimEnd_append (text : Text) :
    ∃ after, allWhite after = true ∧ text = trimEnd text ++ after := by
  induction text with
  | nil => exact ⟨[], rfl, rfl⟩
  | cons c rest ih =>
      obtain ⟨after, hafter, hrest⟩ := ih
      -- Whether `c` is dropped is only asked when nothing behind it is kept.
      by_cases hkept : trimEnd rest = []
      · rw [hkept, List.nil_append] at hrest
        rw [trimEnd_cons_of_eq_nil c hkept]
        by_cases hc : isWhite c = true
        · refine ⟨c :: after, ?_, ?_⟩
          · simpa [allWhite, hc] using hafter
          · rw [if_pos hc, List.nil_append, hrest]
        · refine ⟨after, hafter, ?_⟩
          rw [if_neg hc, List.singleton_append, hrest]
      · refine ⟨after, hafter, ?_⟩
        rw [trimEnd_cons_of_ne_nil c hkept, List.cons_append, ← hrest]

/-- What `trimEnd` leaves does not end with white space. -/
theorem not_white_of_mem_getLast?_trimEnd (text : Text) :
    ∀ c ∈ (trimEnd text).getLast?, isWhite c = false := by
  induction text with
  | nil => simp [trimEnd]
  | cons c rest ih =>
      by_cases hkept : trimEnd rest = []
      · rw [trimEnd_cons_of_eq_nil c hkept]
        by_cases hc : isWhite c = true <;> simp [hc]
      · rw [trimEnd_cons_of_ne_nil c hkept, List.getLast?_cons_of_ne_nil hkept]
        exact ih

/-! ### Both ends -/

/-- A text is its trimmed text with white space around it. -/
theorem padded_trim (text : Text) : Padded (trim text) text := by
  obtain ⟨after, hafter, hstart⟩ := exists_eq_trimEnd_append (trimStart text)
  -- What is dropped in front is the part that `dropWhile` passes over.
  refine ⟨text.takeWhile isWhite, after, List.all_takeWhile, hafter, ?_⟩
  rw [List.append_assoc, trim, ← hstart, trimStart, List.takeWhile_append_dropWhile]

/-- The trimmed text neither begins nor ends with white space. -/
theorem trimmed_trim (text : Text) : Trimmed (trim text) where
  head := by
    intro c hc
    -- The head is the one that `trimStart` stopped at.
    obtain ⟨after, hafter, hstart⟩ := exists_eq_trimEnd_append (trimStart text)
    have hhead : c ∈ (trimStart text).head? := by
      rw [hstart, List.head?_append, show (trimEnd (trimStart text)).head? = some c from hc]
      rfl
    have hstop := List.head?_dropWhile_not isWhite text
    rw [show text.dropWhile isWhite = trimStart text from rfl, Option.mem_def.mp hhead] at hstop
    simpa using hstop
  last := not_white_of_mem_getLast?_trimEnd (trimStart text)

/-- White space around a text is what trimming drops. -/
theorem trim_of_padded {core text : Text} (hcore : Trimmed core) (h : Padded core text) :
    trim text = core := by
  obtain ⟨before, after, hbefore, hafter, rfl⟩ := h
  have hdrop : trimStart (before ++ core ++ after) = trimStart (core ++ after) := by
    rw [List.append_assoc, trimStart, List.dropWhile_append_of_pos]
    · rfl
    · exact List.all_eq_true.mp hbefore
  rw [trim, hdrop]
  -- An empty core leaves only the white space behind it, which goes as well.
  cases core with
  | nil =>
      have hnil : trimStart ([] ++ after) = [] :=
        List.dropWhile_eq_nil_iff.mpr (List.all_eq_true.mp hafter)
      rw [hnil]
      rfl
  | cons c rest =>
      have hc : isWhite c = false := hcore.head c (by simp)
      have hstart : trimStart (c :: rest ++ after) = c :: rest ++ after := by
        simp [trimStart, hc]
      rw [hstart, trimEnd_append_of_allWhite _ hafter, trimEnd_eq_self hcore.last]

/-- White space put around a text is dropped with that of the text. -/
theorem trim_eq_of_padded {core text : Text} (h : Padded core text) : trim text = trim core := by
  obtain ⟨before, after, hbefore, hafter, rfl⟩ := h
  obtain ⟨front, back, hfront, hback, hcore⟩ := padded_trim core
  refine trim_of_padded (trimmed_trim core) ⟨before ++ front, back ++ after, ?_, ?_, ?_⟩
  · rw [allWhite_append, hbefore, hfront]
    rfl
  · rw [allWhite_append, hback, hafter]
    rfl
  · -- The text inside is the one that trimming leaves of it, with white space around.
    calc before ++ core ++ after = before ++ (front ++ trim core ++ back) ++ after := by
          rw [← hcore]
      _ = before ++ front ++ trim core ++ (back ++ after) := by simp only [List.append_assoc]

/-- Dropping the white space at the end alone makes no difference. -/
theorem trim_trimEnd (text : Text) : trim (trimEnd text) = trim text := by
  obtain ⟨after, hafter, htext⟩ := exists_eq_trimEnd_append text
  exact (trim_eq_of_padded ⟨[], after, rfl, hafter, htext⟩).symm

/-- Nor does dropping the white space in front. -/
theorem trim_trimStart (text : Text) : trim (trimStart text) = trim text := by
  have htext : text = text.takeWhile isWhite ++ trimStart text := List.takeWhile_append_dropWhile.symm
  refine (trim_eq_of_padded ⟨text.takeWhile isWhite, [], List.all_takeWhile, rfl, ?_⟩).symm
  rw [List.append_nil, ← htext]

/-- The trimmed text of a text is the one that neither begins nor ends
with white space and gives the text when white space is put around
it. -/
theorem trim_eq_iff (text core : Text) : trim text = core ↔ Trimmed core ∧ Padded core text := by
  constructor
  · rintro rfl
    exact ⟨trimmed_trim text, padded_trim text⟩
  · rintro ⟨hcore, hpadded⟩
    exact trim_of_padded hcore hpadded

/-- A text that does not begin or end with white space stays as it
is. -/
theorem trim_eq_self {text : Text} (h : Trimmed text) : trim text = text :=
  (trim_eq_iff text text).mpr ⟨h, [], [], rfl, rfl, by simp⟩

/-- A text without white space stays as it is. -/
theorem trim_eq_self_of_forall {text : Text} (h : ∀ c ∈ text, isWhite c = false) :
    trim text = text :=
  trim_eq_self (Trimmed.of_forall h)

/-- Trimming a second time changes nothing. -/
@[simp]
theorem trim_trim (text : Text) : trim (trim text) = trim text :=
  trim_eq_self (trimmed_trim text)

/-- Only a text of white space trims to nothing. -/
theorem trim_eq_nil_iff (text : Text) : trim text = [] ↔ allWhite text = true := by
  rw [trim_eq_iff]
  constructor
  · rintro ⟨-, before, after, hbefore, hafter, rfl⟩
    simp [allWhite_append, hbefore, hafter]
  · intro h
    exact ⟨Trimmed.of_forall (by simp), text, [], h, rfl, by simp⟩

end BaseConverter.Text
