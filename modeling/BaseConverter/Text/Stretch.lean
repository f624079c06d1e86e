import BaseConverter.Text.Basic

/-!
# `BaseConverter.Text.Stretch`: maximal stretches of like characters

A class of characters cuts a text into stretches: the longest runs of
neighbouring characters that are all in the class. The values of a
field are the stretches free of spaces, the words of a line those free
of white space, and the operands of a calculated line those free of
operators.

* `Text.stretches` lists them with the positions where they begin.
* `Text.stretches_of_forall`: a nonempty text inside the class is one
  stretch.
* `Text.stretches_append_cons`: a character outside the class cuts a text
  in two. With the statement above, this determines the stretches of
  every text.
-/

set_option autoImplicit false

namespace BaseConverter.Text

/-- A piece of a text together with the position of its first
character. -/
structure Stretch where
  /-- The position of the first character. -/
  start : Nat
  /-- The characters of the piece. -/
  text : Text
deriving DecidableEq

/-- The position just behind the last character of a stretch. -/
def Stretch.stop (stretch : Stretch) : Nat :=
  stretch.start + stretch.text.length

/-- Puts a character of the class, found at position `start`, in front
of the stretches that follow it. It joins the first of them when that
one begins at the very next position, and is a stretch of its own
otherwise. -/
def Stretch.push (start : Nat) (c : Char) : List Stretch → List Stretch
  | [] => [⟨start, [c]⟩]
  | next :: others =>
    if next.start = start + 1 then
      ⟨start, c :: next.text⟩ :: others
    else
      ⟨start, [c]⟩ :: next :: others

/-- The maximal stretches of characters in the class `inside`, in order,
for a text whose first character has the position `start`. -/
def stretches (inside : Char → Bool) (start : Nat) : Text → List Stretch
  | [] => []
  | c :: rest =>
    if inside c then
      Stretch.push start c (stretches inside (start + 1) rest)
    else
      stretches inside (start + 1) rest

/-- The parts of a text between its spaces, with their positions. No
other white space separates them. -/
def parts (text : Text) : List Stretch :=
  stretches (· ≠ ' ') 0 text

/-- A nonempty text inside the class is a single stretch. -/
theorem stretches_of_forall (inside : Char → Bool) (start : Nat) (c : Char) (rest : Text)
    (h : ∀ d ∈ c :: rest, inside d = true) :
    stretches inside start (c :: rest) = [⟨start, c :: rest⟩] := by
  induction rest generalizing start c with
  | nil => simp [stretches, Stretch.push, h c]
  | cons d rest ih =>
      rw [stretches, ih (start + 1) d fun e he => h e (List.mem_cons_of_mem c he)]
      simp [Stretch.push, h c]

/-- Putting a character in front starts no stretch before it. -/
theorem Stretch.start_le_of_mem_push {start : Nat} {c : Char} {others : List Stretch}
    (h : ∀ stretch ∈ others, start + 1 ≤ stretch.start) :
    ∀ stretch ∈ Stretch.push start c others, start ≤ stretch.start := by
  intro stretch hmem
  cases others with
  | nil => simp_all [Stretch.push]
  | cons next others =>
      simp only [Stretch.push] at hmem
      split at hmem
      · rcases List.mem_cons.mp hmem with rfl | hmem
        · exact Nat.le_refl start
        · exact Nat.le_of_succ_le (h stretch (List.mem_cons_of_mem next hmem))
      · rcases List.mem_cons.mp hmem with rfl | hmem
        · exact Nat.le_refl start
        · exact Nat.le_of_succ_le (h stretch hmem)

/-- No stretch begins in front of the text. -/
theorem start_le_of_mem_stretches (inside : Char → Bool) (start : Nat) (text : Text) :
    ∀ stretch ∈ stretches inside start text, start ≤ stretch.start := by
  induction text generalizing start with
  | nil => simp [stretches]
  | cons c rest ih =>
      unfold stretches
      split
      · exact Stretch.start_le_of_mem_push (ih (start + 1))
      · exact fun stretch hmem => Nat.le_of_succ_le (ih (start + 1) stretch hmem)

/-- A character put in front joins the stretches that follow only through
the first of them. -/
theorem Stretch.push_append {start : Nat} {c : Char} {first second : List Stretch}
    (h : ∀ stretch ∈ second, start + 1 < stretch.start) :
    Stretch.push start c (first ++ second) = Stretch.push start c first ++ second := by
  cases first with
  | cons next others =>
      simp only [List.cons_append, Stretch.push]
      split <;> rfl
  | nil =>
      cases second with
      | nil => rfl
      | cons next others =>
          have hnext := h next List.mem_cons_self
          simp only [List.nil_append, Stretch.push]
          rw [if_neg (by omega)]
          rfl

/-- A character outside the class ends one list of stretches and begins
another. -/
theorem stretches_append_cons (inside : Char → Bool) (start : Nat) (before after : Text)
    {c : Char} (h : inside c = false) :
    stretches inside start (before ++ c :: after)
      = stretches inside start before
        ++ stretches inside (start + before.length + 1) after := by
  induction before generalizing start with
  | nil => simp [stretches, h]
  | cons d before ih =>
      have hlength : start + 1 + before.length + 1 = start + (d :: before).length + 1 := by
        simp only [List.length_cons]
        omega
      simp only [List.cons_append, stretches]
      rw [ih (start + 1), hlength]
      split
      · refine Stretch.push_append fun stretch hmem => ?_
        have hstart := start_le_of_mem_stretches inside _ after stretch hmem
        simp only [List.length_cons] at hstart
        omega
      · rfl

end BaseConverter.Text
