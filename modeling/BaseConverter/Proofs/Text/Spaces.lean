import BaseConverter.Proofs.Text.Stretch
import BaseConverter.Proofs.Text.Trim

/-!
# `BaseConverter.Proofs.Text.Spaces`: a text and its spaces

Spaces can be put into a text, and taken out of it again with
`Text.withoutSpaces`. Each character of the smaller text then stands at some
place of the larger one. `Text.placeOf` is this place, and
`Text.exists_of_placeOf` says what it means: the character is the same, and
so are the characters in front of it, but for the spaces.
-/

set_option autoImplicit false

namespace BaseConverter.Text

/-- The text without its spaces. Other white space stays. -/
def withoutSpaces (text : Text) : Text :=
  text.filter (· ≠ ' ')

/-- The position in `text` of the character that has `index` characters
other than spaces in front of it, and is itself no space. -/
def placeOf : Text → Nat → Nat
  | [], _ => 0
  | ' ' :: rest, index => placeOf rest index + 1
  | _ :: _, 0 => 0
  | _ :: rest, index + 1 => placeOf rest index + 1

/-! ### Taking the spaces out -/

@[simp]
theorem withoutSpaces_append (first second : Text) :
    withoutSpaces (first ++ second) = withoutSpaces first ++ withoutSpaces second :=
  List.filter_append first second

@[simp]
theorem withoutSpaces_space_cons (rest : Text) : withoutSpaces (' ' :: rest) = withoutSpaces rest :=
  rfl

theorem withoutSpaces_cons {c : Char} (hc : c ≠ ' ') (rest : Text) :
    withoutSpaces (c :: rest) = c :: withoutSpaces rest :=
  List.filter_cons_of_pos (decide_eq_true hc)

@[simp]
theorem withoutSpaces_replicate (count : Nat) : withoutSpaces (List.replicate count ' ') = [] := by
  rw [withoutSpaces, List.filter_replicate]
  rfl

theorem withoutSpaces_eq_self {text : Text} (h : ' ' ∉ text) : withoutSpaces text = text :=
  List.filter_eq_self.mpr (decide_ne_of_not_mem h)

theorem withoutSpaces_of_not_white {text : Text} (h : ∀ c ∈ text, isWhite c = false) :
    withoutSpaces text = text := by
  refine withoutSpaces_eq_self fun hspace => ?_
  exact absurd (h ' ' hspace) (by decide)

theorem mem_withoutSpaces {text : Text} {c : Char} :
    c ∈ withoutSpaces text ↔ c ∈ text ∧ c ≠ ' ' := by
  simp [withoutSpaces]

/-! ### Spaces around a text -/

/-- Nothing is left of white space that is all spaces. -/
theorem withoutSpaces_of_allWhite {text : Text} (hwhite : allWhite text = true)
    (h : ∀ c ∈ text, isWhite c = true → c = ' ') : withoutSpaces text = [] := by
  rw [withoutSpaces, List.filter_eq_nil_iff]
  intro c hc
  simp [h c hc (List.all_eq_true.mp hwhite c hc)]

/-- White space around a text goes with the spaces, if it is spaces. -/
theorem withoutSpaces_of_padded {core text : Text} (h : Padded core text)
    (hspaces : ∀ c ∈ text, isWhite c = true → c = ' ') :
    withoutSpaces core = withoutSpaces text := by
  obtain ⟨before, after, hbefore, hafter, rfl⟩ := h
  have hfront := withoutSpaces_of_allWhite hbefore fun c hc => hspaces c (by simp [hc])
  have hback := withoutSpaces_of_allWhite hafter fun c hc => hspaces c (by simp [hc])
  rw [withoutSpaces_append, withoutSpaces_append, hfront, hback, List.nil_append, List.append_nil]

theorem allWhite_replicate (count : Nat) : allWhite (List.replicate count ' ') = true := by
  rw [allWhite, List.all_eq_true]
  intro c hc
  rw [List.eq_of_mem_replicate hc]
  decide

theorem trim_spaces_append (count : Nat) (text : Text) :
    trim (List.replicate count ' ' ++ text) = trim text :=
  trim_eq_of_padded ⟨List.replicate count ' ', [], allWhite_replicate count, rfl,
    (List.append_nil _).symm⟩

theorem trim_append_spaces (text : Text) (count : Nat) :
    trim (text ++ List.replicate count ' ') = trim text :=
  trim_eq_of_padded ⟨[], List.replicate count ' ', rfl, allWhite_replicate count, rfl⟩

/-! ### Places -/

/-- The place of a character has this character, and behind the spaces in
front of it are the characters that were in front of it. -/
theorem exists_of_placeOf {text : Text} {index : Nat} {c : Char}
    (h : (withoutSpaces text)[index]? = some c) :
    ∃ before after, text = before ++ c :: after ∧ before.length = placeOf text index
      ∧ withoutSpaces before = (withoutSpaces text).take index := by
  induction text generalizing index with
  | nil => cases h
  | cons d rest ih =>
      by_cases hd : d = ' '
      · subst hd
        obtain ⟨before, after, htext, hplace, hfront⟩ := ih h
        refine ⟨' ' :: before, after, congrArg (List.cons ' ') htext, ?_, hfront⟩
        rw [placeOf, List.length_cons, hplace]
      · rw [withoutSpaces_cons hd] at h ⊢
        cases index with
        | zero =>
            obtain rfl : d = c := Option.some.inj h
            refine ⟨[], rest, rfl, ?_, rfl⟩
            rw [placeOf]
            · rfl
            · exact hd
        | succ index =>
            obtain ⟨before, after, htext, hplace, hfront⟩ := ih h
            refine ⟨d :: before, after, congrArg (List.cons d) htext, ?_, ?_⟩
            · rw [placeOf, List.length_cons, hplace]
              exact hd
            · rw [withoutSpaces_cons hd, hfront]
              rfl

end BaseConverter.Text
