import BaseConverter.Text.Basic

/-!
# `BaseConverter.Text.WhiteSpace`: white space and trimming

White space is every character with the Unicode property `White_Space`,
25 of them, unchanged since Unicode 6.3. `Text.trim` drops the white
space at both ends of a text and keeps what is inside.

* `Text.trimEnd_eq_nil_iff`: only a text of white space trims to
  nothing.
-/

set_option autoImplicit false

namespace BaseConverter.Text

/-- The code points with the property `White_Space`, as ranges with both
ends included. -/
def whiteSpace : List (Nat × Nat) :=
  [(0x0009, 0x000D), (0x0020, 0x0020), (0x0085, 0x0085), (0x00A0, 0x00A0),
    (0x1680, 0x1680), (0x2000, 0x200A), (0x2028, 0x2029), (0x202F, 0x202F),
    (0x205F, 0x205F), (0x3000, 0x3000)]

-- The ranges ascend with gaps between them, and hold 25 code points.
example : whiteSpace.Pairwise fun r s => r.2 + 1 < s.1 := by decide
example : (whiteSpace.flatMap fun r => List.range' r.1 (r.2 + 1 - r.1)).length = 25 := by decide

/-- Whether a character is white space. -/
def isWhite (c : Char) : Bool :=
  whiteSpace.any fun range => range.1 ≤ c.toNat && c.toNat ≤ range.2

/-- Whether a text holds nothing but white space. The empty text does. -/
def allWhite (text : Text) : Bool :=
  text.all isWhite

/-- The text from its first character that is not white space. -/
def trimStart (text : Text) : Text :=
  text.dropWhile isWhite

/-- The text up to its last character that is not white space. A
character of white space is dropped exactly when nothing is left behind
it. -/
def trimEnd : Text → Text
  | [] => []
  | c :: rest =>
    match trimEnd rest with
    | [] => if isWhite c then [] else [c]
    | kept => c :: kept

/-- The text without the white space at its two ends. -/
def trim (text : Text) : Text :=
  trimEnd (trimStart text)

/-- Only a text of white space has nothing left at its end. -/
theorem trimEnd_eq_nil_iff (text : Text) : trimEnd text = [] ↔ allWhite text = true := by
  induction text with
  | nil => simp [trimEnd, allWhite]
  | cons c rest ih =>
      simp only [trimEnd, allWhite, List.all_cons, Bool.and_eq_true] at ih ⊢
      split
      · rename_i hnil
        by_cases hc : isWhite c = true <;> simp [hc, ih.mp hnil]
      · rename_i hkept
        simp [mt ih.mpr hkept]

end BaseConverter.Text
