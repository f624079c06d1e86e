/-!
# `BaseConverter.Text.Basic`: texts as lists of characters

Every text of the library is the list of its characters. A position in
a text therefore counts characters, never bytes, and a cut at a
position never falls inside a character.

* `Text.utf8Length` is the one measure that counts bytes.
* `Text.spaced` joins texts by single spaces.
-/

set_option autoImplicit false

namespace BaseConverter

/-- A text is the list of its characters. -/
abbrev Text := List Char

namespace Text

/-- The number of bytes of the UTF-8 form of a text. -/
def utf8Length (text : Text) : Nat :=
  text.foldr (fun c length => c.utf8Size + length) 0

/-- The texts in order, with one space between neighbours. -/
def spaced (texts : List Text) : Text :=
  [' '].intercalate texts

/-- The text with the ASCII capitals replaced by their small letters.
Every other character stays as it is. -/
def toLower (text : Text) : Text :=
  text.map Char.toLower

/-- The text with the small ASCII letters replaced by their capitals.
Every other character stays as it is. -/
def toUpper (text : Text) : Text :=
  text.map Char.toUpper

/-- Capitals are left as they are. -/
theorem toUpper_toUpper (text : Text) : text.toUpper.toUpper = text.toUpper := by
  have hchar : ∀ c : Char, c.toUpper.toUpper = c.toUpper := by
    intro c
    unfold Char.toUpper
    split
    · -- The capitals come in front of the small letters.
      rename_i hsmall
      refine dif_neg fun hagain => ?_
      simp [UInt32.le_iff_toNat_le] at hsmall hagain
      omega
    · rfl
  rw [toUpper, toUpper, List.map_map]
  exact List.map_congr_left fun c _ => hchar c

end Text

end BaseConverter
