import BaseConverter.Proofs.Sheet.Filling
import Mathlib.Data.List.Forall2

/-!
# `BaseConverter.Proofs.Sheet.Characters`: characters through the numeric fields

A text in the field of characters is one value for each character. Spaces and
control characters are values like the others here, although in a numeric field
a space stands between two values. The value of a character is its code point,
which every word with that value leads back to (`Word.char?_ofChar`).

* `Sheet.ascii_ofWords_ofChar`: the sheet of the code points shows the
  characters.
* `Sheet.fill?_characters` is the main statement: each numeric field lists the
  code points one for one, and typing it again fills the same sheet.
-/

set_option autoImplicit false

namespace BaseConverter

/-! ### Code points -/

namespace Word

/-- Code points end far below the last word that is not negative. -/
theorem toNat_lt_positiveCount (c : Char) : c.toNat < positiveCount := by
  have hvalid : c.toNat.isValidChar := c.valid
  unfold Nat.isValidChar at hvalid
  unfold positiveCount
  omega

/-- As a pattern of bits the value of a character is its code point. -/
theorem toNat_ofChar (c : Char) : (ofChar c).toNat = c.toNat := by
  have hlt := toNat_lt_positiveCount c
  rw [ofChar, BitVec.toNat_ofNat]
  exact Nat.mod_eq_of_lt (Nat.lt_trans hlt (by decide))

/-- The value of a character is its code point, which has no sign. -/
theorem toInt_ofChar (c : Char) : (ofChar c).toInt = c.toNat := by
  have hlt := toNat_lt_positiveCount c
  have hsign : 2 * (ofChar c).toNat < 2 ^ 64 := by
    rw [toNat_ofChar]
    unfold positiveCount at hlt
    omega
  rw [BitVec.toInt_eq_toNat_of_lt hsign, toNat_ofChar]

/-- A character comes back from its value. -/
@[simp]
theorem char?_ofChar (c : Char) : (ofChar c).char? = some c := by
  have hvalid : c.toNat.isValidChar := c.valid
  rw [char?, toNat_ofChar, if_pos hvalid, Char.ofNat_toNat]

end Word

/-- A text is a number in the base `base`, and the number is the code point of
`c`. -/
def Base.WritesCodePoint (base : Base) (c : Char) (text : Text) : Prop :=
  ∃ word, base.read text = .ok word ∧ word.toInt = c.toNat

/-- The written value of a character is its code point. -/
theorem Base.writesCodePoint_write (base : Base) (c : Char) :
    base.WritesCodePoint c (base.write (Word.ofChar c)) :=
  ⟨Word.ofChar c, base.read_write (Word.ofChar c), Word.toInt_ofChar c⟩

/-! ### The sheet of a text -/

namespace Sheet

/-- Side by side, the characters of the code points are the text. -/
theorem ascii_ofWords_ofChar (text : Text) : (ofWords (text.map Word.ofChar)).ascii = text := by
  show (text.map Word.ofChar).flatMap (fun word => word.char?.toList) = text
  simp [List.flatMap_map]

/-- A numeric field of written words, cut at every single space, gives the
written words. -/
theorem splitOn_get_ofWords (base : Base) {words : List Word} (hne : words ≠ []) :
    ((ofWords words).get (Field.ofBase base)).splitOn ' ' = words.map base.write := by
  rw [get_ofWords, Text.spaced]
  refine List.splitOn_intercalate ' ' ?_ (mt List.map_eq_nil_iff.mp hne)
  intro text htext
  exact (base.ne_nil_and_space_not_mem words text htext).2

/-- Characters fill the sheet of their code points. -/
theorem fill?_ascii {text : Text} (h : Text.allWhite text = false) :
    fill? .ascii text = some (ofWords (text.map Word.ofChar)) := by
  have hset := set_get_self (ofWords (text.map Word.ofChar)) .ascii
  rw [get, ascii_ofWords_ofChar] at hset
  -- The empty text is white space, so there is a first value.
  cases text with
  | nil => cases h
  | cons c rest =>
      rw [fill?, h]
      exact congrArg some hset

/-- Characters that are not all white space fill a sheet on which they stand
unchanged. Each numeric field of it, cut at its spaces, holds one number for
each character, the code point of that character, in order. Typing any of these
fields fills the same sheet again. -/
theorem fill?_characters (text : Text) (h : Text.allWhite text = false) :
    ∃ sheet, fill? .ascii text = some sheet ∧ sheet.ascii = text
      ∧ ∀ base : Base,
        List.Forall₂ base.WritesCodePoint text ((sheet.get (Field.ofBase base)).splitOn ' ')
        ∧ fill? (Field.ofBase base) (sheet.get (Field.ofBase base)) = some sheet := by
  have hne : text.map Word.ofChar ≠ [] := by
    refine mt List.map_eq_nil_iff.mp ?_
    rintro rfl
    cases h
  refine ⟨ofWords (text.map Word.ofChar), fill?_ascii h, ascii_ofWords_ofChar text, ?_⟩
  intro base
  constructor
  · rw [splitOn_get_ofWords base hne, List.map_map, List.forall₂_map_right_iff, List.forall₂_same]
    intro c _
    exact base.writesCodePoint_write c
  · rw [get_ofWords]
    exact fill?_spaced base (text.map Word.ofChar)

/-- Two spaces, a line break and a character behind the first 65,536 code points
come back from binary. -/
theorem fill?_characters_spaces :
    let text : Text := "  \n😀".toList
    Text.allWhite text = false
    ∧ ∃ sheet, fill? .ascii text = some sheet ∧ sheet.ascii = text
      ∧ sheet.decimal = "32 32 10 128512".toList
      ∧ fill? .binary sheet.binary = some sheet := by
  intro text
  have hwhite : Text.allWhite text = false := by decide
  obtain ⟨sheet, hfill, hascii, hfields⟩ := fill?_characters text hwhite
  have hsheet : fill? .ascii text = some (ofWords [32, 32, 10, 128512]) := by decide
  obtain rfl := Option.some.inj (hsheet.symm.trans hfill)
  exact ⟨hwhite, _, hfill, hascii, by decide, (hfields .binary).2⟩

end Sheet

end BaseConverter
