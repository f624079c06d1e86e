import BaseConverter.Text.Basic

/-!
# `BaseConverter.Word`: the 64-bit words that are calculated with

Every value of the library is a word of 64 bits. Read with a sign
(`toInt`) it is the value that a person sees in decimal; read without
(`toNat`) it is the pattern of bits that hexadecimal and binary show.

* `Word.ofInt?` is the word of an integer that has one.
* `Word.shownWidth` is the number of bits that the binary form of a word
  shows: whole bytes, at least one.
* `Word.ofInt?_toInt`: every word is the word of its own signed value.
-/

set_option autoImplicit false

namespace BaseConverter

/-- A word of 64 bits. -/
abbrev Word := BitVec 64

/-- The smallest positive multiple of a positive `unit` that is at least
`n`. -/
def wholeUnits (unit n : Nat) : Nat :=
  max 1 ((n + unit - 1) / unit) * unit

namespace Word

/-- The number of patterns of 64 bits. -/
abbrev patternCount : Nat := 0x10000000000000000

/-- The number of words that are not negative: half of all. -/
abbrev positiveCount : Nat := 0x8000000000000000

/-- Whether an integer is the signed value of some word. -/
def InRange (value : Int) : Prop :=
  -positiveCount ≤ value ∧ value < positiveCount

instance (value : Int) : Decidable (InRange value) :=
  inferInstanceAs (Decidable (_ ∧ _))

/-- The word with the given signed value, when there is one. -/
def ofInt? (value : Int) : Option Word :=
  if InRange value then some (BitVec.ofInt 64 value) else none

/-- The number of binary digits of the pattern of a word, without
leading zeros. Zero still has one digit. -/
def bitLength (word : Word) : Nat :=
  word.toNat.log2 + 1

/-- The number of bits in the whole bytes that a word needs. A negative
word needs all 64. -/
def shownWidth (word : Word) : Nat :=
  wholeUnits 8 word.bitLength

/-- The word cut to its low `width` bits. -/
def lowBits (width : Nat) (word : Word) : Word :=
  (word.setWidth width).setWidth 64

/-- The character whose code point is the value of a word. Negative
words, surrogates and numbers past the last code point have none. -/
def char? (word : Word) : Option Char :=
  if word.toNat.isValidChar then some (Char.ofNat word.toNat) else none

/-- The word whose value is the code point of a character. -/
def ofChar (c : Char) : Word :=
  BitVec.ofNat 64 c.toNat

/-- Every word is the word of its own signed value. -/
theorem ofInt?_toInt (word : Word) : ofInt? word.toInt = some word := by
  have hlo := BitVec.le_toInt word
  have hhi := BitVec.toInt_lt (x := word)
  rw [ofInt?, if_pos ⟨by simpa using hlo, by simpa using hhi⟩, BitVec.ofInt_toInt]

/-- A word found for an integer has that integer as its signed value. -/
theorem toInt_of_ofInt? {value : Int} {word : Word} (h : ofInt? value = some word) :
    word.toInt = value := by
  unfold ofInt? at h
  split at h
  · rename_i hrange
    obtain ⟨hlo, hhi⟩ := hrange
    rw [← Option.some.inj h]
    exact BitVec.toInt_ofInt_eq_self (by decide) (by simpa using hlo) (by simpa using hhi)
  · cases h

end Word

end BaseConverter
