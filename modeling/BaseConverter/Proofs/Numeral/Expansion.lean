import BaseConverter.Proofs.Numeral.Canonical
import BaseConverter.Proofs.Numeral.HalfByte
import Mathlib.Data.List.Forall2

/-!
# `BaseConverter.Proofs.Numeral.Expansion`: binary as hexadecimal, digit by digit

A word is written in hexadecimal and in binary by two separate conversions,
and each fills up its digits by its own rule: to an even number in one, to a
multiple of eight in the other. `HalfByte` shows that the digits agree as the
library computes them. Here the half byte of a digit is described by what it
says: `Base.SpellsDigit` asks for four binary digits of the same value.

* `Base.spellsDigit_halfByte`: what the library computes spells the digit.
* `Base.write_binary_spells_hex`: a written binary number is the written
  hexadecimal number spelled out, and both have the same number of bytes.
-/

set_option autoImplicit false

namespace BaseConverter.Base

/-- Four binary digits that stand for the same number as a hexadecimal
digit. -/
structure SpellsDigit (bits : Text) (digit : Char) : Prop where
  length_eq : bits.length = 4
  binary : ∀ c ∈ bits, Base.binary.isDigit c = true
  sameValue : Base.hex.digit? digit = some (Base.binary.placeValue bits)

/-- The half byte of a hexadecimal digit spells it. -/
theorem spellsDigit_halfByte {digit : Char} (h : hex.isDigit digit = true) :
    SpellsDigit (halfByte ((hex.digit? digit).getD 0)) digit where
  length_eq := length_halfByte (digit?_getD_lt digit)
  binary := by
    intro c hc
    rw [halfByte, List.leftpad, List.mem_append] at hc
    rcases hc with hc | hc
    · rw [List.eq_of_mem_replicate hc]
      exact binary.isDigit_zero
    · exact binary.isDigit_of_mem_digits _ c hc
  sameValue := by
    obtain ⟨value, hvalue⟩ := Option.isSome_iff_exists.mp h
    rw [placeValue_halfByte, hvalue, Option.getD_some]

/-- The half bytes of a row of hexadecimal digits spell it, one for each
digit. -/
theorem exists_rows_halfBytes {digits : Text} (h : ∀ c ∈ digits, hex.isDigit c = true) :
    ∃ rows, List.Forall₂ SpellsDigit rows digits ∧ halfBytes digits = rows.flatten := by
  refine ⟨digits.map fun c => halfByte ((hex.digit? c).getD 0), ?_, List.flatMap_def⟩
  rw [List.forall₂_map_left_iff, List.forall₂_same]
  intro c hc
  exact spellsDigit_halfByte (h c hc)

/-- The binary form of a word is its hexadecimal form behind the mark `0x`, with
four bits for each digit, in order. Both forms have digits for the same number
of bytes: two in hexadecimal and eight in binary for each. -/
theorem write_binary_spells_hex (word : Word) :
    ∃ digits rows bytes, hex.write word = "0x".toList ++ digits
      ∧ List.Forall₂ SpellsDigit rows digits ∧ binary.write word = rows.flatten
      ∧ digits.length = 2 * bytes ∧ (binary.write word).length = 8 * bytes := by
  have hunits : (hex.shownDigits word).length % 2 = 0 := (hex.canonical_shownDigits word).units
  have hbinary : binary.write word = halfBytes (hex.shownDigits word) := by
    rw [write_eq, shownDigits_binary]
    rfl
  obtain ⟨rows, hrows, hflatten⟩ := exists_rows_halfBytes (hex.isDigit_of_mem_shownDigits word)
  refine ⟨hex.shownDigits word, rows, (hex.shownDigits word).length / 2, hex.write_eq word, hrows,
    hbinary.trans hflatten, ?_, ?_⟩
  · omega
  · rw [hbinary, length_halfBytes]
    omega

end BaseConverter.Base
