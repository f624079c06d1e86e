import BaseConverter.Field
import BaseConverter.Proofs.Expression.Padding
import BaseConverter.Proofs.Numeral.Reading

/-!
# `BaseConverter.Proofs.Expression.Complement`: operands and numbers are read alike

There are two readers of digits. A field reads a number digit by digit and
stops at the first fault; a line tests all the characters of an operand
first and takes their place value then. Behind a tilde stands a single
operand, so a text with a tilde in front shows what the second reader makes
of it.

Both readers are described by the same four conditions
(`Base.readPattern_eq_ok_iff`, `Operand.exists_read_iff`): there are digits,
nothing but digits, their number is below a limit, and the word is the one
of this number. In hexadecimal and binary the limits are the same. In
decimal a number may have a sign, which belongs to no operand; without one
the limits are the same again.

* `Expression.readRadix_complement_iff` is the main statement.
-/

set_option autoImplicit false

namespace BaseConverter

/-- An operand is read from every row of digits below its limit, and from
nothing else. Its value is the number of the digits. -/
theorem Operand.exists_read_iff (base : Base) (text : Text) (word : Word) :
    (∃ operand, Operand.read base text = .ok operand ∧ operand.value = word)
      ↔ base.operandDigits text ≠ [] ∧ (∀ c ∈ base.operandDigits text, base.isDigit c = true)
        ∧ base.placeValue (base.operandDigits text) < base.operandLimit
        ∧ BitVec.ofNat 64 (base.placeValue (base.operandDigits text)) = word := by
  have hdigits : base.isOperandText text = true
      ↔ base.operandDigits text ≠ [] ∧ ∀ c ∈ base.operandDigits text, base.isDigit c = true := by
    simp [Base.isOperandText]
  constructor
  · rintro ⟨operand, hread, rfl⟩
    unfold Operand.read at hread
    split at hread
    · rename_i htext
      obtain ⟨hne, hall⟩ := hdigits.mp htext
      simp only at hread
      split at hread
      · rename_i hlimit
        cases hread
        exact ⟨hne, hall, hlimit, rfl⟩
      · cases hread
    · cases hread
  · rintro ⟨hne, hall, hlimit, rfl⟩
    refine ⟨⟨Text.trim text, _⟩, ?_, rfl⟩
    rw [Operand.read, if_pos (hdigits.mpr ⟨hne, hall⟩)]
    exact if_pos hlimit

namespace Base

/-- The number of a hexadecimal or binary field has the digits of an
operand. -/
theorem read_eq_readPattern {base : Base} (h : base ≠ .decimal) (text : Text) :
    base.read text = base.readPattern (Text.trim text) (base.operandDigits text) := by
  cases base with
  | decimal => contradiction
  | hex => rfl
  | binary => rfl

/-- A decimal number without a sign is read from the rows of digits that are
an operand. -/
theorem read_decimal_unsigned_iff (text : Text) (word : Word) :
    decimal.read text = .ok word ∧ (∀ c ∈ (Text.trim text).head?, c ≠ '+' ∧ c ≠ '-')
      ↔ Text.trim text ≠ [] ∧ (∀ c ∈ Text.trim text, decimal.isDigit c = true)
        ∧ decimal.placeValue (Text.trim text) < decimal.operandLimit
        ∧ BitVec.ofNat 64 (decimal.placeValue (Text.trim text)) = word := by
  have hread : decimal.read text = readSigned (Text.trim text) := rfl
  rw [hread]
  generalize Text.trim text = trimmed
  constructor
  · rintro ⟨hnumber, hunsigned⟩
    have hne : trimmed ≠ [] := by
      rintro rfl
      cases hnumber
    rw [readSigned_of_unsigned hne hunsigned] at hnumber
    exact (readMagnitude_eq_ok_iff false trimmed trimmed word).mp hnumber
  · rintro ⟨hne, hdigits, hlimit, hword⟩
    rw [readSigned_of_digits hne hdigits]
    exact ⟨(readMagnitude_eq_ok_iff false trimmed trimmed word).mpr
      ⟨hne, hdigits, hlimit, hword⟩, unsigned_of_digits hdigits⟩

end Base

namespace Expression

/-- A text with a tilde in front is a complement just when the text is an
operand. -/
theorem read_complement_iff (base : Base) (text : Text) (operand : Operand) :
    read base ('~' :: text) = .ok (.complement operand)
      ↔ Operand.read base text = .ok operand := by
  have htrim : Text.trim ('~' :: text) = '~' :: Text.trimEnd text :=
    Text.trimEnd_append_cons [] text (by decide)
  have hend := Text.trim_trimEnd text
  rw [read_eq_ok_iff, htrim, Operand.read_eq_ok_iff]
  constructor
  · intro h
    generalize hline : '~' :: Text.trimEnd text = line at h
    cases h with
    | complement hoperand =>
        rw [← (List.cons.inj hline).2] at hoperand
        exact hoperand.of_trim_eq hend.symm
  · intro h
    exact .complement (h.of_trim_eq hend)

/-- A text is read as an operand behind a tilde exactly when a field of the
same base reads it as a number, with the same value. In decimal it must
begin without a sign, white space apart. -/
theorem readRadix_complement_iff (base : Base) (text : Text) (word : Word) :
    (∃ operand, readRadix base.radix ('~' :: text) = .ok (.complement operand)
        ∧ operand.value = word)
      ↔ (Field.ofBase base).readNumber text = .ok word
        ∧ (base = .decimal → ∀ c ∈ (Text.trim text).head?, c ≠ '+' ∧ c ≠ '-') := by
  have hnumber : (Field.ofBase base).readNumber text = base.read text := by
    rw [Field.readNumber, Field.base?_ofBase]
  have hcomplement : ∀ operand, readRadix base.radix ('~' :: text) = .ok (.complement operand)
      ↔ Operand.read base text = .ok operand := by
    intro operand
    rw [readRadix, Base.ofRadix?_radix]
    exact read_complement_iff base text operand
  simp only [hcomplement, hnumber]
  rw [Operand.exists_read_iff]
  by_cases hbase : base = .decimal
  · subst hbase
    have hdigits : Base.decimal.operandDigits text = Text.trim text := rfl
    rw [hdigits, ← Base.read_decimal_unsigned_iff]
    simp only [true_imp_iff]
  · have hlimit : base.operandLimit = Word.patternCount := by
      cases base with
      | decimal => contradiction
      | hex => rfl
      | binary => rfl
    rw [hlimit, Base.read_eq_readPattern hbase, Base.readPattern_eq_ok_iff]
    simp only [hbase, false_imp_iff, and_true]

/-- The mark alone is neither a number nor an operand. -/
example : Field.hex.readNumber "0x".toList = .error .empty
    ∧ readRadix 16 "~0x".toList = .error (.invalidOperand "0x".toList .hex) := ⟨rfl, rfl⟩

end Expression

end BaseConverter
