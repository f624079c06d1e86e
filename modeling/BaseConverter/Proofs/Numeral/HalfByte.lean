import BaseConverter.Proofs.Numeral.Written

/-!
# `BaseConverter.Proofs.Numeral.HalfByte`: hexadecimal digits as bits

Behind the mark `0x`, the hexadecimal and the binary form of a word show
the same half bytes in the same order: each hexadecimal digit stands for
four binary digits.

* `Base.exists_replicate_digits_binary`: before zeros are filled in, the
  binary digits of a number are those of its hexadecimal digits, without
  up to three zeros in front.
* `Base.shownDigits_binary`: with the zeros filled in nothing is missing,
  because two hexadecimal digits make as many bits as a byte has.
* `take_drop_halfBytes`: half byte `n` is found behind `4 * n` bits.
-/

set_option autoImplicit false

namespace BaseConverter

/-- The four binary digits of a number below sixteen. -/
def halfByte (value : Nat) : Text :=
  (Base.binary.digits value).leftpad 4 '0'

/-- The four binary digits of each character of a row of hexadecimal
digits. -/
def halfBytes (digits : Text) : Text :=
  digits.flatMap fun c => halfByte ((Base.hex.digit? c).getD 0)

/-- The four digits one by one. -/
theorem halfByte_eq {value : Nat} (h : value < 16) :
    halfByte value
      = [(value / 2 / 2 / 2 % 2).digitChar.toUpper, (value / 2 / 2 % 2).digitChar.toUpper,
        (value / 2 % 2).digitChar.toUpper, (value % 2).digitChar.toUpper] := by
  have hall : ∀ v : Fin 16, halfByte v.val
      = [(v.val / 2 / 2 / 2 % 2).digitChar.toUpper, (v.val / 2 / 2 % 2).digitChar.toUpper,
        (v.val / 2 % 2).digitChar.toUpper, (v.val % 2).digitChar.toUpper] := by
    decide
  exact hall ⟨value, h⟩

theorem length_halfByte {value : Nat} (h : value < 16) : (halfByte value).length = 4 := by
  rw [halfByte_eq h]
  rfl

/-- The four binary digits stand for the number. -/
theorem placeValue_halfByte (value : Nat) : Base.binary.placeValue (halfByte value) = value := by
  rw [halfByte, List.leftpad, Base.placeValue_replicate_append, Base.placeValue_digits]

/-! ### Rows of half bytes -/

/-- Every character stands for a number below sixteen. -/
theorem digit?_getD_lt (c : Char) : (Base.hex.digit? c).getD 0 < 16 := by
  cases hc : Base.hex.digit? c with
  | none => decide
  | some value => exact Base.digit?_lt hc

theorem length_halfBytes (digits : Text) : (halfBytes digits).length = 4 * digits.length := by
  induction digits with
  | nil => rfl
  | cons c rest ih =>
      have hc := length_halfByte (digit?_getD_lt c)
      rw [halfBytes, List.flatMap_cons, ← halfBytes, List.length_append, hc, ih, List.length_cons]
      omega

/-- Half byte `n` of a row is that of digit `n`. -/
theorem take_drop_halfBytes {digits : Text} {n : Nat} {c : Char} (h : digits[n]? = some c) :
    ((halfBytes digits).drop (4 * n)).take 4 = halfByte ((Base.hex.digit? c).getD 0) := by
  induction digits generalizing n with
  | nil => cases h
  | cons first rest ih =>
      have hlength := length_halfByte (digit?_getD_lt first)
      rw [halfBytes, List.flatMap_cons, ← halfBytes]
      cases n with
      | zero =>
          cases h
          exact List.take_left' hlength
      | succ n =>
          rw [Nat.mul_succ, Nat.add_comm, ← List.drop_drop, List.drop_left' hlength]
          exact ih h

/-- Zeros in front stand for four zeros each. -/
theorem halfBytes_replicate_append (count : Nat) (digits : Text) :
    halfBytes (List.replicate count '0' ++ digits)
      = List.replicate (4 * count) '0' ++ halfBytes digits := by
  induction count with
  | zero => rfl
  | succ count ih =>
      have hzero : halfByte ((Base.hex.digit? '0').getD 0) = List.replicate 4 '0' := by decide
      rw [List.replicate_succ, List.cons_append, halfBytes, List.flatMap_cons, ← halfBytes, ih,
        hzero, ← List.append_assoc, List.replicate_append_replicate, Nat.mul_succ, Nat.add_comm 4]

namespace Base

/-! ### The digits of a number -/

/-- The last four binary digits are the half byte of the remainder by
sixteen. -/
theorem digits_binary_of_le {n : Nat} (h : 16 ≤ n) :
    binary.digits n = binary.digits (n / 16) ++ halfByte (n % 16) := by
  -- Four steps of the binary digits are one step of the hexadecimal ones.
  have hstep : ∀ m, 2 ≤ m →
      binary.digits m = binary.digits (m / 2) ++ [(m % 2).digitChar.toUpper] :=
    fun m hm => digits_of_le hm
  rw [hstep n (by omega), hstep (n / 2) (by omega), hstep (n / 2 / 2) (by omega),
    hstep (n / 2 / 2 / 2) (by omega), halfByte_eq (Nat.mod_lt n (by decide))]
  have hquotient : n / 2 / 2 / 2 / 2 = n / 16 := by omega
  have hthird : n / 2 / 2 / 2 % 2 = n % 16 / 2 / 2 / 2 % 2 := by omega
  have hsecond : n / 2 / 2 % 2 = n % 16 / 2 / 2 % 2 := by omega
  have hfirst : n / 2 % 2 = n % 16 / 2 % 2 := by omega
  have hlast : n % 2 = n % 16 % 2 := by omega
  rw [hquotient, hthird, hsecond, hfirst, hlast]
  simp only [List.append_assoc, List.cons_append, List.nil_append]

/-- The binary digits of a number are the half bytes of its hexadecimal
digits, without up to three zeros in front. -/
theorem exists_replicate_digits_binary (n : Nat) :
    ∃ count < 4, List.replicate count '0' ++ binary.digits n = halfBytes (hex.digits n) := by
  induction n using hex.digits_induction with
  | last n hsmall =>
      have hpos := List.length_pos_iff.mpr (binary.digits_ne_nil n)
      refine ⟨4 - (binary.digits n).length, by omega, ?_⟩
      rw [digits_of_lt hsmall, halfBytes, List.flatMap_singleton,
        digit?_toUpper_digitChar hsmall]
      rfl
  | more n hlarge ih =>
      obtain ⟨count, hcount, heq⟩ := ih
      have hmod : n % hex.radix < hex.radix := Nat.mod_lt n (by decide)
      refine ⟨count, hcount, ?_⟩
      rw [digits_of_le hlarge, halfBytes, List.flatMap_append, ← halfBytes, ← heq,
        List.flatMap_singleton, digit?_toUpper_digitChar hmod, digits_binary_of_le hlarge,
        List.append_assoc]
      rfl

/-- The bits that a word shows are the half bytes of the hexadecimal
digits that it shows. -/
theorem shownDigits_binary (word : Word) :
    binary.shownDigits word = halfBytes (hex.shownDigits word) := by
  obtain ⟨count, hcount, heq⟩ := exists_replicate_digits_binary word.toNat
  have hlength := congrArg List.length heq
  rw [List.length_append, List.length_replicate, length_halfBytes] at hlength
  have hpos := List.length_pos_iff.mpr (hex.digits_ne_nil word.toNat)
  -- Both forms are filled up to the same number of bytes.
  have hzeros : wholeUnits 8 (binary.digits word.toNat).length - (binary.digits word.toNat).length
      = 4 * (wholeUnits 2 (hex.digits word.toNat).length - (hex.digits word.toNat).length)
        + count := by
    unfold wholeUnits
    omega
  simp only [shownDigits, digitUnit, magnitude]
  rw [halfBytes_replicate_append, ← heq, hzeros, ← List.replicate_append_replicate,
    List.append_assoc]

end Base

end BaseConverter
