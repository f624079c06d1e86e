import BaseConverter.Proofs.Numeral.Reading

/-!
# `BaseConverter.Proofs.Numeral.Bits`: binary digits as bits

The binary form of a word has a digit for each of its bits, from the highest
one that is shown down to the lowest. `bitRow width n` is the row of the low
`width` bits of a number, whatever the number is. Rows of one width are easy
to compare, because the same place in them belongs to the same bit.

* `Base.leftpad_write_binary`: filled up with zeros, the binary form of a
  word is the row of its bits.
* `Base.read_bitRow`: the row of all bits of a word is read as this word.
* `zipWith_bitRow`: rows are combined digit by digit by combining bits.
-/

set_option autoImplicit false

namespace BaseConverter

/-- The binary digit that shows a bit. -/
def bitDigit (bit : Bool) : Char :=
  if bit then '1' else '0'

/-- The low `width` bits of a number as binary digits, highest bit first. -/
def bitRow : Nat → Nat → Text
  | 0, _ => []
  | width + 1, n => bitRow width (n / 2) ++ [bitDigit (n.testBit 0)]

/-- The binary digit that an operation on bits makes of two binary digits. -/
def combineDigits (f : Bool → Bool → Bool) (c d : Char) : Char :=
  bitDigit (f (c == '1') (d == '1'))

/-- Two rows of binary digits, the shorter one with zeros in front up to the
length of the longer, combined digit by digit. -/
def combineRows (f : Bool → Bool → Bool) (row row' : Text) : Text :=
  let width := max row.length row'.length
  List.zipWith (combineDigits f) (row.leftpad width '0') (row'.leftpad width '0')

theorem combineDigits_bitDigit (f : Bool → Bool → Bool) (bit bit' : Bool) :
    combineDigits f (bitDigit bit) (bitDigit bit') = bitDigit (f bit bit') := by
  cases bit <;> cases bit' <;> rfl

/-! ### Rows of bits -/

@[simp]
theorem length_bitRow (width n : Nat) : (bitRow width n).length = width := by
  induction width generalizing n with
  | zero => rfl
  | succ width ih => rw [bitRow, List.length_append, ih, List.length_singleton]

/-- Zero has no bits. -/
theorem bitRow_zero (width : Nat) : bitRow width 0 = List.replicate width '0' := by
  induction width with
  | zero => rfl
  | succ width ih =>
      rw [bitRow, Nat.zero_div, ih, List.replicate_succ']
      rfl

theorem isDigit_of_mem_bitRow (width n : Nat) :
    ∀ c ∈ bitRow width n, Base.binary.isDigit c = true := by
  induction width generalizing n with
  | zero => exact List.forall_mem_nil _
  | succ width ih =>
      intro c hc
      rw [bitRow, List.mem_append, List.mem_singleton] at hc
      rcases hc with hc | rfl
      · exact ih (n / 2) c hc
      · cases n.testBit 0 <;> decide

/-- What an operation makes of the bits of two numbers it makes of their
rows. -/
theorem zipWith_bitRow (f : Bool → Bool → Bool) {m n k : Nat} (width : Nat)
    (h : ∀ i, k.testBit i = f (m.testBit i) (n.testBit i)) :
    List.zipWith (combineDigits f) (bitRow width m) (bitRow width n) = bitRow width k := by
  induction width generalizing m n k with
  | zero => rfl
  | succ width ih =>
      -- The other bits are those of the halves.
      have hhalf : ∀ i, (k / 2).testBit i = f ((m / 2).testBit i) ((n / 2).testBit i) := by
        intro i
        rw [← Nat.testBit_succ, ← Nat.testBit_succ, ← Nat.testBit_succ]
        exact h (i + 1)
      rw [bitRow, bitRow, bitRow, List.zipWith_append (by simp), ih hhalf, h 0]
      simp [combineDigits_bitDigit]

namespace Base

/-- A row that has all bits of a number stands for it. -/
theorem placeValue_bitRow {width n : Nat} (h : ∀ i, width ≤ i → n.testBit i = false) :
    binary.placeValue (bitRow width n) = n := by
  induction width generalizing n with
  | zero =>
      have hzero : n = 0 := by
        refine Nat.eq_of_testBit_eq fun i => ?_
        rw [h i (Nat.zero_le i), Nat.zero_testBit]
      rw [hzero]
      rfl
  | succ width ih =>
      have hhalf : ∀ i, width ≤ i → (n / 2).testBit i = false := by
        intro i hi
        rw [← Nat.testBit_succ]
        exact h (i + 1) (by omega)
      have hlast : (binary.digit? (bitDigit (n.testBit 0))).getD 0 = n % 2 := by
        rw [Nat.testBit_zero]
        rcases Nat.mod_two_eq_zero_or_one n with hmod | hmod <;> rw [hmod] <;> rfl
      rw [bitRow, placeValue_append_singleton, ih hhalf, hlast]
      exact Nat.div_add_mod' n 2

/-! ### The digits of a number -/

/-- A number has no bits beyond its binary digits. -/
theorem testBit_of_length_digits_le {n i : Nat} (h : (binary.digits n).length ≤ i) :
    n.testBit i = false := by
  induction n using binary.digits_induction generalizing i with
  | last n hsmall =>
      have htwo : n < 2 := hsmall
      rw [digits_of_lt hsmall, List.length_singleton] at h
      obtain ⟨j, rfl⟩ : ∃ j, i = j + 1 := ⟨i - 1, by omega⟩
      rw [Nat.testBit_succ, Nat.div_eq_of_lt htwo, Nat.zero_testBit]
  | more n hlarge ih =>
      rw [digits_of_le hlarge, List.length_append, List.length_singleton] at h
      obtain ⟨j, rfl⟩ : ∃ j, i = j + 1 := ⟨i - 1, by omega⟩
      rw [Nat.testBit_succ]
      exact ih (by omega)

/-- The binary digits of a number, filled up with zeros, are the row of its
bits. -/
theorem leftpad_digits_binary {width n : Nat} (h : (binary.digits n).length ≤ width) :
    (binary.digits n).leftpad width '0' = bitRow width n := by
  induction n using binary.digits_induction generalizing width with
  | last n hsmall =>
      have htwo : n < 2 := hsmall
      rw [digits_of_lt hsmall, List.length_singleton] at h
      obtain ⟨width, rfl⟩ : ∃ rest, width = rest + 1 := ⟨width - 1, by omega⟩
      have hchar : n.digitChar.toUpper = bitDigit (n.testBit 0) := by
        have hcases : n = 0 ∨ n = 1 := by omega
        rcases hcases with rfl | rfl <;> rfl
      rw [digits_of_lt hsmall, bitRow, Nat.div_eq_of_lt htwo, bitRow_zero, ← hchar]
      rfl
  | more n hlarge ih =>
      rw [digits_of_le hlarge, List.length_append, List.length_singleton] at h
      obtain ⟨width, rfl⟩ : ∃ rest, width = rest + 1 := ⟨width - 1, by omega⟩
      have hrest : (binary.digits (n / binary.radix)).leftpad width '0'
          = bitRow width (n / binary.radix) := ih (by omega)
      have hchar : (n % binary.radix).digitChar.toUpper = bitDigit (n.testBit 0) := by
        rw [Nat.testBit_zero]
        show (n % 2).digitChar.toUpper = _
        rcases Nat.mod_two_eq_zero_or_one n with hmod | hmod <;> rw [hmod] <;> rfl
      rw [digits_of_le hlarge, bitRow, ← hchar]
      rw [List.leftpad] at hrest ⊢
      rw [List.length_append, List.length_singleton, Nat.add_sub_add_right, ← List.append_assoc,
        hrest]
      rfl

/-! ### Words -/

/-- Zeros in front of a row are the first ones that it is filled up with. -/
theorem leftpad_replicate_append {count width : Nat} {row : Text}
    (h : count + row.length ≤ width) :
    (List.replicate count '0' ++ row).leftpad width '0' = row.leftpad width '0' := by
  rw [List.leftpad, List.leftpad, List.length_append, List.length_replicate, ← List.append_assoc,
    List.replicate_append_replicate]
  congr 2
  omega

theorem write_binary_eq (word : Word) :
    ∃ count, binary.write word = List.replicate count '0' ++ binary.digits word.toNat :=
  ⟨_, binary.write_eq word⟩

/-- The binary form of a word, filled up with zeros, is the row of its
bits. -/
theorem leftpad_write_binary {width : Nat} {word : Word}
    (h : (binary.write word).length ≤ width) :
    (binary.write word).leftpad width '0' = bitRow width word.toNat := by
  obtain ⟨count, hwrite⟩ := write_binary_eq word
  rw [hwrite, List.length_append, List.length_replicate] at h
  rw [hwrite, leftpad_replicate_append h, leftpad_digits_binary (by omega)]

/-- No bit of a word lies beyond its binary form. -/
theorem testBit_of_length_write_le {word : Word} {i : Nat}
    (h : (binary.write word).length ≤ i) : word.toNat.testBit i = false := by
  obtain ⟨count, hwrite⟩ := write_binary_eq word
  rw [hwrite, List.length_append, List.length_replicate] at h
  exact testBit_of_length_digits_le (by omega)

/-- A row that has all bits of a word is read as the word. -/
theorem read_bitRow {width : Nat} {word : Word} (hpos : 0 < width)
    (h : ∀ i, width ≤ i → word.toNat.testBit i = false) :
    binary.read (bitRow width word.toNat) = .ok word := by
  have hdigits := isDigit_of_mem_bitRow width word.toNat
  have htrim : Text.trim (bitRow width word.toNat) = bitRow width word.toNat :=
    Text.trim_eq_self_of_forall fun c hc => not_white_of_isDigit (hdigits c hc)
  have hne : bitRow width word.toNat ≠ [] := by
    rw [← List.length_pos_iff, length_bitRow]
    exact hpos
  have hvalue := placeValue_bitRow h
  have hread := readPattern_of_digits (bitRow width word.toNat) hne hdigits
    (by rw [hvalue]; exact word.isLt)
  simp only [read, htrim, hread, hvalue, BitVec.ofNat_toNat, BitVec.setWidth_eq]

end Base

end BaseConverter
