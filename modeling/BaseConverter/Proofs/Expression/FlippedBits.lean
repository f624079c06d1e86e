import BaseConverter.Proofs.Expression.Arithmetic
import BaseConverter.Proofs.Numeral.Bits

/-!
# `BaseConverter.Proofs.Expression.FlippedBits`: the complement flips what is shown

The complement of a word flips the bits that the binary form of the word
shows. How many these are is found in two ways: the complement takes the
length of the pattern and rounds it up to whole bytes, the written form counts
its digits and fills them up with zeros. `Base.length_write_binary_eq` says
that both come to the same, and so the complement is what is read from the
flipped digits.

The complement may show fewer bits than the word, and then its own complement
does not flip all of them back. This happens exactly when the first byte of
several that the word shows is all ones. The width is known from the bits that
are set (`Word.shownWidth_le_iff`), so the question is whether one of the bits
of the first byte is set in the complement.

* `Word.complement_flips` is the main statement.
-/

set_option autoImplicit false

namespace BaseConverter

/-- The other one of the two binary digits. -/
def flipDigit (c : Char) : Char :=
  if c = '1' then '0' else '1'

theorem flipDigit_bitDigit (bit : Bool) : flipDigit (bitDigit bit) = bitDigit (!bit) := by
  cases bit <;> rfl

/-! ### Rows of bits -/

/-- A row is flipped by flipping the bits that it shows. -/
theorem map_flipDigit_bitRow {width n k : Nat} (h : ∀ i < width, k.testBit i = !n.testBit i) :
    (bitRow width n).map flipDigit = bitRow width k := by
  induction width generalizing n k with
  | zero => rfl
  | succ width ih =>
      have hhalf : ∀ i < width, (k / 2).testBit i = !(n / 2).testBit i := by
        intro i hi
        rw [← Nat.testBit_succ, ← Nat.testBit_succ]
        exact h (i + 1) (Nat.succ_lt_succ hi)
      rw [bitRow, bitRow, List.map_append, ih hhalf, List.map_singleton, flipDigit_bitDigit,
        h 0 (Nat.zero_lt_succ width)]

/-- The first bits of a row are those of the number without its last bits. -/
theorem bitRow_add (first last n : Nat) :
    bitRow (first + last) n = bitRow first (n >>> last) ++ bitRow last n := by
  induction last generalizing n with
  | zero => rw [Nat.add_zero, bitRow, List.append_nil, Nat.shiftRight_zero]
  | succ last ih =>
      rw [← Nat.add_assoc, bitRow, bitRow, ih (n / 2), List.append_assoc,
        Nat.shiftRight_succ_inside]

/-- A row of ones shows that all bits are set. -/
theorem bitRow_eq_replicate_iff (width n : Nat) :
    bitRow width n = List.replicate width '1' ↔ ∀ i < width, n.testBit i = true := by
  induction width generalizing n with
  | zero => simp [bitRow]
  | succ width ih =>
      have hlast : bitDigit (n.testBit 0) = '1' ↔ n.testBit 0 = true := by
        cases n.testBit 0 <;> decide
      rw [bitRow, List.replicate_succ', List.append_singleton_inj, ih, hlast,
        Nat.forall_lt_succ_left, and_comm]
      simp only [Nat.testBit_succ]

/-! ### The width that is shown -/

/-- The binary digits of a number are as many as its pattern is long. -/
theorem Base.length_digits_binary (n : Nat) : (binary.digits n).length = n.log2 + 1 := by
  induction n using binary.digits_induction with
  | last n hsmall =>
      have htwo : n < 2 := hsmall
      rw [digits_of_lt hsmall, List.length_singleton, Nat.log2_def, if_neg (by omega)]
  | more n hlarge ih =>
      have htwo : 2 ≤ n := hlarge
      rw [digits_of_le hlarge, List.length_append, ih, List.length_singleton, Nat.log2_def n,
        if_pos htwo]
      rfl

/-- The written form fills its digits up to the width that is taken from the
pattern. -/
theorem Base.length_write_binary_eq (word : Word) :
    (binary.write word).length = word.shownWidth := by
  have hlength : (binary.digits word.toNat).length = word.bitLength :=
    length_digits_binary word.toNat
  rw [write_eq]
  show (List.replicate (wholeUnits 8 (binary.digits word.toNat).length
    - (binary.digits word.toNat).length) '0' ++ binary.digits word.toNat).length
    = wholeUnits 8 word.bitLength
  rw [List.length_append, List.length_replicate, hlength]
  unfold wholeUnits
  omega

/-- The written form is the row of the bits that are shown. -/
theorem Base.write_binary_eq_bitRow (word : Word) :
    binary.write word = bitRow word.shownWidth word.toNat := by
  have hwidth := length_write_binary_eq word
  rw [← leftpad_write_binary (Nat.le_of_eq hwidth), List.leftpad, hwidth, Nat.sub_self]
  rfl

namespace Word

/-- A word shows whole bytes, and at least one. -/
theorem exists_shownWidth_eq (word : Word) : ∃ bytes, word.shownWidth = 8 * (bytes + 1) := by
  refine ⟨word.shownWidth / 8 - 1, ?_⟩
  unfold shownWidth wholeUnits
  omega

/-- A word shows no more than some bytes exactly when no bit beyond these is
set. -/
theorem shownWidth_le_iff (word : Word) {bytes : Nat} (hpos : 0 < bytes) :
    word.shownWidth ≤ 8 * bytes ↔ ∀ i, 8 * bytes ≤ i → word.getLsbD i = false := by
  constructor
  · exact fun h i hi => getLsbD_of_shownWidth_le (Nat.le_trans h hi)
  · intro h
    by_contra hlt
    -- The highest bit that is set would lie beyond the bytes.
    have hhigh : 8 * bytes ≤ word.toNat.log2 := by
      unfold shownWidth bitLength wholeUnits at hlt
      omega
    have hne : word.toNat ≠ 0 := by
      intro hzero
      rw [hzero, Nat.log2_zero] at hhigh
      omega
    have hset := Nat.testBit_log2 hne
    rw [BitVec.testBit_toNat, h _ hhigh] at hset
    cases hset

theorem shownWidth_le (word : Word) : word.shownWidth ≤ 64 := by
  show word.shownWidth ≤ 8 * 8
  exact (word.shownWidth_le_iff (by decide)).mpr fun _ hi => BitVec.getLsbD_of_ge _ _ hi

/-! ### The complement -/

/-- The bits that are shown are flipped, and there are no others. -/
theorem getLsbD_complement (word : Word) (i : Nat) :
    word.complement.getLsbD i = (decide (i < word.shownWidth) && !word.getLsbD i) := by
  have hle := word.shownWidth_le
  rw [complement, lowBits, BitVec.getLsbD_setWidth, BitVec.getLsbD_setWidth, BitVec.getLsbD_not]
  by_cases hi : i < word.shownWidth
  · have hword : i < 64 := by omega
    simp [hi, hword]
  · simp [hi]

theorem shownWidth_complement_le (word : Word) :
    word.complement.shownWidth ≤ word.shownWidth := by
  obtain ⟨bytes, hwidth⟩ := word.exists_shownWidth_eq
  rw [hwidth, shownWidth_le_iff _ (Nat.zero_lt_succ bytes)]
  intro i hi
  rw [getLsbD_complement, hwidth]
  simp [Nat.not_lt.mpr hi]

/-- A second complement flips everything back exactly when it works on as many
bits as the first. -/
theorem complement_complement_eq_iff (word : Word) :
    word.complement.complement = word ↔ word.complement.shownWidth = word.shownWidth := by
  constructor
  · intro h
    obtain ⟨bytes, hwidth⟩ := word.complement.exists_shownWidth_eq
    refine Nat.le_antisymm word.shownWidth_complement_le ?_
    -- What the second complement shows lies within the width of the first.
    rw [hwidth, shownWidth_le_iff _ (Nat.zero_lt_succ bytes), ← hwidth]
    intro i hi
    rw [← h]
    exact getLsbD_of_shownWidth_le (Nat.le_trans word.complement.shownWidth_complement_le hi)
  · intro h
    refine BitVec.eq_of_getLsbD_eq fun i _ => ?_
    rw [getLsbD_complement, getLsbD_complement, h]
    by_cases hi : i < word.shownWidth
    · simp [hi]
    · simp [hi, getLsbD_of_shownWidth_le (Nat.le_of_not_lt hi)]

/-- The complement of a word that shows several bytes shows as many exactly
when the first of them is not all ones. -/
theorem shownWidth_complement_eq_iff {word : Word} {bytes : Nat}
    (hwidth : word.shownWidth = 8 * (bytes + 1)) :
    word.complement.shownWidth = word.shownWidth
      ↔ bytes = 0 ∨ ¬ ∀ i < 8, word.getLsbD (8 * bytes + i) = true := by
  obtain ⟨others, hothers⟩ := word.complement.exists_shownWidth_eq
  have hle := word.shownWidth_complement_le
  rcases Nat.eq_zero_or_pos bytes with rfl | hpos
  · exact iff_of_true (by omega) (.inl rfl)
  · -- The complement is narrower when none of its bits is in the first byte.
    have hnarrow : word.complement.shownWidth ≤ 8 * bytes
        ↔ ∀ i < 8, word.getLsbD (8 * bytes + i) = true := by
      rw [shownWidth_le_iff _ hpos]
      constructor
      · intro h i hi
        have hbit := h (8 * bytes + i) (Nat.le_add_right _ _)
        rw [getLsbD_complement, hwidth] at hbit
        simpa [show 8 * bytes + i < 8 * (bytes + 1) by omega] using hbit
      · intro h i hi
        rw [getLsbD_complement, hwidth]
        by_cases hlt : i < 8 * (bytes + 1)
        · have hbit := h (i - 8 * bytes) (by omega)
          rw [Nat.add_sub_of_le hi] at hbit
          simp [hbit]
        · simp [hlt]
    rw [← hnarrow]
    omega

/-- The digits of a word with every one of them flipped are read as the
complement. -/
theorem read_map_flipDigit_write (word : Word) :
    Base.binary.read ((Base.binary.write word).map flipDigit) = .ok word.complement := by
  obtain ⟨bytes, hwidth⟩ := word.exists_shownWidth_eq
  have hbits : ∀ i < word.shownWidth,
      word.complement.toNat.testBit i = !word.toNat.testBit i := by
    intro i hi
    rw [BitVec.testBit_toNat, BitVec.testBit_toNat, getLsbD_complement]
    simp [hi]
  rw [Base.write_binary_eq_bitRow, map_flipDigit_bitRow hbits]
  refine Base.read_bitRow (by omega) fun i hi => ?_
  rw [BitVec.testBit_toNat]
  exact getLsbD_of_shownWidth_le (Nat.le_trans word.shownWidth_complement_le hi)

/-- The first digits of a word are ones when the bits of its first byte are. -/
theorem take_write_binary_eq_iff {word : Word} {bytes : Nat}
    (hwidth : word.shownWidth = 8 * (bytes + 1)) :
    (Base.binary.write word).take 8 = List.replicate 8 '1'
      ↔ ∀ i < 8, word.getLsbD (8 * bytes + i) = true := by
  rw [Base.write_binary_eq_bitRow, hwidth, Nat.mul_succ, Nat.add_comm, bitRow_add,
    List.take_left' (length_bitRow _ _), bitRow_eq_replicate_iff]
  simp only [Nat.testBit_shiftRight, BitVec.testBit_toNat]

/-- The complement of a word is read from its binary form with every digit
flipped. The complement of the complement is the word itself exactly when the
word shows a single byte, or the first byte that it shows is not all ones. -/
theorem complement_flips (word : Word) :
    Base.binary.read ((Base.binary.write word).map flipDigit) = .ok word.complement
    ∧ (word.complement.complement = word
      ↔ (Base.binary.write word).length = 8
        ∨ (Base.binary.write word).take 8 ≠ List.replicate 8 '1') := by
  refine ⟨read_map_flipDigit_write word, ?_⟩
  obtain ⟨bytes, hwidth⟩ := word.exists_shownWidth_eq
  have hsingle : word.shownWidth = 8 ↔ bytes = 0 := by omega
  rw [complement_complement_eq_iff, shownWidth_complement_eq_iff hwidth, ne_eq,
    take_write_binary_eq_iff hwidth, Base.length_write_binary_eq, hsingle]

-- The complement of `0xFF00` shows one byte, and its complement is zero.
example : complement 0xFF00 = 0xFF ∧ complement (complement 0xFF00) = 0 := by decide

end Word

end BaseConverter
