import BaseConverter.Expression.Arithmetic
import Mathlib.Data.Int.Basic

/-!
# `BaseConverter.Proofs.Expression.Arithmetic`: operators against the integers

What an operator does to two words is compared with what it means for the
integers that the words stand for. `Operator.exact` is the result over the
integers, which have no largest one, and `Operator.fault?` says when a
calculation with words has to break off and with which error. Neither
knows of words, apart from the limits and from the patterns that the
bitwise operators work on.

* `Operator.apply_eq`: an operator gives the word of the exact result, or
  breaks off with the fault.
* `Word.bitwise_eq`: the width that a bitwise operation is cut to never
  takes a bit away.
-/

set_option autoImplicit false

namespace BaseConverter

namespace Operator

/-- The result of an operator on integers. A quotient is rounded toward
negative infinity and a remainder has the sign of the dividend. The bitwise
operators work on the patterns of 64 bits. -/
def exact : Operator → Int → Int → Int
  | add, a, b => a + b
  | subtract, a, b => a - b
  | multiply, a, b => a * b
  | divide, a, b => a.fdiv b
  | modulo, a, b => a.tmod b
  | bitAnd, a, b => (BitVec.ofInt 64 a &&& BitVec.ofInt 64 b).toInt
  | bitOr, a, b => (BitVec.ofInt 64 a ||| BitVec.ofInt 64 b).toInt
  | bitXor, a, b => (BitVec.ofInt 64 a ^^^ BitVec.ofInt 64 b).toInt

/-- The overflow of a calculation whose result no word has. -/
def overflow? (calculation : Calculation) (result : Int) : Option ArithmeticError :=
  if Word.InRange result then none else some (.overflow calculation)

/-- Why a calculation with words breaks off at an operator, if it does. The
remainder of the smallest word by minus one is refused although it is zero,
because the quotient is no word. -/
def fault? : Operator → Int → Int → Option ArithmeticError
  | add, a, b => overflow? .addition (a + b)
  | subtract, a, b => overflow? .subtraction (a - b)
  | multiply, a, b => overflow? .multiplication (a * b)
  | divide, a, b => if b = 0 then some .divisionByZero else overflow? .division (a.fdiv b)
  | modulo, a, b =>
    if b = 0 then some .moduloByZero
    else if a = -Word.positiveCount ∧ b = -1 then some (.overflow .remainder)
    else none
  | bitAnd, _, _ => none
  | bitOr, _, _ => none
  | bitXor, _, _ => none

end Operator

namespace Word

/-! ### Results that are words -/

theorem inRange_iff (value : Int) :
    InRange value ↔ -0x8000000000000000 ≤ value ∧ value < 0x8000000000000000 :=
  Iff.rfl

theorem inRange_toInt (word : Word) : InRange word.toInt := by
  have hlo := BitVec.le_toInt word
  have hhi := BitVec.toInt_lt (x := word)
  exact ⟨by simpa using hlo, by simpa using hhi⟩

theorem toInt_ofInt {value : Int} (h : InRange value) : (BitVec.ofInt 64 value).toInt = value :=
  toInt_of_ofInt? (if_pos h)

theorem toInt_eq_zero_iff (word : Word) : word.toInt = 0 ↔ word = 0 := by
  rw [← BitVec.toInt_inj, show (0 : Word).toInt = 0 from rfl]

/-- A checked result is the word of the exact one, or the overflow. -/
theorem checked_eq (calculation : Calculation) (result : Int) :
    checked calculation result = match Operator.overflow? calculation result with
      | some error => .error error
      | none => .ok (BitVec.ofInt 64 result) := by
  unfold checked ofInt? Operator.overflow?
  by_cases h : InRange result
  · rw [if_pos h, if_pos h]
  · rw [if_neg h, if_neg h]

theorem inRange_of_overflow?_eq_none {calculation : Calculation} {result : Int}
    (h : Operator.overflow? calculation result = none) : InRange result := by
  unfold Operator.overflow? at h
  split at h
  · assumption
  · cases h

/-! ### The remainder -/

/-- A quotient of words rounded toward zero is a word, unless the smallest
word is divided by minus one. -/
theorem inRange_tdiv_iff (a b : Word) :
    InRange (a.toInt.tdiv b.toInt) ↔ ¬(a.toInt = -positiveCount ∧ b.toInt = -1) := by
  have ha := (inRange_iff _).mp a.inRange_toInt
  rw [inRange_iff]
  generalize a.toInt = m at ha ⊢
  generalize b.toInt = n
  have hquotient : (m.tdiv n).natAbs = m.natAbs / n.natAbs := Int.natAbs_tdiv m n
  by_cases hneg : n = -1
  · subst hneg
    rw [Int.tdiv_neg, Int.tdiv_one]
    show _ ↔ ¬(m = -0x8000000000000000 ∧ _)
    omega
  · by_cases hone : n = 1
    · subst hone
      rw [Int.tdiv_one]
      omega
    · -- Any other divisor at least halves the dividend.
      have hhalf : m.natAbs / n.natAbs ≤ m.natAbs / 2 := by
        by_cases hzero : n = 0
        · subst hzero
          simp
        · exact Nat.div_le_div_left (by omega) (by omega)
      omega

/-- A remainder of words is a word. -/
theorem inRange_tmod (a b : Word) : InRange (a.toInt.tmod b.toInt) := by
  have ha := (inRange_iff _).mp a.inRange_toInt
  have hb := (inRange_iff _).mp b.inRange_toInt
  rw [inRange_iff]
  generalize a.toInt = m at ha ⊢
  generalize b.toInt = n at hb ⊢
  by_cases hzero : n = 0
  · subst hzero
    rw [Int.tmod_zero]
    exact ha
  · -- It is smaller than the divisor, which is a word.
    have hremainder : (m.tmod n).natAbs = m.natAbs % n.natAbs := Int.natAbs_tmod m n
    have hlt : m.natAbs % n.natAbs < n.natAbs := Nat.mod_lt _ (by omega)
    omega

/-! ### The quotient -/

/-- The quotient rounded toward negative infinity is the one rounded toward
zero, less one when there is a remainder on the other side of zero than the
divisor. -/
theorem fdiv_eq_tdiv_sub {m n : Int} (hn : n ≠ 0) :
    m.fdiv n = m.tdiv n - if m.tmod n ≠ 0 ∧ ¬(m.tmod n < 0 ↔ n < 0) then 1 else 0 := by
  rw [Int.fdiv_eq_tdiv]
  by_cases hdvd : n ∣ m
  · have hzero : m.tmod n = 0 := Int.dvd_iff_tmod_eq_zero.mp hdvd
    simp [hdvd, hzero]
  · -- What is left has the sign of the dividend.
    have hrest : m.tmod n ≠ 0 := mt Int.dvd_iff_tmod_eq_zero.mpr hdvd
    have hsign : m.tmod n < 0 ↔ m < 0 := by
      rw [← Int.sign_eq_neg_one_iff_neg, Int.sign_tmod, if_neg hdvd, Int.sign_eq_neg_one_iff_neg]
    simp only [if_neg hdvd, hsign, ne_eq, hrest, not_false_eq_true, true_and]
    rcases Int.lt_or_gt_of_ne hn with hneg | hpos
    · rw [Int.sign_eq_neg_one_of_neg hneg]
      split_ifs <;> omega
    · rw [Int.sign_eq_one_of_pos hpos]
      split_ifs <;> omega

/-- A quotient of words rounded toward negative infinity is a word as often as
the one rounded toward zero is. Where one is taken away from this, the divisor
has halved it before. -/
theorem inRange_fdiv_iff (a b : Word) :
    InRange (a.toInt.fdiv b.toInt) ↔ ¬(a.toInt = -positiveCount ∧ b.toInt = -1) := by
  have ha := (inRange_iff _).mp a.inRange_toInt
  by_cases hb : b.toInt = 0
  · rw [hb, Int.fdiv_zero, inRange_iff]
    omega
  · rw [← inRange_tdiv_iff, fdiv_eq_tdiv_sub hb, inRange_iff, inRange_iff]
    generalize a.toInt = m at ha ⊢
    generalize b.toInt = n at hb ⊢
    split
    · rename_i hrest
      have hquotient : (m.tdiv n).natAbs = m.natAbs / n.natAbs := Int.natAbs_tdiv m n
      have hremainder : (m.tmod n).natAbs = m.natAbs % n.natAbs := Int.natAbs_tmod m n
      -- Division by one or minus one leaves no remainder.
      have htwo : 2 ≤ n.natAbs := by
        by_contra hone
        have hn : n.natAbs = 1 := by omega
        rw [hn, Nat.mod_one] at hremainder
        exact hrest.1 (Int.natAbs_eq_zero.mp hremainder)
      have hhalf : m.natAbs / n.natAbs ≤ m.natAbs / 2 := Nat.div_le_div_left htwo (by decide)
      omega
    · rw [Int.sub_zero]

theorem checked_of_inRange {calculation : Calculation} {result : Int} (h : InRange result) :
    checked calculation result = .ok (BitVec.ofInt 64 result) := by
  rw [checked_eq, Operator.overflow?, if_pos h]

theorem checked_of_not_inRange {calculation : Calculation} {result : Int} (h : ¬ InRange result) :
    checked calculation result = .error (.overflow calculation) := by
  rw [checked_eq, Operator.overflow?, if_neg h]

/-- The steps of a division lead to the quotient rounded toward negative
infinity. Taking one away never leaves the words. -/
theorem quotient_eq (a b : Word) :
    quotient a b = if b = 0 then .error .divisionByZero
      else checked .division (a.toInt.fdiv b.toInt) := by
  unfold quotient
  by_cases hb : b = 0
  · rw [if_pos hb, if_pos hb]
  · rw [if_neg hb, if_neg hb]
    have hne : b.toInt ≠ 0 := mt b.toInt_eq_zero_iff.mp hb
    by_cases hmin : a.toInt = -positiveCount ∧ b.toInt = -1
    · have htruncated := mt (inRange_tdiv_iff a b).mp (not_not_intro hmin)
      have hfloor := mt (inRange_fdiv_iff a b).mp (not_not_intro hmin)
      rw [checked_of_not_inRange htruncated, checked_of_not_inRange hfloor]
      rfl
    · have htruncated := (inRange_tdiv_iff a b).mpr hmin
      rw [checked_of_inRange htruncated, checked_of_inRange (inRange_tmod a b),
        fdiv_eq_tdiv_sub hne]
      show (if _ then checked .division _ else Except.ok _) = _
      rw [toInt_ofInt htruncated, toInt_ofInt (inRange_tmod a b)]
      split
      · rfl
      · rw [Int.sub_zero, checked_of_inRange htruncated]

/-! ### Bits -/

/-- Above the bits that a word shows there are none. -/
theorem getLsbD_of_shownWidth_le {word : Word} {i : Nat} (h : word.shownWidth ≤ i) :
    word.getLsbD i = false := by
  have hlength : word.toNat.log2 + 1 ≤ i := by
    unfold shownWidth bitLength wholeUnits at h
    omega
  rw [← BitVec.testBit_toNat]
  exact Nat.testBit_lt_two_pow
    (Nat.lt_of_lt_of_le Nat.lt_log2_self (Nat.pow_le_pow_right (by decide) hlength))

/-- A word whose bits all lie below a width is not cut by it. -/
theorem lowBits_eq_self {width : Nat} {word : Word}
    (h : ∀ i, width ≤ i → word.getLsbD i = false) : lowBits width word = word := by
  refine BitVec.eq_of_getLsbD_eq fun i hi => ?_
  rw [lowBits, BitVec.getLsbD_setWidth, BitVec.getLsbD_setWidth]
  by_cases hwidth : i < width
  · simp [hwidth, hi]
  · rw [h i (Nat.le_of_not_lt hwidth)]
    simp

/-- An operation that works on each bit by itself and makes no bit out of
two zeros is not cut by the width of its operands. -/
theorem bitwise_eq {combine : Word → Word → Word} (a b : Word)
    (hzero : ∀ i, a.getLsbD i = false → b.getLsbD i = false → (combine a b).getLsbD i = false) :
    bitwise combine a b = combine a b := by
  refine lowBits_eq_self fun i hi => ?_
  exact hzero i (getLsbD_of_shownWidth_le (Nat.le_trans (Nat.le_max_left _ _) hi))
    (getLsbD_of_shownWidth_le (Nat.le_trans (Nat.le_max_right _ _) hi))

end Word

/-! ### Every operator -/

namespace Operator

/-- An operator breaks off with the fault of the integers, or gives the word
of their result. -/
theorem apply_eq (op : Operator) (a b : Word) :
    op.apply a b = match op.fault? a.toInt b.toInt with
      | some error => .error error
      | none => .ok (BitVec.ofInt 64 (op.exact a.toInt b.toInt)) := by
  have hzero := b.toInt_eq_zero_iff
  have hbitwise : ∀ combine : Word → Word → Word,
      (∀ i, a.getLsbD i = false → b.getLsbD i = false → (combine a b).getLsbD i = false) →
      (.ok (Word.bitwise combine a b) : Except ArithmeticError Word)
        = .ok (BitVec.ofInt 64
            (combine (BitVec.ofInt 64 a.toInt) (BitVec.ofInt 64 b.toInt)).toInt) := by
    intro combine hbits
    rw [Word.bitwise_eq a b hbits, BitVec.ofInt_toInt, BitVec.ofInt_toInt, BitVec.ofInt_toInt]
  cases op with
  | add => exact Word.checked_eq _ _
  | subtract => exact Word.checked_eq _ _
  | multiply => exact Word.checked_eq _ _
  | divide =>
      show Word.quotient a b = _
      by_cases hb : b = 0
      · rw [Word.quotient_eq, fault?, if_pos hb, if_pos (hzero.mpr hb)]
      · rw [Word.quotient_eq, fault?, if_neg hb, if_neg (mt hzero.mp hb)]
        exact Word.checked_eq _ _
  | modulo =>
      show Word.remainder a b = _
      by_cases hb : b = 0
      · rw [Word.remainder, fault?, if_pos hb, if_pos (hzero.mpr hb)]
      · rw [Word.remainder, fault?, if_neg hb, if_neg (mt hzero.mp hb)]
        by_cases hmin : a.toInt = -Word.positiveCount ∧ b.toInt = -1
        · have hrange : ¬ Word.InRange (a.toInt.tdiv b.toInt) := by
            rw [Word.inRange_tdiv_iff]
            exact not_not_intro hmin
          rw [if_pos hmin, if_neg hrange]
        · rw [if_neg hmin, if_pos ((a.inRange_tdiv_iff b).mpr hmin), Word.checked_eq, overflow?,
            if_pos (a.inRange_tmod b)]
          rfl
  | bitAnd => exact hbitwise (· &&& ·) fun i ha hb => by simp [ha, hb]
  | bitOr => exact hbitwise (· ||| ·) fun i ha hb => by simp [ha, hb]
  | bitXor => exact hbitwise (· ^^^ ·) fun i ha hb => by simp [ha, hb]

/-- A calculation that does not break off has the value of a word as its
result. -/
theorem inRange_exact {op : Operator} {a b : Word} (h : op.fault? a.toInt b.toInt = none) :
    Word.InRange (op.exact a.toInt b.toInt) := by
  cases op with
  | add => exact Word.inRange_of_overflow?_eq_none h
  | subtract => exact Word.inRange_of_overflow?_eq_none h
  | multiply => exact Word.inRange_of_overflow?_eq_none h
  | divide =>
      rw [fault?] at h
      split at h
      · cases h
      · exact Word.inRange_of_overflow?_eq_none h
  | modulo => exact a.inRange_tmod b
  | bitAnd => exact Word.inRange_toInt _
  | bitOr => exact Word.inRange_toInt _
  | bitXor => exact Word.inRange_toInt _

theorem apply_of_fault {op : Operator} {a b : Word} {error : ArithmeticError}
    (h : op.fault? a.toInt b.toInt = some error) : op.apply a b = .error error := by
  rw [apply_eq, h]

theorem exists_apply_of_no_fault {op : Operator} {a b : Word}
    (h : op.fault? a.toInt b.toInt = none) :
    ∃ result, op.apply a b = .ok result ∧ result.toInt = op.exact a.toInt b.toInt := by
  refine ⟨BitVec.ofInt 64 (op.exact a.toInt b.toInt), ?_, Word.toInt_ofInt (inRange_exact h)⟩
  rw [apply_eq, h]

end Operator

end BaseConverter
