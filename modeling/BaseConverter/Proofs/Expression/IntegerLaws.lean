import BaseConverter.Proofs.Expression.Arithmetic
import Mathlib.Algebra.Order.Ring.Int
import Mathlib.Data.List.Nodup

/-!
# `BaseConverter.Proofs.Expression.IntegerLaws`: the law of each operator

The arithmetic operators and the shifts are calculated on words. Here each of
them is held against a law of the integers that its operands stand for, and
against a list of the cases in which it fails. `Word.Obeys` says that an
operator fails with an error in the case that goes with it and in no other,
and has a word that obeys the law in all other cases.

A quotient is calculated in two steps: it is rounded toward zero first, and
one is taken away from it when a remainder is left on the other side of zero.
By `Word.quotient_eq` this leads to the quotient rounded toward negative
infinity, and the second step never overflows. A remainder is described by
what it must be: it has the sign of the dividend, is smaller than the divisor,
and the divisor divides what is left without it. A shift multiplies or divides
by a power of two, once its amount is known to be one of 64.

* `Word.apply_obeys` is the main statement.
-/

set_option autoImplicit false

namespace BaseConverter.Word

/-- A calculation fails with each error of a list exactly in the case that
stands beside it. When none of these is the case it has a word, and the value
of the word obeys a law. -/
structure Obeys (failures : List (ArithmeticError × Prop)) (law : Int → Prop)
    (result : Except ArithmeticError Word) : Prop where
  /-- The errors of the list occur in their cases and in no others. -/
  fails : ∀ failure ∈ failures, result = .error failure.1 ↔ failure.2
  /-- In all other cases there is a word. -/
  works : (∀ failure ∈ failures, ¬ failure.2) → ∃ word : Word, result = .ok word ∧ law word.toInt

/-- When the errors of the list are different, none of them can occur in the
case of another or in no case at all. -/
theorem Obeys.of_fails {failures : List (ArithmeticError × Prop)} {law : Int → Prop}
    {result : Except ArithmeticError Word} (hdistinct : (failures.map Prod.fst).Nodup)
    (hfails : ∀ failure ∈ failures, failure.2 → result = .error failure.1)
    (hworks : (∀ failure ∈ failures, ¬ failure.2) →
      ∃ word : Word, result = .ok word ∧ law word.toInt) :
    Obeys failures law result := by
  refine ⟨fun failure hmem => ⟨fun herror => ?_, hfails failure hmem⟩, hworks⟩
  by_cases hnone : ∀ other ∈ failures, ¬ other.2
  · obtain ⟨word, hword, -⟩ := hworks hnone
    rw [herror] at hword
    cases hword
  · push Not at hnone
    obtain ⟨other, hother, hcase⟩ := hnone
    have hsame : failure.1 = other.1 :=
      Except.error.inj (herror.symm.trans (hfails other hother hcase))
    rwa [List.inj_on_of_nodup_map hdistinct hmem hother hsame]

/-! ### Addition, subtraction and multiplication -/

/-- A checked result is the exact one, or it overflows. -/
theorem obeys_checked (calculation : Calculation) (result : Int) :
    Obeys [(.overflow calculation, ¬ InRange result)] (· = result)
      (checked calculation result) := by
  refine .of_fails (List.nodup_singleton _) ?_ ?_
  · simpa using checked_of_not_inRange
  · intro h
    have hrange : InRange result := by simpa using h
    exact ⟨_, checked_of_inRange hrange, toInt_ofInt hrange⟩

/-! ### Division -/

/-- A division fails when the divisor is zero or the smallest word is divided
by minus one. -/
theorem obeys_division {zero overflow : ArithmeticError} (hdistinct : zero ≠ overflow)
    {a b : Word} {law : Int → Prop} {result : Except ArithmeticError Word}
    (hzero : b = 0 → result = .error zero)
    (hmin : b ≠ 0 → a.toInt = -positiveCount ∧ b.toInt = -1 → result = .error overflow)
    (hworks : b ≠ 0 → ¬(a.toInt = -positiveCount ∧ b.toInt = -1) →
      ∃ word : Word, result = .ok word ∧ law word.toInt) :
    Obeys [(zero, b.toInt = 0), (overflow, a.toInt = -positiveCount ∧ b.toInt = -1)] law
      result := by
  have hb := toInt_eq_zero_iff b
  refine .of_fails (by simpa using hdistinct) ?_ ?_
  · rw [List.forall_mem_cons, List.forall_mem_singleton]
    refine ⟨fun h => hzero (hb.mp h), fun h => hmin (mt hb.mpr ?_) h⟩
    rw [h.2]
    decide
  · rw [List.forall_mem_cons, List.forall_mem_singleton]
    exact fun h => hworks (mt hb.mpr h.1) h.2

/-- A quotient is rounded toward negative infinity. -/
theorem obeys_quotient (a b : Word) :
    Obeys [(.divisionByZero, b.toInt = 0),
        (.overflow .division, a.toInt = -positiveCount ∧ b.toInt = -1)]
      (· = a.toInt.fdiv b.toInt) (quotient a b) := by
  have hrange := inRange_fdiv_iff a b
  rw [quotient_eq]
  refine obeys_division (by decide) (fun hzero => if_pos hzero) (fun hne hmin => ?_)
    fun hne hmin => ?_
  · rw [if_neg hne, checked_of_not_inRange (mt hrange.mp (not_not_intro hmin))]
  · rw [if_neg hne, checked_of_inRange (hrange.mpr hmin)]
    exact ⟨_, rfl, toInt_ofInt (hrange.mpr hmin)⟩

/-- The remainder of a division rounded toward zero has the sign of the
dividend, is smaller than the divisor, and the divisor divides the rest. -/
theorem tmod_law (m : Int) {n : Int} (hn : n ≠ 0) :
    (m.tmod n = 0 ∨ (m.tmod n).sign = m.sign) ∧ (m.tmod n).natAbs < n.natAbs
      ∧ n ∣ m - m.tmod n := by
  refine ⟨?_, ?_, Int.dvd_self_sub_tmod⟩
  · by_cases hdvd : n ∣ m
    · exact .inl (Int.dvd_iff_tmod_eq_zero.mp hdvd)
    · rw [Int.sign_tmod, if_neg hdvd]
      exact .inr rfl
  · rw [Int.natAbs_tmod]
    exact Nat.mod_lt _ (Int.natAbs_pos.mpr hn)

/-- A remainder has the sign of the dividend. -/
theorem obeys_remainder (a b : Word) :
    Obeys [(.moduloByZero, b.toInt = 0),
        (.overflow .remainder, a.toInt = -positiveCount ∧ b.toInt = -1)]
      (fun r => (r = 0 ∨ r.sign = a.toInt.sign) ∧ r.natAbs < b.toInt.natAbs
        ∧ b.toInt ∣ a.toInt - r) (remainder a b) := by
  have hrange := inRange_tdiv_iff a b
  have hrest := inRange_tmod a b
  unfold remainder
  refine obeys_division (by decide) (fun hzero => if_pos hzero) (fun hne hmin => ?_)
    fun hne hmin => ?_
  · rw [if_neg hne, if_neg (mt hrange.mp (not_not_intro hmin))]
  · rw [if_neg hne, if_pos (hrange.mpr hmin), checked_of_inRange hrest]
    refine ⟨_, rfl, ?_⟩
    rw [toInt_ofInt hrest]
    exact tmod_law a.toInt (mt (toInt_eq_zero_iff b).mp hne)

/-! ### Shifts -/

/-- A word that is shifted to the left is multiplied by a power of two, and
what goes beyond the 64 bits is dropped. -/
theorem toInt_shiftLeft (word : Word) (count : Nat) :
    (word <<< count).toInt = (word.toInt * 2 ^ count).bmod patternCount := by
  rw [BitVec.toInt_shiftLeft, BitVec.toInt_eq_toNat_bmod word]
  show _ = (Int.bmod _ patternCount * _).bmod patternCount
  rw [Int.bmod_mul_bmod, Nat.shiftLeft_eq]
  push_cast
  rfl

/-- A word that is shifted to the right is divided by a power of two. -/
theorem toInt_sshiftRight (word : Word) (count : Nat) :
    (word.sshiftRight count).toInt = word.toInt.fdiv (2 ^ count) := by
  have hpos : (0 : Int) ≤ 2 ^ count := Int.le_of_lt (Int.pow_pos (by decide))
  rw [BitVec.toInt_sshiftRight, Int.shiftRight_eq_div_pow, Int.fdiv_eq_ediv_of_nonneg _ hpos,
    Int.natCast_pow]
  rfl

/-- A shift fails when its amount is not from 0 to 63. -/
theorem obeys_shift {direction : Shift} {word amount shifted : Word} {law : Int → Prop}
    (happly : 0 ≤ amount.toInt ∧ amount.toInt < 64 → direction.apply word amount = .ok shifted)
    (hlaw : amount.toNat = amount.toInt.toNat → law shifted.toInt) :
    Obeys [(.shiftOutOfRange amount, amount.toInt < 0 ∨ 63 < amount.toInt)] law
      (direction.apply word amount) := by
  refine .of_fails (List.nodup_singleton _) ?_ ?_
  · rw [List.forall_mem_singleton]
    intro h
    exact if_neg (by omega)
  · rw [List.forall_mem_singleton]
    intro h
    have hcount : amount.toNat = amount.toInt.toNat := by
      rw [BitVec.toInt_eq_toNat_cond] at h ⊢
      omega
    exact ⟨shifted, happly (by omega), hlaw hcount⟩

/-- The operators on two words have the exact results of the integers. Each
one fails in the cases that are listed with it, with the error that is listed
with them, and in no other case: a sum, a difference or a product that no word
has, a divisor that is zero, the smallest word divided by minus one, and a
shift amount that is not from 0 to 63. -/
theorem apply_obeys (a b : Word) :
    Obeys [(.overflow .addition, ¬ InRange (a.toInt + b.toInt))]
      (· = a.toInt + b.toInt) (Operator.add.apply a b)
    ∧ Obeys [(.overflow .subtraction, ¬ InRange (a.toInt - b.toInt))]
      (· = a.toInt - b.toInt) (Operator.subtract.apply a b)
    ∧ Obeys [(.overflow .multiplication, ¬ InRange (a.toInt * b.toInt))]
      (· = a.toInt * b.toInt) (Operator.multiply.apply a b)
    ∧ Obeys [(.divisionByZero, b.toInt = 0),
        (.overflow .division, a.toInt = -positiveCount ∧ b.toInt = -1)]
      (· = a.toInt.fdiv b.toInt) (Operator.divide.apply a b)
    ∧ Obeys [(.moduloByZero, b.toInt = 0),
        (.overflow .remainder, a.toInt = -positiveCount ∧ b.toInt = -1)]
      (fun r => (r = 0 ∨ r.sign = a.toInt.sign) ∧ r.natAbs < b.toInt.natAbs
        ∧ b.toInt ∣ a.toInt - r) (Operator.modulo.apply a b)
    ∧ Obeys [(.shiftOutOfRange b, b.toInt < 0 ∨ 63 < b.toInt)]
      (· = (a.toInt * 2 ^ b.toInt.toNat).bmod patternCount) (Shift.left.apply a b)
    ∧ Obeys [(.shiftOutOfRange b, b.toInt < 0 ∨ 63 < b.toInt)]
      (· = a.toInt.fdiv (2 ^ b.toInt.toNat)) (Shift.right.apply a b) := by
  refine ⟨obeys_checked .addition _, obeys_checked .subtraction _, obeys_checked .multiplication _,
    obeys_quotient a b, obeys_remainder a b, ?_, ?_⟩
  · refine obeys_shift (fun h => if_pos h) fun hcount => ?_
    rw [← hcount]
    exact toInt_shiftLeft a b.toNat
  · refine obeys_shift (fun h => if_pos h) fun hcount => ?_
    rw [← hcount]
    exact toInt_sshiftRight a b.toNat

-- Minus seven divided by two leaves minus one, and the quotient goes down to minus four.
example : Operator.divide.apply (-7) 2 = .ok (-4) ∧ Operator.modulo.apply (-7) 2 = .ok (-1) :=
  ⟨rfl, rfl⟩

end BaseConverter.Word
