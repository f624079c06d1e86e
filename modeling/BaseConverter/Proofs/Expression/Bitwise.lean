import BaseConverter.Proofs.Expression.Arithmetic
import BaseConverter.Proofs.Numeral.Bits

/-!
# `BaseConverter.Proofs.Expression.Bitwise`: bitwise operators three ways

A bitwise operator takes two words at the width that the longer one shows, and
cuts its result to that width. Two other descriptions know of no such width:

* The operator combines the patterns of all 64 bits.
* It combines the written forms digit by digit, after the shorter one got
  zeros in front.

`Operator.WorksOnBits` says that the three agree. The first two agree because
no bit lies above the ones that a word shows (`Word.bitwise_eq`). The last two
agree because a written form, filled up with zeros, is the row of the bits of
its word (`Base.read_combineRows`). Both need of the operation only that it
goes by the bits one by one.

* `Operator.worksOnBits` is the main statement.
-/

set_option autoImplicit false

namespace BaseConverter

/-- An operation on words that makes each bit out of the two bits at its
place. -/
def Word.BitByBit (combine : Word → Word → Word) (f : Bool → Bool → Bool) : Prop :=
  ∀ a b i, (combine a b).getLsbD i = f (a.getLsbD i) (b.getLsbD i)

namespace Word

variable {combine : Word → Word → Word} {f : Bool → Bool → Bool}

/-- It makes no bit out of two zeros: there is none beyond the last bit of a
word. -/
theorem BitByBit.false_false (h : BitByBit combine f) : f false false = false := by
  have hbeyond := h 0 0 64
  rw [BitVec.getLsbD_of_ge _ _ (Nat.le_refl 64), BitVec.getLsbD_of_ge _ _ (Nat.le_refl 64)]
    at hbeyond
  exact hbeyond.symm

/-- It is not cut by the width that its operands show. -/
theorem BitByBit.bitwise_eq (h : BitByBit combine f) (a b : Word) :
    bitwise combine a b = combine a b := by
  refine Word.bitwise_eq a b fun i ha hb => ?_
  rw [h a b i, ha, hb, h.false_false]

theorem BitByBit.testBit_toNat (h : BitByBit combine f) (a b : Word) (i : Nat) :
    (combine a b).toNat.testBit i = f (a.toNat.testBit i) (b.toNat.testBit i) := by
  rw [BitVec.testBit_toNat, BitVec.testBit_toNat, BitVec.testBit_toNat]
  exact h a b i

end Word

/-- The written forms of two words, combined digit by digit, are read as what
the operation makes of the words. -/
theorem Base.read_combineRows {combine : Word → Word → Word} {f : Bool → Bool → Bool}
    (h : Word.BitByBit combine f) (a b : Word) :
    binary.read (combineRows f (binary.write a) (binary.write b)) = .ok (combine a b) := by
  have ha := Nat.le_max_left (binary.write a).length (binary.write b).length
  have hb := Nat.le_max_right (binary.write a).length (binary.write b).length
  have hpos : 0 < max (binary.write a).length (binary.write b).length :=
    Nat.lt_of_lt_of_le (List.length_pos_iff.mpr (binary.write_ne_nil a)) ha
  rw [combineRows]
  generalize max (binary.write a).length (binary.write b).length = width at ha hb hpos ⊢
  rw [leftpad_write_binary ha, leftpad_write_binary hb, zipWith_bitRow f width (h.testBit_toNat a b)]
  refine read_bitRow hpos fun i hi => ?_
  rw [h.testBit_toNat, testBit_of_length_write_le (Nat.le_trans ha hi),
    testBit_of_length_write_le (Nat.le_trans hb hi), h.false_false]

namespace Operator

/-- What an operator does is `combine` on the patterns of two words, and `f` on
two binary digits. -/
structure WorksOnBits (op : Operator) (combine : Word → Word → Word) (f : Bool → Bool → Bool) :
    Prop where
  /-- The operator always has a value, the one of the patterns. -/
  apply_eq : ∀ a b, op.apply a b = .ok (combine a b)
  /-- The width of the longer operand takes no bit of it away. -/
  lowBits_eq : ∀ a b, Word.lowBits (max a.shownWidth b.shownWidth) (combine a b) = combine a b
  /-- It is read from the written forms, combined digit by digit. -/
  read_eq : ∀ a b, Base.binary.read
    (combineRows f (Base.binary.write a) (Base.binary.write b)) = .ok (combine a b)

/-- An operator that cuts a bit-by-bit operation to the shown width works on
bits. -/
theorem WorksOnBits.of_bitByBit {op : Operator} {combine : Word → Word → Word}
    {f : Bool → Bool → Bool} (h : Word.BitByBit combine f)
    (happly : ∀ a b, op.apply a b = .ok (Word.bitwise combine a b)) : op.WorksOnBits combine f where
  apply_eq a b := by rw [happly, h.bitwise_eq]
  lowBits_eq := h.bitwise_eq
  read_eq := Base.read_combineRows h

/-- Each of the bitwise operators gives the and, the or or the exclusive or of
the 64 bits of its operands, uncut, and the same is read from the binary forms
of the operands combined digit by digit. -/
theorem worksOnBits :
    bitAnd.WorksOnBits (· &&& ·) (· && ·)
    ∧ bitOr.WorksOnBits (· ||| ·) (· || ·)
    ∧ bitXor.WorksOnBits (· ^^^ ·) (· ^^ ·) := by
  refine ⟨.of_bitByBit ?_ fun _ _ => rfl, .of_bitByBit ?_ fun _ _ => rfl,
    .of_bitByBit ?_ fun _ _ => rfl⟩
  · exact fun _ _ _ => BitVec.getLsbD_and
  · exact fun _ _ _ => BitVec.getLsbD_or
  · exact fun _ _ _ => BitVec.getLsbD_xor

-- The shorter form is filled up before the digits are combined.
example : combineRows (· && ·) "00000101".toList "0000000100000011".toList
    = "0000000000000001".toList := by decide

end Operator

end BaseConverter
