import BaseConverter.Expression.Value
import BaseConverter.Proofs.Expression.Arithmetic
import BaseConverter.Proofs.Expression.Complete

/-!
# `BaseConverter.Proofs.Expression.Finished`: how a finished line can still fail

A line is called finished when a quick look finds an operator and a digit at
its end, and it can be read. The quick look rules out nothing that can be read
(`Expression.complete?_eq_some_iff`), so a finished line is the same as a line
that can be read, in every base and for a number of digits that is no base.

What is left to fail is the calculation. `Operator.FailsWith` lists the errors
of the operators one by one, and `Expression.FailsWith` those of the three
forms: a complement has none, a shift has one, and a chain has that of its
minus and those of the operators that stand in it. None of these is an error
of reading, and an unfinished line has no other errors than those.

* `Expression.isComplete_separates` is the main statement.
-/

set_option autoImplicit false

namespace BaseConverter

/-- The errors that an operator breaks off with. The bitwise operators have
none. -/
inductive Operator.FailsWith : Operator → ArithmeticError → Prop
  | addition : FailsWith add (.overflow .addition)
  | subtraction : FailsWith subtract (.overflow .subtraction)
  | multiplication : FailsWith multiply (.overflow .multiplication)
  | divisionByZero : FailsWith divide .divisionByZero
  | division : FailsWith divide (.overflow .division)
  | moduloByZero : FailsWith modulo .moduloByZero
  | remainder : FailsWith modulo (.overflow .remainder)

/-- The errors that an expression breaks off with. -/
inductive Expression.FailsWith : Expression → ArithmeticError → Prop
  | shift (left : Operand) (direction : Shift) (right : Operand) :
      FailsWith (shift left direction right) (.shiftOutOfRange right.value)
  | negation (first : Operand) (links : List Link) :
      FailsWith (chain true first links) (.overflow .negation)
  | link (negated : Bool) (first : Operand) {links : List Link} {link : Link}
      {error : ArithmeticError} (mem : link ∈ links) (fails : link.operator.FailsWith error) :
      FailsWith (chain negated first links) error

/-! ### The errors of a calculation -/

theorem Operator.eq_of_overflow?_eq_some {calculation : Calculation} {result : Int}
    {error : ArithmeticError} (h : overflow? calculation result = some error) :
    error = .overflow calculation := by
  unfold overflow? at h
  split at h
  · cases h
  · exact (Option.some.inj h).symm

theorem Operator.failsWith_of_apply {op : Operator} {a b : Word} {error : ArithmeticError}
    (h : op.apply a b = .error error) : op.FailsWith error := by
  have hfault : op.fault? a.toInt b.toInt = some error := by
    rw [apply_eq] at h
    split at h
    · rename_i hfault
      rw [hfault, Except.error.inj h]
    · cases h
  cases op with
  | add => exact eq_of_overflow?_eq_some hfault ▸ .addition
  | subtract => exact eq_of_overflow?_eq_some hfault ▸ .subtraction
  | multiply => exact eq_of_overflow?_eq_some hfault ▸ .multiplication
  | divide =>
      rw [fault?] at hfault
      split at hfault
      · exact Option.some.inj hfault ▸ .divisionByZero
      · exact eq_of_overflow?_eq_some hfault ▸ .division
  | modulo =>
      rw [fault?] at hfault
      split at hfault
      · exact Option.some.inj hfault ▸ .moduloByZero
      · split at hfault
        · exact Option.some.inj hfault ▸ .remainder
        · cases hfault
  | bitAnd | bitOr | bitXor => cases hfault

namespace Expression

variable {error : ArithmeticError}

/-- Links break off with an error of an operator among them. -/
theorem exists_link_of_follow {start : Word} {links : List Link}
    (h : follow start links = .error error) : ∃ link ∈ links, link.operator.FailsWith error := by
  induction links generalizing start with
  | nil => cases h
  | cons link links ih =>
      rw [follow] at h
      split at h
      · obtain ⟨other, hother, hfails⟩ := ih h
        exact ⟨other, List.mem_cons_of_mem link hother, hfails⟩
      · rename_i fault happly
        rw [Except.error.inj h] at happly
        exact ⟨link, List.mem_cons_self, Operator.failsWith_of_apply happly⟩

theorem failsWith_of_value {e : Expression} (h : e.value = .error error) : e.FailsWith error := by
  cases e with
  | complement operand => cases h
  | shift left direction right =>
      have happly : direction.apply left.value right.value = .error error := h
      unfold Shift.apply at happly
      split at happly
      · cases direction <;> cases happly
      · exact Except.error.inj happly ▸ .shift left direction right
  | chain negated first links =>
      cases negated with
      | false =>
          obtain ⟨link, hmem, hfails⟩ := exists_link_of_follow h
          exact .link false first hmem hfails
      | true =>
          rw [value] at h
          split at h
          · obtain ⟨link, hmem, hfails⟩ := exists_link_of_follow h
            exact .link true first hmem hfails
          · rename_i fault hnegate
            rw [Word.negate, Word.checked] at hnegate
            split at hnegate
            · cases hnegate
            · rw [← Except.error.inj h, ← Except.error.inj hnegate]
              exact .negation first links

/-! ### Finished lines -/

/-- A line is finished when it can be read. Where there is no base, nothing
can. -/
theorem isComplete_iff_exists (radix : Nat) (line : Text) :
    isComplete radix line = true ↔ ∃ e, readRadix radix line = .ok e := by
  unfold isComplete readRadix
  cases Base.ofRadix? radix with
  | none => simp
  | some base => simp only [Option.any_some, Option.isSome_iff_exists, complete?_eq_some_iff]

/-- A line is finished exactly when it can be read, and this tells the two
kinds of errors apart. A finished line has a value or breaks off with an error
of the calculation that it spells. A line that is not finished has an error of
reading. -/
theorem isComplete_separates (radix : Nat) (line : Text) :
    (isComplete radix line = true ↔ ∃ e, readRadix radix line = .ok e)
    ∧ (isComplete radix line = true → (∃ word, valueOfRadix radix line = .ok word)
      ∨ ∃ error, valueOfRadix radix line = .error (.arithmetic error)
        ∧ ∃ e, readRadix radix line = .ok e ∧ e.FailsWith error)
    ∧ (isComplete radix line = false →
      ∃ error, valueOfRadix radix line = .error (.parse error)) := by
  have hcomplete := isComplete_iff_exists radix line
  refine ⟨hcomplete, ?_, ?_⟩
  · intro h
    obtain ⟨e, hread⟩ := hcomplete.mp h
    rw [valueOfRadix, hread, valueOfRead]
    cases hvalue : e.value with
    | ok word => exact .inl ⟨word, rfl⟩
    | error error => exact .inr ⟨error, rfl, e, rfl, failsWith_of_value hvalue⟩
  · intro h
    rw [valueOfRadix]
    cases hread : readRadix radix line with
    | ok e =>
        rw [hcomplete.mpr ⟨e, hread⟩] at h
        cases h
    | error error => exact ⟨error, rfl⟩

/-- A division by zero is finished, and an operand that is missing is not. -/
example : isComplete 10 "5/0".toList = true ∧ isComplete 10 "5+".toList = false := by decide

end Expression

end BaseConverter
