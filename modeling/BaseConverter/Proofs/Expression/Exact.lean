import BaseConverter.Expression.Value
import BaseConverter.Proofs.Expression.Arithmetic
import BaseConverter.Proofs.Expression.Padding

/-!
# `BaseConverter.Proofs.Expression.Exact`: the value of a chain is exact

A chain is worked off on words, one operator after another. Here the same
chain is worked off on integers, where nothing can overflow:
`Link.exactAfter` is the value behind the first links, and `Link.faultAt?`
says whether the link behind them breaks off.

A step on words keeps the value of the integers (`Operator.apply_eq`), so
by induction over the links a run of steps does, up to the first fault
(`follow_eq_ok_iff`, `follow_eq_error_iff`). No word that was wrapped or
cut gets into a result, and what stands behind a fault has no part in the
error.

* `Expression.valueOfRadix_chain` says this of the text of a chain.
-/

set_option autoImplicit false

namespace BaseConverter

namespace Link

/-- The value of the integers behind some links, worked off from left to
right. -/
def exactAfter (start : Int) (links : List Link) : Int :=
  links.foldl (fun value link => link.operator.exact value link.operand.value.toInt) start

/-- The fault at the link with `index` links in front of it, when these do
not break off. -/
def faultAt? (start : Int) (links : List Link) (index : Nat) : Option ArithmeticError :=
  links[index]?.bind fun link =>
    link.operator.fault? (exactAfter start (links.take index)) link.operand.value.toInt

theorem exactAfter_cons (start : Int) (link : Link) (links : List Link) :
    exactAfter start (link :: links)
      = exactAfter (link.operator.exact start link.operand.value.toInt) links := rfl

theorem faultAt?_cons_zero (start : Int) (link : Link) (links : List Link) :
    faultAt? start (link :: links) 0
      = link.operator.fault? start link.operand.value.toInt := rfl

theorem faultAt?_cons_succ (start : Int) (link : Link) (links : List Link) (index : Nat) :
    faultAt? start (link :: links) (index + 1)
      = faultAt? (link.operator.exact start link.operand.value.toInt) links index := rfl

/-- None of the first `count` links breaks off. -/
def FaultFree (start : Int) (links : List Link) (count : Nat) : Prop :=
  ∀ index < count, faultAt? start links index = none

theorem faultFree_cons_succ (start : Int) (link : Link) (links : List Link) (count : Nat) :
    FaultFree start (link :: links) (count + 1)
      ↔ link.operator.fault? start link.operand.value.toInt = none
        ∧ FaultFree (link.operator.exact start link.operand.value.toInt) links count := by
  constructor
  · intro h
    refine ⟨h 0 (Nat.zero_lt_succ count), ?_⟩
    intro index hindex
    rw [← faultAt?_cons_succ]
    exact h (index + 1) (Nat.succ_lt_succ hindex)
  · rintro ⟨hfirst, hrest⟩ index hindex
    cases index with
    | zero => exact hfirst
    | succ index => exact hrest index (Nat.lt_of_succ_lt_succ hindex)

end Link

namespace Expression

open Link

/-! ### Links -/

/-- Links lead to a value exactly when none of them breaks off, and it is
the word of the value of the integers. -/
theorem follow_eq_ok_iff (start result : Word) (links : List Link) :
    follow start links = .ok result
      ↔ FaultFree start.toInt links links.length
        ∧ result.toInt = exactAfter start.toInt links := by
  induction links generalizing start with
  | nil =>
      show (Except.ok start : Except ArithmeticError Word) = .ok result ↔ _
      rw [Except.ok.injEq, ← BitVec.toInt_inj]
      constructor
      · intro h
        exact ⟨nofun, h.symm⟩
      · rintro ⟨-, h⟩
        exact h.symm
  | cons link links ih =>
      rw [follow, List.length_cons, faultFree_cons_succ, exactAfter_cons]
      cases hfault : link.operator.fault? start.toInt link.operand.value.toInt with
      | some error =>
          -- The first link breaks off, whatever follows.
          rw [Operator.apply_of_fault hfault]
          simp
      | none =>
          obtain ⟨next, happly, hnext⟩ := Operator.exists_apply_of_no_fault hfault
          rw [happly]
          show follow next links = .ok result ↔ _
          rw [ih next, hnext]
          simp

/-- Otherwise they lead to the fault of the first link that breaks
off. -/
theorem follow_eq_error_iff (start : Word) (links : List Link) (error : ArithmeticError) :
    follow start links = .error error
      ↔ ∃ index, faultAt? start.toInt links index = some error
        ∧ FaultFree start.toInt links index := by
  induction links generalizing start with
  | nil =>
      show (Except.ok start : Except ArithmeticError Word) = .error error ↔ _
      simp [faultAt?]
  | cons link links ih =>
      rw [follow]
      cases hfault : link.operator.fault? start.toInt link.operand.value.toInt with
      | some fault =>
          rw [Operator.apply_of_fault hfault]
          show (Except.error fault : Except ArithmeticError Word) = .error error ↔ _
          rw [Except.error.injEq]
          constructor
          · rintro rfl
            exact ⟨0, hfault, nofun⟩
          · rintro ⟨index, hindex, hfree⟩
            cases index with
            | zero =>
                rw [faultAt?_cons_zero, hfault] at hindex
                exact Option.some.inj hindex
            | succ index =>
                -- The first link would have had to be passed.
                have hfirst := ((faultFree_cons_succ _ _ _ _).mp hfree).1
                rw [hfault] at hfirst
                cases hfirst
      | none =>
          obtain ⟨next, happly, hnext⟩ := Operator.exists_apply_of_no_fault hfault
          rw [happly]
          show follow next links = .error error ↔ _
          rw [ih next, hnext]
          constructor
          · rintro ⟨index, hindex, hfree⟩
            exact ⟨index + 1, hindex, (faultFree_cons_succ _ _ _ _).mpr ⟨hfault, hfree⟩⟩
          · rintro ⟨index, hindex, hfree⟩
            cases index with
            | zero =>
                rw [faultAt?_cons_zero, hfault] at hindex
                cases hindex
            | succ index => exact ⟨index, hindex, ((faultFree_cons_succ _ _ _ _).mp hfree).2⟩

/-! ### Chains -/

/-- The value of the integers that a chain starts from: its first operand,
negated or not. -/
def exactStart (negated : Bool) (first : Operand) : Int :=
  if negated then -first.value.toInt else first.value.toInt

/-- A chain follows its links from the word that it starts from, when there
is one. -/
theorem value_chain_eq (negated : Bool) (first : Operand) (links : List Link) :
    value (chain negated first links)
      = if Word.InRange (exactStart negated first) then
          follow (BitVec.ofInt 64 (exactStart negated first)) links
        else .error (.overflow .negation) := by
  cases negated with
  | false =>
      show follow first.value links
        = if Word.InRange first.value.toInt then follow (BitVec.ofInt 64 first.value.toInt) links
          else _
      rw [if_pos first.value.inRange_toInt, BitVec.ofInt_toInt]
  | true =>
      rw [value, Word.negate, Word.checked_eq, Operator.overflow?]
      show _ = if Word.InRange (-first.value.toInt) then
        follow (BitVec.ofInt 64 (-first.value.toInt)) links else _
      by_cases hrange : Word.InRange (-first.value.toInt)
      · rw [if_pos hrange, if_pos hrange]
      · rw [if_neg hrange, if_neg hrange]

/-- A chain has a value exactly when the integers that it works through are
values of words and no divisor is refused. -/
theorem value_chain_eq_ok_iff (negated : Bool) (first : Operand) (links : List Link)
    (result : Word) :
    value (chain negated first links) = .ok result
      ↔ Word.InRange (exactStart negated first)
        ∧ FaultFree (exactStart negated first) links links.length
        ∧ result.toInt = exactAfter (exactStart negated first) links := by
  rw [value_chain_eq]
  by_cases hrange : Word.InRange (exactStart negated first)
  · rw [if_pos hrange, follow_eq_ok_iff, Word.toInt_ofInt hrange]
    simp [hrange]
  · rw [if_neg hrange]
    simp [hrange]

/-- Otherwise it has the error of its first step that breaks off. -/
theorem value_chain_eq_error_iff (negated : Bool) (first : Operand) (links : List Link)
    (error : ArithmeticError) :
    value (chain negated first links) = .error error
      ↔ (¬ Word.InRange (exactStart negated first) ∧ error = .overflow .negation)
        ∨ (Word.InRange (exactStart negated first)
          ∧ ∃ index, faultAt? (exactStart negated first) links index = some error
            ∧ FaultFree (exactStart negated first) links index) := by
  rw [value_chain_eq]
  by_cases hrange : Word.InRange (exactStart negated first)
  · rw [if_pos hrange, follow_eq_error_iff, Word.toInt_ofInt hrange]
    simp [hrange]
  · rw [if_neg hrange, Except.error.injEq]
    simp [hrange, eq_comm]

/-- The text of a chain, in any spelling of its operands and with any white
space, has the value that the integers lead to from left to right: the
start and every result between have to be values of words, no divisor may
be zero, and the smallest word has no remainder by minus one. Where one of
these fails first, the text has the error of this step, whatever stands
behind it. -/
theorem valueOfRadix_chain {base : Base} {core line : Text} {negated : Bool} {first : Operand}
    {links : List Link} (hspelled : Spelled base core (chain negated first links))
    (hline : Text.Padded core line) :
    (∀ result, valueOfRadix base.radix line = .ok result
      ↔ Word.InRange (exactStart negated first)
        ∧ FaultFree (exactStart negated first) links links.length
        ∧ result.toInt = exactAfter (exactStart negated first) links)
    ∧ ∀ error, valueOfRadix base.radix line = .error error
      ↔ ∃ fault, error = .arithmetic fault
        ∧ ((¬ Word.InRange (exactStart negated first) ∧ fault = .overflow .negation)
          ∨ (Word.InRange (exactStart negated first)
            ∧ ∃ index, faultAt? (exactStart negated first) links index = some fault
              ∧ FaultFree (exactStart negated first) links index)) := by
  have hread : valueOfRadix base.radix line
      = (value (chain negated first links)).mapError .arithmetic := by
    rw [valueOfRadix, readRadix, Base.ofRadix?_radix]
    show valueOfRead (read base line) = _
    rw [read_of_padded hspelled hline]
    rfl
  rw [hread]
  refine ⟨?_, ?_⟩
  · intro result
    rw [← value_chain_eq_ok_iff]
    cases value (chain negated first links) <;> simp [Except.mapError]
  · intro error
    simp only [← value_chain_eq_error_iff]
    cases value (chain negated first links) <;> simp [Except.mapError, eq_comm]

/-- The line ` -7FFFFFFFFFFFFFFF-1 % 0xffffffffffffffff + 1` comes to the
smallest word and asks for its remainder by minus one. The addition behind
it is not looked at. -/
theorem valueOfRadix_chain_smallest :
    let line := " -7FFFFFFFFFFFFFFF-1 % 0xffffffffffffffff + 1".toList
    let first : Operand := ⟨"7FFFFFFFFFFFFFFF".toList, 0x7FFFFFFFFFFFFFFF⟩
    let links : List Link := [⟨.subtract, ⟨"1".toList, 1⟩⟩,
      ⟨.modulo, ⟨"0xffffffffffffffff".toList, -1⟩⟩, ⟨.add, ⟨"1".toList, 1⟩⟩]
    Spelled .hex (Text.trim line) (chain true first links)
    ∧ Text.Padded (Text.trim line) line
    ∧ valueOfRadix 16 line = .error (.arithmetic (.overflow .remainder)) := by
  intro line first links
  have hread : read .hex line = .ok (chain true first links) := by rfl
  have hspelled := (read_eq_ok_iff .hex line _).mp hread
  have hpadded := Text.padded_trim line
  refine ⟨hspelled, hpadded, ((valueOfRadix_chain hspelled hpadded).2 _).mpr
    ⟨_, rfl, .inr ⟨by decide, 1, by decide, ?_⟩⟩⟩
  intro index hindex
  obtain rfl : index = 0 := by omega
  decide

end Expression

end BaseConverter
