import BaseConverter.Text.Basic

/-!
# `BaseConverter.Numeral.Digit`: bases, digits and place value

Numbers are written in base two, ten or sixteen. The digits beyond nine
are the letters `A` to `F` in either case.

* `Base.digit?` is the value of a character as a digit of a base.
* `Base.placeValue` is the number that a row of digits stands for.
* `Base.digits` writes a number without leading zeros, in capitals.
* `Base.placeValue_digits`: the digits of a number stand for that number.
* `dropHexMark` removes the mark `0x` that a hexadecimal number may
  carry.
-/

set_option autoImplicit false

namespace BaseConverter

/-- The bases that numbers are written in. -/
inductive Base where
  | binary
  | decimal
  | hex
deriving DecidableEq

/-- The value of a character as a hexadecimal digit of either case. -/
def digitValue? (c : Char) : Option Nat :=
  if '0' ≤ c ∧ c ≤ '9' then some (c.toNat - '0'.toNat)
  else if 'A' ≤ c ∧ c ≤ 'F' then some (c.toNat - 'A'.toNat + 10)
  else if 'a' ≤ c ∧ c ≤ 'f' then some (c.toNat - 'a'.toNat + 10)
  else none

namespace Base

/-- The number of digits of a base. -/
def radix : Base → Nat
  | binary => 2
  | decimal => 10
  | hex => 16

/-- The base with a given number of digits. -/
def ofRadix? : Nat → Option Base
  | 2 => some binary
  | 10 => some decimal
  | 16 => some hex
  | _ => none

/-- The value of a character as a digit of a base. -/
def digit? (base : Base) (c : Char) : Option Nat :=
  (digitValue? c).filter (· < base.radix)

/-- Whether a character is a digit of a base. -/
def isDigit (base : Base) (c : Char) : Bool :=
  (base.digit? c).isSome

/-- The number that a row of digits stands for. A character that is no
digit counts as zero. -/
def placeValue (base : Base) (digits : Text) : Nat :=
  digits.foldl (fun value c => value * base.radix + (base.digit? c).getD 0) 0

/-- The digits of a number without leading zeros, letters in capitals.
Zero is written `0`. -/
def digits (base : Base) (n : Nat) : Text :=
  Text.toUpper (Nat.toDigits base.radix n)

/-- The value of a digit is less than the number of digits. -/
theorem digit?_lt {base : Base} {c : Char} {value : Nat} (h : base.digit? c = some value) :
    value < base.radix := by
  simpa using (Option.filter_eq_some_iff.mp h).2

theorem one_lt_radix (base : Base) : 1 < base.radix := by
  cases base <;> decide

/-- The character that a digit is written with stands for that digit. -/
theorem digit?_toUpper_digitChar {base : Base} {digit : Nat} (h : digit < base.radix) :
    base.digit? digit.digitChar.toUpper = some digit := by
  have written : ∀ d : Fin base.radix, base.digit? d.val.digitChar.toUpper = some d.val := by
    cases base <;> decide
  exact written ⟨digit, h⟩

/-- One more digit multiplies by the number of digits and adds. -/
theorem placeValue_append_singleton (base : Base) (digits : Text) (c : Char) :
    base.placeValue (digits ++ [c])
      = base.placeValue digits * base.radix + (base.digit? c).getD 0 := by
  simp [placeValue]

/-- A number below the number of digits is written with one digit. -/
theorem digits_of_lt {base : Base} {n : Nat} (h : n < base.radix) :
    base.digits n = [n.digitChar.toUpper] := by
  rw [digits, Nat.toDigits_of_lt_base h]
  rfl

/-- The digits of a larger number are those of its quotient, and one
more for the remainder. -/
theorem digits_of_le {base : Base} {n : Nat} (h : base.radix ≤ n) :
    base.digits n = base.digits (n / base.radix) ++ [(n % base.radix).digitChar.toUpper] := by
  rw [digits, Nat.toDigits_eq_if base.one_lt_radix, if_neg (by omega)]
  exact List.map_append

/-- What holds of the numbers with one digit, and of a longer number when
it holds of the number without its last digit, holds of all numbers. -/
@[elab_as_elim]
theorem digits_induction (base : Base) {motive : Nat → Prop}
    (last : ∀ n, n < base.radix → motive n)
    (more : ∀ n, base.radix ≤ n → motive (n / base.radix) → motive n) (n : Nat) : motive n := by
  induction n using Nat.strongRecOn with
  | ind n ih =>
      have hradix := base.one_lt_radix
      rcases Nat.lt_or_ge n base.radix with hsmall | hlarge
      · exact last n hsmall
      · exact more n hlarge (ih _ (Nat.div_lt_self (by omega) hradix))

/-- The digits of a number stand for that number. -/
theorem placeValue_digits (base : Base) (n : Nat) : base.placeValue (base.digits n) = n := by
  induction n using base.digits_induction with
  | last n hsmall =>
      rw [digits_of_lt hsmall]
      simp [placeValue, digit?_toUpper_digitChar hsmall]
  | more n hlarge ih =>
      have hmod : n % base.radix < base.radix := Nat.mod_lt n (Nat.zero_lt_of_lt base.one_lt_radix)
      rw [digits_of_le hlarge, placeValue_append_singleton, ih, digit?_toUpper_digitChar hmod,
        Option.getD_some]
      exact Nat.div_add_mod' n base.radix

/-- The number of digits belongs to the base alone. -/
theorem ofRadix?_radix (base : Base) : ofRadix? base.radix = some base := by
  cases base <;> rfl

/-- A base has the number of digits that it was found by. -/
theorem radix_of_ofRadix? {n : Nat} {base : Base} (h : ofRadix? n = some base) :
    base.radix = n := by
  unfold ofRadix? at h
  split at h <;> cases h <;> rfl

end Base

/-- The number of characters of the mark `0x` or `0X` at the head of a
text, zero when it has none. -/
def hexMarkLength : Text → Nat
  | '0' :: 'x' :: _ => 2
  | '0' :: 'X' :: _ => 2
  | _ => 0

/-- The text without one mark `0x` or `0X` at its head. -/
def dropHexMark (text : Text) : Text :=
  text.drop (hexMarkLength text)

end BaseConverter
