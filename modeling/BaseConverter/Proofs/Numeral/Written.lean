import BaseConverter.Expression.Operator
import BaseConverter.Group.Basic
import BaseConverter.Numeral.Written
import BaseConverter.Text.WhiteSpace

/-!
# `BaseConverter.Proofs.Numeral.Written`: the shape of a written word

In every base a written word is a short lead (a minus, the mark `0x` or
nothing) in front of a row of digits. The row is filled up with zeros to
whole units of digits, which do not change the number it stands for.

* `Base.write_eq`: the written form is the lead and the row.
* `Base.isDigit_of_mem_shownDigits` and `Base.placeValue_shownDigits`:
  the row holds digits of the base, and stands for the word.
* `Base.mem_digitChars`: a digit of any base is one of 22 characters. So
  a fact about digits, such as that none is white space or belongs to an
  operator, is decided by looking at these.
-/

set_option autoImplicit false

namespace BaseConverter

/-- The characters that are a digit of some base. -/
def digitChars : Text := "0123456789ABCDEFabcdef".toList

namespace Base

/-! ### Digits as characters -/

theorem isDigit_iff (base : Base) (c : Char) :
    base.isDigit c = true ↔ ∃ value, digitValue? c = some value ∧ value < base.radix := by
  simp [isDigit, digit?, Option.any_eq_true]

/-- A digit of any base is one of the characters of `digitChars`. -/
theorem mem_digitChars {base : Base} {c : Char} (h : base.isDigit c = true) : c ∈ digitChars := by
  obtain ⟨value, hvalue, -⟩ := (base.isDigit_iff c).mp h
  -- All digits are ASCII, so the code points below 128 are enough to look at.
  have hascii : c.toNat < 128 := by
    have hle : c ≤ 'f' := by
      unfold digitValue? at hvalue
      split at hvalue
      · rename_i hc
        exact Char.le_trans hc.2 (by decide)
      · split at hvalue
        · rename_i hc
          exact Char.le_trans hc.2 (by decide)
        · split at hvalue
          · rename_i hc
            exact hc.2
          · cases hvalue
    exact Nat.lt_of_le_of_lt hle (by decide)
  have hall : ∀ n : Fin 128, (digitValue? (Char.ofNat n.val)).isSome = true →
      Char.ofNat n.val ∈ digitChars := by
    decide
  have hc := hall ⟨c.toNat, hascii⟩
  rw [Char.ofNat_toNat] at hc
  exact hc (by rw [hvalue]; rfl)

/-- What holds of all characters in `digitChars` holds of every digit. -/
theorem of_isDigit {p : Char → Bool} (hall : digitChars.all p = true) {base : Base} {c : Char}
    (h : base.isDigit c = true) : p c = true :=
  List.all_eq_true.mp hall c (mem_digitChars h)

/-- No digit is white space. -/
theorem not_white_of_isDigit {base : Base} {c : Char} (h : base.isDigit c = true) :
    Text.isWhite c = false := by
  simpa using of_isDigit (p := fun d => !Text.isWhite d) (by decide) h

/-- No digit separates operands. -/
theorem not_separates_of_isDigit {base : Base} {c : Char} (h : base.isDigit c = true) :
    separatesOperands c = false := by
  simpa using of_isDigit (p := fun d => !separatesOperands d) (by decide) h

/-- No digit belongs to an operator. -/
theorem not_operatorChar_of_isDigit {base : Base} {c : Char} (h : base.isDigit c = true) :
    isOperatorChar c = false := by
  have hseparates := not_separates_of_isDigit h
  rw [separatesOperands, Bool.or_eq_false_iff] at hseparates
  exact hseparates.1

/-! ### Rows of digits -/

theorem digits_ne_nil (base : Base) (n : Nat) : base.digits n ≠ [] := by
  induction n using base.digits_induction with
  | last n hsmall => simp [digits_of_lt hsmall]
  | more n hlarge ih => simp [digits_of_le hlarge]

/-- The digits of a number are digits. -/
theorem isDigit_of_mem_digits (base : Base) (n : Nat) :
    ∀ c ∈ base.digits n, base.isDigit c = true := by
  have hchar : ∀ d, d < base.radix → base.isDigit d.digitChar.toUpper = true := by
    intro d hd
    rw [isDigit, digit?_toUpper_digitChar hd]
    rfl
  induction n using base.digits_induction with
  | last n hsmall =>
      rw [digits_of_lt hsmall]
      simpa using hchar n hsmall
  | more n hlarge ih =>
      rw [digits_of_le hlarge]
      intro c hc
      rcases List.mem_append.mp hc with hc | hc
      · exact ih c hc
      · rw [List.mem_singleton.mp hc]
        exact hchar _ (Nat.mod_lt n (Nat.zero_lt_of_lt base.one_lt_radix))

/-- Zeros in front do not change the number that digits stand for. -/
theorem placeValue_replicate_append (base : Base) (count : Nat) (digits : Text) :
    base.placeValue (List.replicate count '0' ++ digits) = base.placeValue digits := by
  induction count with
  | zero => rfl
  | succ count ih =>
      -- The first zero leaves the value at zero, where it starts.
      have hzero : 0 * base.radix + (base.digit? '0').getD 0 = 0 := by cases base <;> rfl
      rw [List.replicate_succ, List.cons_append, placeValue, List.foldl_cons, hzero]
      exact ih

end Base

/-- A text of digits has as many bytes as characters. -/
theorem Text.utf8Length_of_digits {base : Base} {text : Text}
    (h : ∀ c ∈ text, base.isDigit c = true) : text.utf8Length = text.length := by
  have hsize : digitChars.all (fun d => d.utf8Size == 1) = true := by decide
  induction text with
  | nil => rfl
  | cons c rest ih =>
      have hrest := ih fun d hd => h d (List.mem_cons_of_mem c hd)
      have hc : c.utf8Size = 1 := by
        simpa using Base.of_isDigit hsize (h c List.mem_cons_self)
      rw [utf8Length, List.foldr_cons, ← utf8Length, hrest, hc, List.length_cons, Nat.add_comm]

/-- A text of digits carries no mark. -/
theorem hexMarkLength_of_digits {base : Base} {text : Text}
    (h : ∀ c ∈ text, base.isDigit c = true) : hexMarkLength text = 0 := by
  have hmark : 'x' ∉ digitChars ∧ 'X' ∉ digitChars := by decide
  unfold hexMarkLength
  split
  · exact absurd (Base.mem_digitChars (h 'x' (by simp))) hmark.1
  · exact absurd (Base.mem_digitChars (h 'X' (by simp))) hmark.2
  · rfl

namespace Base

/-! ### The written form of a word -/

/-- The number that the written form of a word stands for, apart from
its sign. -/
def magnitude : Base → Word → Nat
  | decimal, word => word.toInt.natAbs
  | _, word => word.toNat

/-- The number of digits that are written or left out together. -/
def digitUnit : Base → Nat
  | decimal => 1
  | hex => 2
  | binary => 8

/-- What stands in front of the digits of a written word. -/
def lead : Base → Word → Text
  | decimal, word => if word.toInt < 0 then ['-'] else []
  | hex, _ => hexMark
  | binary, _ => []

/-- The digits that the written form of a word shows: those of its
magnitude, behind zeros that make up whole units. -/
def shownDigits (base : Base) (word : Word) : Text :=
  let digits := base.digits (base.magnitude word)
  List.replicate (wholeUnits base.digitUnit digits.length - digits.length) '0' ++ digits

/-- Capitals are kept. -/
theorem toUpper_digits (base : Base) (n : Nat) :
    Text.toUpper (base.digits n) = base.digits n := by
  have hupper : ∀ d : Fin base.radix, d.val.digitChar.toUpper.toUpper = d.val.digitChar.toUpper := by
    cases base <;> decide
  induction n using base.digits_induction with
  | last n hsmall => simp [digits_of_lt hsmall, Text.toUpper, hupper ⟨n, hsmall⟩]
  | more n hlarge ih =>
      have hmod : n % base.radix < base.radix := Nat.mod_lt n (Nat.zero_lt_of_lt base.one_lt_radix)
      have hlast := hupper ⟨n % base.radix, hmod⟩
      rw [digits_of_le hlarge]
      simp only [Text.toUpper, List.map_append, List.map_singleton] at ih ⊢
      rw [ih, hlast]

/-- The written form of a word is its lead and the digits that it
shows. -/
theorem write_eq (base : Base) (word : Word) :
    base.write word = base.lead word ++ base.shownDigits word := by
  have hlength := Text.utf8Length_of_digits (base.isDigit_of_mem_digits (base.magnitude word))
  cases base with
  | decimal =>
      -- A decimal number has at least one digit, so no zero is put in front.
      have hpos : 1 ≤ (decimal.digits word.toInt.natAbs).length :=
        List.length_pos_iff.mpr (decimal.digits_ne_nil _)
      have hzeros : wholeUnits 1 (decimal.digits word.toInt.natAbs).length
          - (decimal.digits word.toInt.natAbs).length = 0 := by
        unfold wholeUnits
        omega
      simp only [write, writeInt, lead, shownDigits, digitUnit, magnitude, hzeros]
      split <;> rfl
  | hex =>
      have hmark : dropHexMark (hex.digits word.toNat) = hex.digits word.toNat := by
        rw [dropHexMark, hexMarkLength_of_digits (hex.isDigit_of_mem_digits _), List.drop_zero]
      simp only [magnitude] at hlength
      simp only [write, padHex, hmark, toUpper_digits, hlength, lead, shownDigits, digitUnit,
        magnitude, List.append_assoc]
  | binary =>
      simp only [magnitude] at hlength
      simp only [write, padBinary, hlength, List.leftpad, lead, shownDigits, digitUnit, magnitude,
        List.nil_append]

theorem shownDigits_ne_nil (base : Base) (word : Word) : base.shownDigits word ≠ [] := by
  simp [shownDigits, digits_ne_nil]

theorem write_ne_nil (base : Base) (word : Word) : base.write word ≠ [] := by
  rw [write_eq]
  exact List.append_ne_nil_of_right_ne_nil _ (base.shownDigits_ne_nil word)

/-- Every base has the digit zero. -/
theorem isDigit_zero (base : Base) : base.isDigit '0' = true := by
  cases base <;> rfl

/-- What the written form of a word shows are digits of the base. -/
theorem isDigit_of_mem_shownDigits (base : Base) (word : Word) :
    ∀ c ∈ base.shownDigits word, base.isDigit c = true := by
  intro c hc
  rcases List.mem_append.mp hc with hc | hc
  · rw [List.eq_of_mem_replicate hc]
    exact base.isDigit_zero
  · exact base.isDigit_of_mem_digits _ c hc

/-- What holds of the lead and of every digit holds of the written form
of a word. -/
theorem of_mem_write {p : Char → Bool} {base : Base} {word : Word}
    (hlead : (base.lead word).all p = true) (hdigits : digitChars.all p = true) :
    ∀ c ∈ base.write word, p c = true := by
  intro c hc
  rw [write_eq] at hc
  rcases List.mem_append.mp hc with hc | hc
  · exact List.all_eq_true.mp hlead c hc
  · exact of_isDigit hdigits (base.isDigit_of_mem_shownDigits word c hc)

/-- There is no white space in the written form of a word. -/
theorem not_white_of_mem_write (base : Base) (word : Word) :
    ∀ c ∈ base.write word, Text.isWhite c = false := by
  have hlead : (base.lead word).all (fun c => !Text.isWhite c) = true := by
    cases base with
    | decimal =>
        -- The lead is a minus or nothing.
        rw [lead]
        split <;> decide
    | hex => rfl
    | binary => rfl
  intro c hc
  simpa using of_mem_write hlead (by decide) c hc

/-- The written form of a word separates no operands, unless it begins
with a minus. -/
theorem not_separates_of_mem_write {base : Base} {word : Word}
    (h : base ≠ .decimal ∨ 0 ≤ word.toInt) : ∀ c ∈ base.write word, separatesOperands c = false := by
  have hlead : (base.lead word).all (fun c => !separatesOperands c) = true := by
    cases base with
    | decimal =>
        have hsign : 0 ≤ word.toInt := h.resolve_left fun hne => hne rfl
        rw [lead, if_neg (by omega)]
        rfl
    | hex => rfl
    | binary => rfl
  intro c hc
  simpa using of_mem_write hlead (by decide) c hc

/-- The digits that are shown stand for the magnitude of the word. -/
theorem placeValue_shownDigits (base : Base) (word : Word) :
    base.placeValue (base.shownDigits word) = base.magnitude word := by
  rw [shownDigits, placeValue_replicate_append, placeValue_digits]

end Base

end BaseConverter
