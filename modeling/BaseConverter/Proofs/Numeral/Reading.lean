import BaseConverter.Numeral.Reading
import BaseConverter.Proofs.Numeral.Written
import BaseConverter.Proofs.Text.Trim

/-!
# `BaseConverter.Proofs.Numeral.Reading`: a written word reads back

The reader takes digits from left to right and stops at the first fault.
What it has read only grows, so a row of digits is read to its end just
when the number it stands for is below the limit (`Base.scan_eq_ok_iff`).
The limits of the three bases leave room for every word, and with that
`Base.read_write` brings every written word back.
-/

set_option autoImplicit false

namespace BaseConverter

/-- What a reader gives is what it gives without its errors. -/
theorem toOption_eq_some_iff {ε α : Type} {x : Except ε α} {a : α} :
    x.toOption = some a ↔ x = .ok a := by
  cases x <;> simp [Except.toOption]

namespace Base

/-! ### Rows of digits -/

/-- The number that a row of digits stands for behind digits of the value
`value`. -/
def placeValueFrom (base : Base) (value : Nat) (digits : Text) : Nat :=
  digits.foldl (fun value c => value * base.radix + (base.digit? c).getD 0) value

theorem placeValueFrom_cons (base : Base) (value : Nat) (c : Char) (rest : Text) :
    base.placeValueFrom value (c :: rest)
      = base.placeValueFrom (value * base.radix + (base.digit? c).getD 0) rest :=
  rfl

/-- More digits make no number smaller. -/
theorem le_placeValueFrom (base : Base) (value : Nat) (digits : Text) :
    value ≤ base.placeValueFrom value digits := by
  induction digits generalizing value with
  | nil => exact Nat.le_refl value
  | cons c rest ih =>
      -- Each digit multiplies by at least one and adds.
      have hradix := Nat.le_mul_of_pos_right value (Nat.zero_lt_of_lt base.one_lt_radix)
      have hrest := ih (value * base.radix + (base.digit? c).getD 0)
      rw [placeValueFrom_cons]
      omega

/-- The value of a character as a digit is less than the number of
digits. -/
theorem digit?_getD_lt_radix (base : Base) (c : Char) : (base.digit? c).getD 0 < base.radix := by
  cases hc : base.digit? c with
  | none => exact Nat.zero_lt_of_lt base.one_lt_radix
  | some value => exact digit?_lt hc

/-- A row of digits stands for one of as many numbers as there are rows of
its length. -/
theorem placeValueFrom_lt (base : Base) (value : Nat) (digits : Text) :
    base.placeValueFrom value digits < (value + 1) * Nat.pow base.radix digits.length := by
  induction digits generalizing value with
  | nil =>
      show value < (value + 1) * 1
      omega
  | cons c rest ih =>
      have hdigit := base.digit?_getD_lt_radix c
      have hle : value * base.radix + (base.digit? c).getD 0 + 1 ≤ (value + 1) * base.radix := by
        rw [Nat.succ_mul]
        omega
      calc base.placeValueFrom value (c :: rest)
        _ < (value * base.radix + (base.digit? c).getD 0 + 1) * Nat.pow base.radix rest.length :=
            ih _
        _ ≤ (value + 1) * base.radix * Nat.pow base.radix rest.length :=
            Nat.mul_le_mul_right _ hle
        _ = (value + 1) * Nat.pow base.radix (c :: rest).length := by
            rw [Nat.mul_assoc, Nat.mul_comm base.radix]
            rfl

/-- Reading succeeds on the rows of digits that stand for a number below
the limit, and gives this number. -/
theorem scan_eq_ok_iff (base : Base) {limit value : Nat} (hvalue : value < limit) (digits : Text)
    (result : Nat) :
    base.scan limit value digits = .ok result
      ↔ (∀ c ∈ digits, base.isDigit c = true) ∧ base.placeValueFrom value digits = result
        ∧ result < limit := by
  induction digits generalizing value with
  | nil =>
      rw [scan, placeValueFrom, List.foldl_nil, Except.ok.injEq]
      constructor
      · rintro rfl
        exact ⟨List.forall_mem_nil _, rfl, hvalue⟩
      · exact fun h => h.2.1
  | cons c rest ih =>
      rw [scan, List.forall_mem_cons, isDigit, placeValueFrom_cons]
      cases base.digit? c with
      | none => simp
      | some digit =>
          simp only [Option.getD_some, Option.isSome_some, true_and]
          by_cases hnext : value * base.radix + digit < limit
          · rw [if_pos hnext]
            exact ih hnext
          · -- From here on the number cannot come below the limit again.
            rw [if_neg hnext]
            constructor
            · intro h
              cases h
            · rintro ⟨-, heq, hlt⟩
              have hle := base.le_placeValueFrom (value * base.radix + digit) rest
              omega

/-- A row of digits below the limit is read as its number. -/
theorem scan_of_digits {base : Base} {limit : Nat} {digits : Text}
    (hdigits : ∀ c ∈ digits, base.isDigit c = true) (hlimit : base.placeValue digits < limit) :
    base.scan limit 0 digits = .ok (base.placeValue digits) :=
  (base.scan_eq_ok_iff (Nat.zero_lt_of_lt hlimit) digits _).mpr ⟨hdigits, rfl, hlimit⟩

/-! ### Numbers -/

/-- A row of digits below the number of patterns is read as a
pattern. -/
theorem readPattern_of_digits {base : Base} (text : Text) {digits : Text} (hne : digits ≠ [])
    (hdigits : ∀ c ∈ digits, base.isDigit c = true)
    (hlimit : base.placeValue digits < Word.patternCount) :
    base.readPattern text digits = .ok (BitVec.ofNat 64 (base.placeValue digits)) := by
  have hempty : digits.isEmpty = false := by simpa using hne
  simp only [readPattern, hempty, scan_of_digits hdigits hlimit]
  rfl

/-- A row of digits behind a sign is read when the number fits with this
sign. -/
theorem readMagnitude_of_digits (negative : Bool) (text : Text) {digits : Text}
    (hne : digits ≠ []) (hdigits : ∀ c ∈ digits, decimal.isDigit c = true)
    (hlimit : decimal.placeValue digits
      < if negative then Word.positiveCount + 1 else Word.positiveCount) :
    readMagnitude negative text digits
      = .ok (BitVec.ofInt 64
          (if negative then -decimal.placeValue digits else decimal.placeValue digits)) := by
  have hempty : digits.isEmpty = false := by simpa using hne
  simp only [readMagnitude, hempty, scan_of_digits hdigits hlimit]
  rfl

/-- A pattern is read from every row of digits below the number of
patterns, and from nothing else. -/
theorem readPattern_eq_ok_iff (base : Base) (text digits : Text) (word : Word) :
    base.readPattern text digits = .ok word
      ↔ digits ≠ [] ∧ (∀ c ∈ digits, base.isDigit c = true)
        ∧ base.placeValue digits < Word.patternCount
        ∧ BitVec.ofNat 64 (base.placeValue digits) = word := by
  constructor
  · intro h
    unfold readPattern at h
    split at h
    · cases h
    · rename_i hempty
      cases hscan : base.scan Word.patternCount 0 digits with
      | error fault =>
          rw [hscan] at h
          cases h
      | ok value =>
          rw [hscan] at h
          obtain ⟨hdigits, rfl, hlimit⟩ := (base.scan_eq_ok_iff (by decide) digits value).mp hscan
          exact ⟨by simpa using hempty, hdigits, hlimit, Except.ok.inj h⟩
  · rintro ⟨hne, hdigits, hlimit, rfl⟩
    exact readPattern_of_digits text hne hdigits hlimit

/-- A magnitude is read from every row of digits below the limit of its
sign, and from nothing else. -/
theorem readMagnitude_eq_ok_iff (negative : Bool) (text digits : Text) (word : Word) :
    readMagnitude negative text digits = .ok word
      ↔ digits ≠ [] ∧ (∀ c ∈ digits, decimal.isDigit c = true)
        ∧ decimal.placeValue digits
            < (if negative then Word.positiveCount + 1 else Word.positiveCount)
        ∧ BitVec.ofInt 64
            (if negative then -decimal.placeValue digits else decimal.placeValue digits) = word := by
  constructor
  · intro h
    unfold readMagnitude at h
    split at h
    · cases h
    · rename_i hempty
      simp only at h
      cases hscan : decimal.scan (if negative then Word.positiveCount + 1 else Word.positiveCount)
          0 digits with
      | error fault =>
          rw [hscan] at h
          cases h
      | ok value =>
          rw [hscan] at h
          obtain ⟨hdigits, rfl, hlimit⟩ :=
            (decimal.scan_eq_ok_iff (by split <;> decide) digits value).mp hscan
          exact ⟨by simpa using hempty, hdigits, hlimit, Except.ok.inj h⟩
  · rintro ⟨hne, hdigits, hlimit, rfl⟩
    exact readMagnitude_of_digits negative text hne hdigits hlimit

/-- A pattern that is read is the number of its digits. -/
theorem placeValue_of_readPattern {base : Base} {text digits : Text} {word : Word}
    (h : base.readPattern text digits = .ok word) : base.placeValue digits = word.toNat := by
  obtain ⟨-, -, hlimit, rfl⟩ := (base.readPattern_eq_ok_iff text digits word).mp h
  rw [BitVec.toNat_ofNat, Nat.mod_eq_of_lt hlimit]

/-- A magnitude that is read is the number of its digits, with the sign in
front. -/
theorem toInt_of_readMagnitude {negative : Bool} {text digits : Text} {word : Word}
    (h : readMagnitude negative text digits = .ok word) :
    word.toInt
      = if negative then -(decimal.placeValue digits : Int) else decimal.placeValue digits := by
  obtain ⟨-, -, hlimit, rfl⟩ := (readMagnitude_eq_ok_iff negative text digits word).mp h
  generalize decimal.placeValue digits = value at hlimit ⊢
  -- The limit leaves room for the words of this sign, and for no other number.
  have hrange : Word.InRange (if negative then -(value : Int) else value) := by
    cases negative with
    | false =>
        have hlt : value < 0x8000000000000000 := hlimit
        show -0x8000000000000000 ≤ (value : Int) ∧ (value : Int) < 0x8000000000000000
        omega
    | true =>
        have hlt : value < 0x8000000000000000 + 1 := hlimit
        show -0x8000000000000000 ≤ -(value : Int) ∧ -(value : Int) < 0x8000000000000000
        omega
  exact Word.toInt_of_ofInt? (if_pos hrange)

/-- A decimal number without a sign is its magnitude. -/
theorem readSigned_of_unsigned {text : Text} (hne : text ≠ [])
    (h : ∀ c ∈ text.head?, c ≠ '+' ∧ c ≠ '-') :
    readSigned text = readMagnitude false text text := by
  unfold readSigned
  split
  · contradiction
  · exact absurd rfl (h '+' rfl).1
  · exact absurd rfl (h '-' rfl).2
  · rfl

/-- Digits carry no sign. -/
theorem unsigned_of_digits {text : Text} (hdigits : ∀ c ∈ text, decimal.isDigit c = true) :
    ∀ c ∈ text.head?, c ≠ '+' ∧ c ≠ '-' := by
  intro c hc
  have hdigit := hdigits c (List.mem_of_mem_head? hc)
  constructor <;> rintro rfl <;> cases hdigit

theorem readSigned_of_digits {text : Text} (hne : text ≠ [])
    (hdigits : ∀ c ∈ text, decimal.isDigit c = true) :
    readSigned text = readMagnitude false text text :=
  readSigned_of_unsigned hne (unsigned_of_digits hdigits)

/-- Behind a minus the digits of every word are read. The magnitude may reach
the limit of the positive numbers, and no more. -/
theorem readMagnitude_shownDigits (text : Text) (word : Word) :
    readMagnitude true text (decimal.shownDigits word)
      = .ok (BitVec.ofInt 64 (-word.toInt.natAbs)) := by
  have hvalue : decimal.placeValue (decimal.shownDigits word) = word.toInt.natAbs :=
    decimal.placeValue_shownDigits word
  have hlo := BitVec.le_toInt word
  have hhi := BitVec.toInt_lt (x := word)
  have hread := readMagnitude_of_digits true text (decimal.shownDigits_ne_nil word)
    (decimal.isDigit_of_mem_shownDigits word)
    (by simp only [if_true, hvalue, Word.positiveCount]; omega)
  rw [hread, hvalue, if_pos rfl]

/-- A written decimal number reads back, with or without a minus. -/
theorem readSigned_write (word : Word) : readSigned (decimal.write word) = .ok word := by
  have hdigits := decimal.isDigit_of_mem_shownDigits word
  have hne := decimal.shownDigits_ne_nil word
  have hvalue : decimal.placeValue (decimal.shownDigits word) = word.toInt.natAbs :=
    decimal.placeValue_shownDigits word
  have hhi := BitVec.toInt_lt (x := word)
  rw [write_eq, lead]
  by_cases hneg : word.toInt < 0
  · rw [if_pos hneg, List.singleton_append, readSigned, readMagnitude_shownDigits,
      Int.ofNat_natAbs_of_nonpos (Int.le_of_lt hneg), Int.neg_neg, BitVec.ofInt_toInt]
  · have hread := readMagnitude_of_digits false (decimal.shownDigits word) hne hdigits
      (by simp only [Bool.false_eq_true, if_false, hvalue, Word.positiveCount]; omega)
    rw [if_neg hneg, List.nil_append, readSigned_of_digits hne hdigits, hread, hvalue,
      if_neg Bool.false_ne_true, Int.natAbs_of_nonneg (Int.not_lt.mp hneg), BitVec.ofInt_toInt]

/-- What is written of a word in a base reads back in this base. -/
theorem read_write (base : Base) (word : Word) : base.read (base.write word) = .ok word := by
  have htrim := Text.trim_eq_self_of_forall (base.not_white_of_mem_write word)
  have hdigits := base.isDigit_of_mem_shownDigits word
  have hne := base.shownDigits_ne_nil word
  have hvalue := base.placeValue_shownDigits word
  -- The bases differ in what the reader takes away in front of the digits.
  cases base with
  | decimal =>
      rw [read, htrim]
      exact readSigned_write word
  | hex =>
      have hdrop : dropHexMark (hex.write word) = hex.shownDigits word := by
        rw [write_eq]
        rfl
      have hread := readPattern_of_digits (hex.write word) hne hdigits (hvalue ▸ word.isLt)
      simp only [read, htrim, hdrop, hread, hvalue, magnitude, BitVec.ofNat_toNat,
        BitVec.setWidth_eq]
  | binary =>
      have hsame : binary.write word = binary.shownDigits word := binary.write_eq word
      have hread := readPattern_of_digits (binary.write word) hne hdigits (hvalue ▸ word.isLt)
      rw [← hsame] at hread hvalue
      simp only [read, htrim, hread, hvalue, magnitude, BitVec.ofNat_toNat, BitVec.setWidth_eq]

/-! ### The shape of what is read -/

/-- What may stand in front of the digits of a number that is read. -/
def leads : Base → List Text
  | decimal => [[], ['+'], ['-']]
  | hex => [[], "0x".toList, "0X".toList]
  | binary => [[]]

theorem isDigit_of_readPattern {base : Base} {text digits : Text} {word : Word}
    (h : base.readPattern text digits = .ok word) : ∀ c ∈ digits, base.isDigit c = true :=
  ((base.readPattern_eq_ok_iff text digits word).mp h).2.1

theorem isDigit_of_readMagnitude {negative : Bool} {text digits : Text} {word : Word}
    (h : readMagnitude negative text digits = .ok word) :
    ∀ c ∈ digits, decimal.isDigit c = true :=
  ((readMagnitude_eq_ok_iff negative text digits word).mp h).2.1

/-- A text is its mark and what stands behind it. -/
theorem exists_eq_append_dropHexMark (text : Text) :
    ∃ lead ∈ hex.leads, text = lead ++ dropHexMark text := by
  unfold dropHexMark hexMarkLength
  split
  · exact ⟨"0x".toList, by simp [leads], rfl⟩
  · exact ⟨"0X".toList, by simp [leads], rfl⟩
  · exact ⟨[], by simp [leads], rfl⟩

/-- A number that is read is a row of digits behind a sign or a mark, with
white space around it. -/
theorem exists_lead_of_read {base : Base} {text : Text} {word : Word}
    (h : base.read text = .ok word) :
    ∃ lead ∈ base.leads, ∃ digits, Text.trim text = lead ++ digits
      ∧ ∀ c ∈ digits, base.isDigit c = true := by
  unfold read at h
  generalize Text.trim text = trimmed at h ⊢
  cases base with
  | decimal =>
      simp only [readSigned] at h
      split at h
      · cases h
      · exact ⟨['+'], by simp [leads], _, rfl, isDigit_of_readMagnitude h⟩
      · exact ⟨['-'], by simp [leads], _, rfl, isDigit_of_readMagnitude h⟩
      · exact ⟨[], by simp [leads], _, rfl, isDigit_of_readMagnitude h⟩
  | hex =>
      obtain ⟨lead, hlead, htrimmed⟩ := exists_eq_append_dropHexMark trimmed
      exact ⟨lead, hlead, _, htrimmed, isDigit_of_readPattern h⟩
  | binary => exact ⟨[], by simp [leads], trimmed, rfl, isDigit_of_readPattern h⟩

/-- What holds of every sign, of the characters of a mark and of every
digit holds of what is read. -/
theorem of_mem_trim_of_read {p : Char → Bool} {base : Base} {text : Text} {word : Word}
    (hlead : base.leads.all (·.all p) = true) (hdigits : digitChars.all p = true)
    (h : base.read text = .ok word) : ∀ c ∈ Text.trim text, p c = true := by
  obtain ⟨lead, hmem, digits, htrim, hall⟩ := exists_lead_of_read h
  intro c hc
  rw [htrim] at hc
  rcases List.mem_append.mp hc with hc | hc
  · exact List.all_eq_true.mp (List.all_eq_true.mp hlead lead hmem) c hc
  · exact of_isDigit hdigits (hall c hc)

/-- There is no white space inside a number. -/
theorem not_white_of_mem_trim_of_read {base : Base} {text : Text} {word : Word}
    (h : base.read text = .ok word) : ∀ c ∈ Text.trim text, Text.isWhite c = false := by
  have hlead : base.leads.all (·.all fun c => !Text.isWhite c) = true := by cases base <;> decide
  intro c hc
  simpa using of_mem_trim_of_read hlead (by decide) h c hc

/-- A number that is read without a sign has no operator in it. -/
theorem hasOperator_trim_of_read {base : Base} (hbase : base ≠ .decimal) {text : Text} {word : Word}
    (h : base.read text = .ok word) : (Text.trim text).hasOperator = false := by
  have hlead : base.leads.all (·.all fun c => !isOperatorChar c) = true := by
    cases base with
    | decimal => contradiction
    | hex => decide
    | binary => decide
  rw [Text.hasOperator, List.any_eq_false]
  intro c hc
  simpa using of_mem_trim_of_read hlead (by decide) h c hc

/-- The reader does not look at the white space around a number. -/
theorem read_trim (base : Base) (text : Text) : base.read (Text.trim text) = base.read text := by
  cases base <;> simp [read]

/-- White space is no number. -/
theorem read_of_allWhite (base : Base) {text : Text} (h : Text.allWhite text = true) :
    base.read text = .error .empty := by
  unfold read
  rw [(Text.trim_eq_nil_iff text).mpr h]
  cases base <;> rfl

end Base

end BaseConverter
