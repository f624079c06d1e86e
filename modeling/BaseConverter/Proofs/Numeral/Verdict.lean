import BaseConverter.Proofs.Numeral.Reading

/-!
# `BaseConverter.Proofs.Numeral.Verdict`: what a reader says of every text

The text of a number is read from left to right until something is wrong with
it, and what is met first is reported. `Base.Verdict` says the same without a
reader: it looks at the part of the text that has to be digits, at the numbers
that the beginnings of this part stand for, and at whether there is a word for
them. A number is too large as soon as a row of digits at the beginning is, even
if a character that is no digit stands behind it, and a character that is no
digit counts only when no such row stands in front of it.

The bases differ in three things only: what may stand in front of the digits,
which numbers have a word, and whether a text without digits is empty. In
decimal a sign alone is not.

* `Base.scan_eq_tooLarge_iff` and `Base.scan_eq_notDigit_iff`: the two faults
  of a row of characters.
* `Base.read_of_verdict`: a reader gives what the verdict is. As there is a
  verdict on every text (`Base.exists_verdict`), it gives nothing else.
* `Base.read_eq_iff_verdict` is the main statement.
-/

set_option autoImplicit false

namespace BaseConverter

/-- The text without one sign at its head. -/
def dropSign : Text → Text
  | '+' :: rest => rest
  | '-' :: rest => rest
  | text => text

namespace Base

/-- The part of a text that has to be digits. -/
def digitPart : Base → Text → Text
  | decimal, text => dropSign text
  | hex, text => dropHexMark text
  | binary, text => text

/-- The number that a row of digits stands for behind the sign of a text. Only
a decimal number has a sign. -/
def signedValue (base : Base) (text digits : Text) : Int :=
  if base = decimal ∧ text.head? = some '-' then
    -(base.placeValue digits : Int)
  else
    base.placeValue digits

/-- Whether a number in a base has a word. Decimal numbers are signed values,
the others are patterns of 64 bits. -/
def HasWord : Base → Int → Prop
  | decimal, value => Word.InRange value
  | _, value => 0 ≤ value ∧ value < Word.patternCount

/-- The number that a word is in a base. -/
def worth : Base → Word → Int
  | decimal, word => word.toInt
  | _, word => word.toNat

/-- Whether there is nothing to be read. A decimal sign is something. -/
def IsBlank : Base → Text → Prop
  | decimal, text => text = []
  | base, text => base.digitPart text = []

/-- What there is to say of a text without white space around it. -/
inductive Verdict (base : Base) (text : Text) : Except NumeralError Word → Prop
  /-- There are digits and nothing else, and there is a word for the number
  that they stand for with their sign. -/
  | number {word : Word} (some_digit : base.digitPart text ≠ [])
      (digits : ∀ c ∈ base.digitPart text, base.isDigit c = true)
      (has_word : base.HasWord (base.signedValue text (base.digitPart text)))
      (worth_eq : base.worth word = base.signedValue text (base.digitPart text)) :
      Verdict base text (.ok word)
  | empty (blank : base.IsBlank text) : Verdict base text (.error .empty)
  /-- The number of some first digits is too large already. -/
  | outOfRange {front : Text} (begins : front <+: base.digitPart text)
      (digits : ∀ c ∈ front, base.isDigit c = true)
      (no_word : ¬ base.HasWord (base.signedValue text front)) :
      Verdict base text (.error (.outOfRange text))
  /-- There is no digit behind a sign, or there is something else than digits,
  and no number in front of it is too large. -/
  | invalidDigits (not_blank : ¬ base.IsBlank text)
      (has_word : ∀ front, front <+: base.digitPart text →
        (∀ c ∈ front, base.isDigit c = true) → base.HasWord (base.signedValue text front))
      (fault : base.digitPart text = [] ∨ ∃ c ∈ base.digitPart text, base.isDigit c = false) :
      Verdict base text (.error (.invalidDigits text base))

/-! ### The faults of a row of characters -/

/-- A number is too large when the first digits stand for a number that is. -/
theorem scan_eq_tooLarge_iff (base : Base) {limit value : Nat} (hvalue : value < limit)
    (digits : Text) :
    base.scan limit value digits = .error .tooLarge
      ↔ ∃ front, front <+: digits ∧ (∀ c ∈ front, base.isDigit c = true)
        ∧ limit ≤ base.placeValueFrom value front := by
  -- No number is too large without any digit.
  have hnil : ¬ limit ≤ base.placeValueFrom value [] := Nat.not_le.mpr hvalue
  induction digits generalizing value with
  | nil =>
      simp only [scan, List.prefix_nil, reduceCtorEq, false_iff]
      rintro ⟨front, rfl, -, hlarge⟩
      exact hnil hlarge
  | cons c rest ih =>
      have hcons : (∃ front, front <+: c :: rest ∧ (∀ d ∈ front, base.isDigit d = true)
            ∧ limit ≤ base.placeValueFrom value front)
          ↔ base.isDigit c = true ∧ ∃ front, front <+: rest
            ∧ (∀ d ∈ front, base.isDigit d = true)
            ∧ limit ≤ base.placeValueFrom (value * base.radix + (base.digit? c).getD 0) front := by
        constructor
        · rintro ⟨front, hfront, hdigits, hlarge⟩
          rcases List.prefix_cons_iff.mp hfront with rfl | ⟨others, rfl, hothers⟩
          · exact absurd hlarge hnil
          · exact ⟨hdigits c List.mem_cons_self, others, hothers,
              fun d hd => hdigits d (List.mem_cons_of_mem c hd), hlarge⟩
        · rintro ⟨hc, others, hothers, hdigits, hlarge⟩
          exact ⟨c :: others, List.prefix_cons_iff.mpr (.inr ⟨others, rfl, hothers⟩),
            List.forall_mem_cons.mpr ⟨hc, hdigits⟩, hlarge⟩
      rw [hcons, scan, isDigit]
      cases base.digit? c with
      | none => simp
      | some digit =>
          simp only [Option.isSome_some, Option.getD_some, true_and]
          by_cases hnext : value * base.radix + digit < limit
          · rw [if_pos hnext]
            exact ih hnext (Nat.not_le.mpr hnext)
          · rw [if_neg hnext]
            exact iff_of_true rfl
              ⟨[], List.nil_prefix, List.forall_mem_nil _, Nat.le_of_not_lt hnext⟩

/-- A character that is no digit is reported when no number in front of it is
too large. -/
theorem scan_eq_notDigit_iff (base : Base) {limit : Nat} (hpos : 0 < limit) (digits : Text) :
    base.scan limit 0 digits = .error .notDigit
      ↔ (∀ front, front <+: digits → (∀ c ∈ front, base.isDigit c = true) →
          base.placeValue front < limit)
        ∧ ∃ c ∈ digits, base.isDigit c = false := by
  have hlarge := base.scan_eq_tooLarge_iff hpos digits
  have hok := base.scan_eq_ok_iff hpos digits
  constructor
  · intro h
    have hfits : ∀ front, front <+: digits → (∀ c ∈ front, base.isDigit c = true) →
        base.placeValue front < limit := by
      intro front hfront hdigits
      by_contra hnot
      have herror := hlarge.mpr ⟨front, hfront, hdigits, Nat.le_of_not_lt hnot⟩
      rw [h] at herror
      cases herror
    refine ⟨hfits, ?_⟩
    by_contra hall
    -- A row of nothing but digits would have been read.
    have hdigits : ∀ c ∈ digits, base.isDigit c = true := by
      intro c hc
      by_contra hnot
      exact hall ⟨c, hc, Bool.eq_false_iff.mpr hnot⟩
    have hread := scan_of_digits hdigits (hfits digits (List.prefix_refl _) hdigits)
    rw [h] at hread
    cases hread
  · rintro ⟨hfits, c, hc, hnot⟩
    cases hscan : base.scan limit 0 digits with
    | ok value =>
        have hdigit := ((hok value).mp hscan).1 c hc
        rw [hnot] at hdigit
        cases hdigit
    | error fault =>
        cases fault with
        | notDigit => rfl
        | tooLarge =>
            obtain ⟨front, hfront, hdigits, hle⟩ := hlarge.mp hscan
            exact absurd (hfits front hfront hdigits) (Nat.not_lt.mpr hle)

/-! ### What the bases have in common -/

/-- The first number that is too large behind the sign of a text. -/
def limitOf (base : Base) (text : Text) : Nat :=
  if base = decimal then
    if text.head? = some '-' then Word.positiveCount + 1 else Word.positiveCount
  else
    Word.patternCount

theorem limitOf_pos (base : Base) (text : Text) : 0 < base.limitOf text := by
  unfold limitOf
  split
  · split <;> decide
  · decide

/-- The numbers that have a word are those below the limit. -/
theorem hasWord_iff (base : Base) (text digits : Text) :
    base.HasWord (base.signedValue text digits)
      ↔ base.placeValue digits < base.limitOf text := by
  unfold signedValue limitOf
  generalize base.placeValue digits = value
  cases base with
  | decimal =>
      by_cases hneg : text.head? = some '-'
      · simp only [hneg, and_self, if_true]
        show -0x8000000000000000 ≤ -(value : Int) ∧ -(value : Int) < 0x8000000000000000
          ↔ value < 0x8000000000000000 + 1
        omega
      · simp only [hneg, and_false, if_false, if_true]
        show -0x8000000000000000 ≤ (value : Int) ∧ (value : Int) < 0x8000000000000000
          ↔ value < 0x8000000000000000
        omega
  | hex | binary =>
      show 0 ≤ (value : Int) ∧ (value : Int) < 0x10000000000000000 ↔ value < 0x10000000000000000
      omega

/-- A number that has a word is what some word is. -/
theorem exists_worth_eq {base : Base} {value : Int} (h : base.HasWord value) :
    ∃ word, base.worth word = value := by
  cases base with
  | decimal => exact ⟨BitVec.ofInt 64 value, Word.toInt_of_ofInt? (if_pos h)⟩
  | hex | binary =>
      obtain ⟨hlo, hhi⟩ := h
      have hlt : value.toNat < Word.patternCount := by omega
      refine ⟨BitVec.ofNat 64 value.toNat, ?_⟩
      show ((BitVec.ofNat 64 value.toNat).toNat : Int) = value
      rw [BitVec.toNat_ofNat, Nat.mod_eq_of_lt hlt]
      omega

/-- A word is known by the number that it is. -/
theorem worth_injective {base : Base} {word word' : Word} (h : base.worth word = base.worth word') :
    word = word' := by
  cases base with
  | decimal => exact BitVec.toInt_inj.mp h
  | hex | binary => exact BitVec.eq_of_toNat_eq (Int.ofNat.inj h)

/-- A decimal number is the magnitude behind its sign. -/
theorem readSigned_eq {text : Text} (hne : text ≠ []) :
    readSigned text = readMagnitude (text.head? == some '-') text (dropSign text) := by
  unfold dropSign
  split
  · rfl
  · rfl
  · rename_i hplus hminus
    have hunsigned : ∀ c ∈ text.head?, c ≠ '+' ∧ c ≠ '-' := by
      intro c hc
      obtain ⟨rest, rfl⟩ := List.head?_eq_some_iff.mp hc
      exact ⟨fun h => hplus rest (congrArg (· :: rest) h),
        fun h => hminus rest (congrArg (· :: rest) h)⟩
    have hsign : text.head? ≠ some '-' := fun h => (hunsigned '-' h).2 rfl
    rw [readSigned_of_unsigned hne hunsigned, beq_eq_false_iff_ne.mpr hsign]

/-! ### The verdict is what is read -/

variable {base : Base} {text : Text}

theorem read_of_blank (h : base.IsBlank (Text.trim text)) : base.read text = .error .empty := by
  cases base with
  | decimal =>
      have hnil : Text.trim text = [] := h
      simp only [read, hnil]
      rfl
  | hex | binary => exact if_pos (List.isEmpty_iff.mpr h)

/-- A sign alone is not a number. -/
theorem read_of_no_digits (hsome : ¬ base.IsBlank (Text.trim text))
    (hnone : base.digitPart (Text.trim text) = []) :
    base.read text = .error (.invalidDigits (Text.trim text) base) := by
  cases base with
  | decimal =>
      show readSigned (Text.trim text) = _
      rw [readSigned_eq hsome]
      exact if_pos (List.isEmpty_iff.mpr hnone)
  | hex | binary => exact absurd hnone hsome

/-- A fault among the digits is not that there are none. -/
theorem ne_nil_of_scan_eq_error {limit value : Nat} {digits : Text} {fault : DigitFault}
    (h : base.scan limit value digits = .error fault) : digits ≠ [] := by
  rintro rfl
  cases h

theorem readPattern_of_scan_eq_error {digits : Text} {fault : DigitFault}
    (h : base.scan Word.patternCount 0 digits = .error fault) :
    base.readPattern text digits = .error (base.faultOf text fault) := by
  rw [readPattern, if_neg (by simpa using ne_nil_of_scan_eq_error h), h]

theorem readMagnitude_of_scan_eq_error {negative : Bool} {digits : Text} {fault : DigitFault}
    (h : decimal.scan (if negative then Word.positiveCount + 1 else Word.positiveCount) 0 digits
      = .error fault) :
    readMagnitude negative text digits = .error (decimal.faultOf text fault) := by
  rw [readMagnitude, if_neg (by simpa using ne_nil_of_scan_eq_error h)]
  simp only [h]

/-- Where there are digits to be expected, there is a text. -/
theorem ne_nil_of_dropSign (h : dropSign text ≠ []) : text ≠ [] := by
  rintro rfl
  exact h rfl

/-- The fault of the digits is the fault of the number. -/
theorem read_of_scan_eq_error {fault : DigitFault}
    (h : base.scan (base.limitOf (Text.trim text)) 0 (base.digitPart (Text.trim text))
      = .error fault) :
    base.read text = .error (base.faultOf (Text.trim text) fault) := by
  cases base with
  | decimal =>
      show readSigned (Text.trim text) = _
      rw [readSigned_eq (ne_nil_of_dropSign (ne_nil_of_scan_eq_error h))]
      exact readMagnitude_of_scan_eq_error (by simpa [limitOf, digitPart] using h)
  | hex | binary => exact readPattern_of_scan_eq_error h

/-- Digits of a number that has a word are read as this word. -/
theorem exists_read_of_digits (hne : base.digitPart (Text.trim text) ≠ [])
    (hdigits : ∀ c ∈ base.digitPart (Text.trim text), base.isDigit c = true)
    (hlimit : base.placeValue (base.digitPart (Text.trim text)) < base.limitOf (Text.trim text)) :
    ∃ word, base.read text = .ok word
      ∧ base.worth word
        = base.signedValue (Text.trim text) (base.digitPart (Text.trim text)) := by
  cases base with
  | decimal =>
      have hread := readMagnitude_of_digits ((Text.trim text).head? == some '-') (Text.trim text)
        hne hdigits (by simpa [limitOf] using hlimit)
      refine ⟨_, (readSigned_eq (ne_nil_of_dropSign hne)).trans hread, ?_⟩
      show BitVec.toInt _ = _
      rw [toInt_of_readMagnitude hread]
      simp [signedValue, digitPart]
  | hex | binary =>
      have hread := readPattern_of_digits (Text.trim text) hne hdigits hlimit
      exact ⟨_, hread, congrArg Int.ofNat (placeValue_of_readPattern hread).symm⟩

/-- A reader gives what the verdict on a text is. -/
theorem read_of_verdict {result : Except NumeralError Word}
    (h : base.Verdict (Text.trim text) result) : base.read text = result := by
  have hpos := base.limitOf_pos (Text.trim text)
  cases h with
  | number hne hdigits hword hworth =>
      obtain ⟨word, hread, heq⟩ := exists_read_of_digits hne hdigits
        ((base.hasWord_iff _ _).mp hword)
      rw [hread, worth_injective (heq.trans hworth.symm)]
  | empty hblank => exact read_of_blank hblank
  | outOfRange hfront hdigits hlarge =>
      rw [hasWord_iff, Nat.not_lt] at hlarge
      exact read_of_scan_eq_error
        ((base.scan_eq_tooLarge_iff hpos _).mpr ⟨_, hfront, hdigits, hlarge⟩)
  | invalidDigits hsome hfits hfault =>
      rcases hfault with hnone | hother
      · exact read_of_no_digits hsome hnone
      · refine read_of_scan_eq_error ((base.scan_eq_notDigit_iff hpos _).mpr ⟨?_, hother⟩)
        exact fun front hfront hdigits =>
          (base.hasWord_iff _ _).mp (hfits front hfront hdigits)

/-- There is a verdict on every text. -/
theorem exists_verdict (base : Base) (text : Text) : ∃ result, base.Verdict text result := by
  by_cases hblank : base.IsBlank text
  · exact ⟨_, .empty hblank⟩
  · by_cases hlarge : ∃ front, front <+: base.digitPart text
        ∧ (∀ c ∈ front, base.isDigit c = true) ∧ ¬ base.HasWord (base.signedValue text front)
    · obtain ⟨front, hfront, hdigits, hno⟩ := hlarge
      exact ⟨_, .outOfRange hfront hdigits hno⟩
    · have hfits : ∀ front, front <+: base.digitPart text →
          (∀ c ∈ front, base.isDigit c = true) → base.HasWord (base.signedValue text front) := by
        intro front hfront hdigits
        by_contra hno
        exact hlarge ⟨front, hfront, hdigits, hno⟩
      by_cases hall : base.digitPart text ≠ [] ∧ ∀ c ∈ base.digitPart text, base.isDigit c = true
      · have hword := hfits _ (List.prefix_refl _) hall.2
        obtain ⟨word, hworth⟩ := exists_worth_eq hword
        exact ⟨_, .number hall.1 hall.2 hword hworth⟩
      · refine ⟨_, .invalidDigits hblank hfits ?_⟩
        simpa only [not_and_or, not_not, not_forall, exists_prop, Bool.not_eq_true] using hall

/-- What is read from a text is the verdict on the text without the white space
around it: a word when there are digits and nothing else and there is a word
for their number, and otherwise the first thing that is wrong. -/
theorem read_eq_iff_verdict (base : Base) (text : Text) (result : Except NumeralError Word) :
    base.read text = result ↔ base.Verdict (Text.trim text) result := by
  refine ⟨?_, read_of_verdict⟩
  rintro rfl
  obtain ⟨result, hverdict⟩ := exists_verdict base (Text.trim text)
  rw [read_of_verdict hverdict]
  exact hverdict

/-- Which fault stands first decides between the two. -/
example : binary.read (List.replicate 65 '1' ++ ['2'])
      = .error (.outOfRange (List.replicate 65 '1' ++ ['2']))
    ∧ binary.read (List.replicate 64 '1' ++ ['2'])
      = .error (.invalidDigits (List.replicate 64 '1' ++ ['2']) .binary) := ⟨rfl, rfl⟩

end Base

end BaseConverter
