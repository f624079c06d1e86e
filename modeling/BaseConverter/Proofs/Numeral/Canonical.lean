import BaseConverter.Proofs.Numeral.Reading
import Mathlib.Data.List.Basic
import Mathlib.Data.List.Induction

/-!
# `BaseConverter.Proofs.Numeral.Canonical`: the one written form of a word

A reader accepts a word in many spellings: with small letters, without
the mark, with any number of zeros in front. Only one of them is written.
This module says which it is, in terms of the characters alone.

`Base.Canonical` is a row of digits as a base writes it: capitals, whole
units of digits (one, two or eight of them), and no unit of zeros in front
of another. Two facts meet in the main statement:

* `Base.Canonical.unique`: no two such rows stand for the same number. Behind
  the zeros in front a row is known by its number (`Base.digits_placeValue`),
  and how many zeros there are is known from the number of digits behind
  them.
* `Base.canonical_shownDigits`: the digits that are written are such a row.

* `Base.eq_write_iff_canonical` is the main statement.
-/

set_option autoImplicit false

namespace BaseConverter.Base

/-- The characters that the digits of a base are written with. -/
def capitals (base : Base) : Text :=
  "0123456789ABCDEF".toList.take base.radix

/-- A unit of digits that are all zero. -/
def zeroUnit (base : Base) : Text :=
  List.replicate base.digitUnit '0'

/-- A row of digits as a base writes it. -/
structure Canonical (base : Base) (digits : Text) : Prop where
  /-- There is a digit. -/
  nonempty : digits ≠ []
  /-- The digits are written with capitals. -/
  capital : ∀ c ∈ digits, c ∈ base.capitals
  /-- They make up whole units. -/
  units : digits.length % base.digitUnit = 0
  /-- They do not begin with a unit of zeros, unless that is all. -/
  least : base.zeroUnit <+: digits → digits = base.zeroUnit

/-! ### Rows of capitals -/

/-- A capital is the character that its value is written with. -/
theorem digit?_of_mem_capitals {base : Base} {c : Char} (h : c ∈ base.capitals) :
    ∃ value < base.radix, base.digit? c = some value ∧ value.digitChar.toUpper = c := by
  have hall : base.capitals.all (fun d =>
      (base.digit? d).any fun value => value.digitChar.toUpper == d) = true := by
    cases base <;> decide
  have hc := List.all_eq_true.mp hall c h
  cases hvalue : base.digit? c with
  | none =>
      rw [hvalue] at hc
      cases hc
  | some value =>
      rw [hvalue] at hc
      exact ⟨value, digit?_lt hvalue, rfl, by simpa using hc⟩

theorem digitChar_mem_capitals {base : Base} {value : Nat} (h : value < base.radix) :
    value.digitChar.toUpper ∈ base.capitals := by
  have hall : ∀ v : Fin base.radix, base.capitals.contains v.val.digitChar.toUpper = true := by
    cases base <;> decide
  simpa using hall ⟨value, h⟩

theorem isDigit_of_mem_capitals {base : Base} {c : Char} (h : c ∈ base.capitals) :
    base.isDigit c = true := by
  obtain ⟨value, -, hvalue, -⟩ := digit?_of_mem_capitals h
  rw [isDigit, hvalue]
  rfl

theorem zero_mem_capitals (base : Base) : '0' ∈ base.capitals := by
  cases base <;> simp [capitals, radix]

/-- The digits of a number are capitals. -/
theorem mem_capitals_of_mem_digits (base : Base) (n : Nat) :
    ∀ c ∈ base.digits n, c ∈ base.capitals := by
  induction n using base.digits_induction with
  | last n hsmall =>
      intro c hc
      rw [digits_of_lt hsmall, List.mem_singleton] at hc
      rw [hc]
      exact digitChar_mem_capitals hsmall
  | more n hlarge ih =>
      intro c hc
      rw [digits_of_le hlarge, List.mem_append, List.mem_singleton] at hc
      rcases hc with hc | rfl
      · exact ih c hc
      · exact digitChar_mem_capitals (Nat.mod_lt n (Nat.zero_lt_of_lt base.one_lt_radix))

theorem digits_zero (base : Base) : base.digits 0 = ['0'] := by
  cases base <;> rfl

/-- Only the digits of zero begin with zero. -/
theorem head?_digits {base : Base} {n : Nat} (h : n ≠ 0) : (base.digits n).head? ≠ some '0' := by
  induction n using base.digits_induction with
  | last n hsmall =>
      -- A digit that is written as zero stands for zero.
      intro hzero
      rw [digits_of_lt hsmall, List.head?_singleton, Option.some.injEq] at hzero
      have hvalue := digit?_toUpper_digitChar hsmall
      rw [hzero] at hvalue
      have hnil : base.digit? '0' = some 0 := by cases base <;> rfl
      rw [hnil, Option.some.injEq] at hvalue
      exact h hvalue.symm
  | more n hlarge ih =>
      have hpos : n / base.radix ≠ 0 := by
        have := Nat.div_pos hlarge (Nat.zero_lt_of_lt base.one_lt_radix)
        omega
      rw [digits_of_le hlarge, List.head?_append_of_ne_nil _ (base.digits_ne_nil _)]
      exact ih hpos

/-- A row of capitals that does not begin with zero does not stand for
zero. -/
theorem placeValue_ne_zero {base : Base} {digits : Text} (hne : digits ≠ [])
    (hcapital : ∀ c ∈ digits, c ∈ base.capitals) (hhead : digits.head? ≠ some '0') :
    base.placeValue digits ≠ 0 := by
  induction digits using List.reverseRecOn with
  | nil => exact absurd rfl hne
  | append_singleton front c ih =>
      obtain ⟨value, -, hdigit, hchar⟩ := digit?_of_mem_capitals (hcapital c (by simp))
      rw [placeValue_append_singleton, hdigit, Option.getD_some]
      by_cases hfront : front = []
      · -- The first digit is the last one too.
        subst hfront
        have hvalue : value ≠ 0 := by
          rintro rfl
          exact hhead (congrArg some hchar.symm)
        omega
      · rw [List.head?_append_of_ne_nil _ hfront] at hhead
        have hrest := ih hfront (fun d hd => hcapital d (List.mem_append_left [c] hd)) hhead
        have hradix := base.one_lt_radix
        have := Nat.mul_pos (Nat.pos_of_ne_zero hrest) (Nat.zero_lt_of_lt hradix)
        omega

/-- A row of capitals that does not begin with zero is the digits of its
number. -/
theorem digits_placeValue {base : Base} {digits : Text} (hne : digits ≠ [])
    (hcapital : ∀ c ∈ digits, c ∈ base.capitals) (hhead : digits.head? ≠ some '0') :
    base.digits (base.placeValue digits) = digits := by
  -- The last digit is the remainder by the number of digits, so the row is
  -- taken apart from its end.
  induction digits using List.reverseRecOn with
  | nil => exact absurd rfl hne
  | append_singleton front c ih =>
      obtain ⟨value, hvalue, hdigit, hchar⟩ := digit?_of_mem_capitals (hcapital c (by simp))
      rw [placeValue_append_singleton, hdigit, Option.getD_some]
      by_cases hfront : front = []
      · subst hfront
        show base.digits (0 * base.radix + value) = [c]
        rw [Nat.zero_mul, Nat.zero_add, digits_of_lt hvalue, hchar]
      · rw [List.head?_append_of_ne_nil _ hfront] at hhead
        have hcapital' : ∀ d ∈ front, d ∈ base.capitals := by
          intro d hd
          exact hcapital d (List.mem_append_left [c] hd)
        have hpos := Nat.pos_of_ne_zero (placeValue_ne_zero hfront hcapital' hhead)
        have hradix := base.one_lt_radix
        have hlarge : base.radix ≤ base.placeValue front * base.radix + value := by
          have := Nat.le_mul_of_pos_left base.radix hpos
          omega
        have hdiv : (base.placeValue front * base.radix + value) / base.radix
            = base.placeValue front := by
          rw [Nat.mul_comm, Nat.mul_add_div (by omega), Nat.div_eq_of_lt hvalue, Nat.add_zero]
        have hmod : (base.placeValue front * base.radix + value) % base.radix = value := by
          rw [Nat.mul_comm, Nat.mul_add_mod, Nat.mod_eq_of_lt hvalue]
        rw [digits_of_le hlarge, hdiv, hmod, ih hfront hcapital' hhead, hchar]

/-! ### Zeros in front -/

/-- A row is some zeros in front of a row that does not begin with
zero. -/
theorem exists_eq_replicate_append (digits : Text) :
    ∃ count rest, digits = List.replicate count '0' ++ rest ∧ rest.head? ≠ some '0' := by
  induction digits with
  | nil => exact ⟨0, [], rfl, by simp⟩
  | cons c rest ih =>
      by_cases hc : c = '0'
      · obtain ⟨count, back, hrest, hhead⟩ := ih
        refine ⟨count + 1, back, ?_, hhead⟩
        rw [hc, hrest, List.replicate_succ, List.cons_append]
      · exact ⟨0, c :: rest, rfl, by simpa using hc⟩

/-- A row as a base writes it has fewer zeros in front of its first other
digit than a unit has digits. -/
theorem Canonical.count_lt {base : Base} {count : Nat} {rest : Text}
    (h : base.Canonical (List.replicate count '0' ++ rest)) (hhead : rest.head? ≠ some '0')
    (hne : rest ≠ []) : count < base.digitUnit := by
  by_contra hle
  have hprefix : base.zeroUnit <+: List.replicate count '0' ++ rest := by
    refine List.IsPrefix.trans ?_ (List.prefix_append _ _)
    refine ⟨List.replicate (count - base.digitUnit) '0', ?_⟩
    rw [zeroUnit, List.replicate_append_replicate]
    congr 1
    omega
  -- All of the row would be zeros, and its last part is not.
  obtain ⟨c, others, rfl⟩ := List.exists_cons_of_ne_nil hne
  have hmem : c ∈ base.zeroUnit := by
    rw [← h.least hprefix]
    simp
  rw [List.eq_of_mem_replicate hmem] at hhead
  exact hhead rfl

/-- A row of nothing but zeros, as a base writes it, is one unit. -/
theorem Canonical.eq_zeroUnit {base : Base} {count : Nat}
    (h : base.Canonical (List.replicate count '0')) :
    List.replicate count '0' = base.zeroUnit := by
  have hpos : count ≠ 0 := by
    rintro rfl
    exact h.nonempty rfl
  have hunits := h.units
  rw [List.length_replicate] at hunits
  have hle : base.digitUnit ≤ count :=
    Nat.le_of_dvd (Nat.pos_of_ne_zero hpos) (Nat.dvd_of_mod_eq_zero hunits)
  refine h.least ⟨List.replicate (count - base.digitUnit) '0', ?_⟩
  rw [zeroUnit, List.replicate_append_replicate]
  congr 1
  omega

/-- Rows of capitals that do not begin with zero are known by their
number. The empty row stands for zero. -/
theorem eq_of_placeValue_eq {base : Base} {row row' : Text}
    (hcapital : ∀ c ∈ row, c ∈ base.capitals) (hcapital' : ∀ c ∈ row', c ∈ base.capitals)
    (hhead : row.head? ≠ some '0') (hhead' : row'.head? ≠ some '0')
    (hvalue : base.placeValue row = base.placeValue row') : row = row' := by
  by_cases hne : row = []
  · by_cases hne' : row' = []
    · rw [hne, hne']
    · rw [hne] at hvalue
      exact absurd hvalue.symm (placeValue_ne_zero hne' hcapital' hhead')
  · by_cases hne' : row' = []
    · rw [hne'] at hvalue
      exact absurd hvalue (placeValue_ne_zero hne hcapital hhead)
    · rw [← digits_placeValue hne hcapital hhead, hvalue,
        digits_placeValue hne' hcapital' hhead']

/-- Two rows as a base writes them that stand for the same number are the
same. -/
theorem Canonical.unique {base : Base} {digits digits' : Text} (h : base.Canonical digits)
    (h' : base.Canonical digits') (hvalue : base.placeValue digits = base.placeValue digits') :
    digits = digits' := by
  obtain ⟨count, rest, rfl, hhead⟩ := exists_eq_replicate_append digits
  obtain ⟨count', rest', rfl, hhead'⟩ := exists_eq_replicate_append digits'
  rw [placeValue_replicate_append, placeValue_replicate_append] at hvalue
  obtain rfl := eq_of_placeValue_eq (fun c hc => h.capital c (List.mem_append_right _ hc))
    (fun c hc => h'.capital c (List.mem_append_right _ hc)) hhead hhead' hvalue
  by_cases hne : rest = []
  · subst hne
    rw [List.append_nil] at h h' ⊢
    rw [List.append_nil, h.eq_zeroUnit, h'.eq_zeroUnit]
  · -- Both have the same digits behind fewer zeros than make up a unit.
    have hlt := h.count_lt hhead hne
    have hlt' := h'.count_lt hhead hne
    have hunits := h.units
    have hunits' := h'.units
    rw [List.length_append, List.length_replicate] at hunits hunits'
    have hcount : count = count' := by
      cases base <;> simp only [digitUnit] at hlt hlt' hunits hunits' <;> omega
    rw [hcount]

/-! ### The digits that are written -/

/-- The zeros in front of the digits of a number, up to whole units, are
fewer than a unit. -/
theorem wholeUnits_digitUnit (base : Base) {n : Nat} (hpos : 0 < n) :
    n ≤ wholeUnits base.digitUnit n ∧ wholeUnits base.digitUnit n - n < base.digitUnit
    ∧ wholeUnits base.digitUnit n % base.digitUnit = 0 := by
  unfold wholeUnits
  cases base <;> simp only [digitUnit] <;> omega

/-- With fewer zeros in front than make up a unit, only the digits of zero
begin with a unit of zeros. -/
theorem eq_zero_of_zeroUnit_prefix {base : Base} {count n : Nat} (hlt : count < base.digitUnit)
    (h : base.zeroUnit <+: List.replicate count '0' ++ base.digits n) : n = 0 := by
  obtain ⟨back, hback⟩ := h
  -- Position `count` is in the unit, and the first one of the digits.
  have hunit : (base.zeroUnit ++ back)[count]? = some '0' := by
    rw [List.getElem?_append_left (by simpa [zeroUnit] using hlt)]
    simp [zeroUnit, hlt]
  rw [hback, List.getElem?_append_right (by simp), List.length_replicate, Nat.sub_self,
    ← List.head?_eq_getElem?] at hunit
  by_contra hn
  exact head?_digits hn hunit

/-- A row that is written is as its base writes it. -/
theorem canonical_shownDigits (base : Base) (word : Word) :
    base.Canonical (base.shownDigits word) := by
  have hpos : 0 < (base.digits (base.magnitude word)).length :=
    List.length_pos_iff.mpr (base.digits_ne_nil _)
  obtain ⟨hle, hlt, hunits⟩ := base.wholeUnits_digitUnit hpos
  refine ⟨base.shownDigits_ne_nil word, ?_, ?_, ?_⟩
  · intro c hc
    rcases List.mem_append.mp hc with hc | hc
    · rw [List.eq_of_mem_replicate hc]
      exact base.zero_mem_capitals
    · exact base.mem_capitals_of_mem_digits _ c hc
  · show (List.replicate _ '0' ++ base.digits (base.magnitude word)).length % base.digitUnit = 0
    rw [List.length_append, List.length_replicate, Nat.sub_add_cancel hle]
    exact hunits
  · intro hprefix
    have hzero : base.magnitude word = 0 := eq_zero_of_zeroUnit_prefix hlt hprefix
    rw [shownDigits, hzero, digits_zero]
    cases base <;> rfl

/-- A row as a base writes it that stands for the magnitude of a word is
what is written of the word. -/
theorem Canonical.eq_shownDigits {base : Base} {digits : Text} {word : Word}
    (h : base.Canonical digits) (hvalue : base.placeValue digits = base.magnitude word) :
    digits = base.shownDigits word := by
  refine h.unique (base.canonical_shownDigits word) ?_
  rw [hvalue, placeValue_shownDigits]

/-- Capitals carry no white space. -/
theorem not_white_of_mem_capitals {base : Base} {c : Char} (h : c ∈ base.capitals) :
    Text.isWhite c = false :=
  not_white_of_isDigit (isDigit_of_mem_capitals h)

/-! ### The three bases -/

/-- The hexadecimal form of a word. -/
theorem eq_write_hex_iff (word : Word) (text : Text) :
    text = hex.write word ↔ hex.read text = .ok word
      ∧ ∃ digits, text = hexMark ++ digits ∧ hex.Canonical digits := by
  constructor
  · rintro rfl
    exact ⟨hex.read_write word, hex.shownDigits word, hex.write_eq word,
      hex.canonical_shownDigits word⟩
  · rintro ⟨hread, digits, rfl, hcanonical⟩
    have htrim : Text.trim (hexMark ++ digits) = hexMark ++ digits := by
      refine Text.trim_eq_self_of_forall ?_
      intro c hc
      rcases List.mem_append.mp hc with hc | hc
      · have hmark : hexMark.all (fun d => !Text.isWhite d) = true := by decide
        simpa using List.all_eq_true.mp hmark c hc
      · exact not_white_of_mem_capitals (hcanonical.capital c hc)
    have hdrop : dropHexMark (hexMark ++ digits) = digits := rfl
    simp only [read, htrim, hdrop] at hread
    rw [write_eq, hcanonical.eq_shownDigits (placeValue_of_readPattern hread)]
    rfl

/-- The binary form of a word. -/
theorem eq_write_binary_iff (word : Word) (text : Text) :
    text = binary.write word ↔ binary.read text = .ok word ∧ binary.Canonical text := by
  constructor
  · rintro rfl
    refine ⟨binary.read_write word, ?_⟩
    rw [write_eq]
    exact binary.canonical_shownDigits word
  · rintro ⟨hread, hcanonical⟩
    have htrim : Text.trim text = text :=
      Text.trim_eq_self_of_forall fun c hc => not_white_of_mem_capitals (hcanonical.capital c hc)
    simp only [read, htrim] at hread
    rw [write_eq, ← hcanonical.eq_shownDigits (placeValue_of_readPattern hread)]
    rfl

/-- Decimal digits as they are written, with a minus in front, read as a
negative number, unless the text is `-0`. -/
theorem toInt_neg_of_read {digits : Text} {word : Word} (hcanonical : decimal.Canonical digits)
    (hread : readMagnitude true ('-' :: digits) digits = .ok word)
    (hzero : '-' :: digits ≠ "-0".toList) : word.toInt < 0 := by
  have hvalue := toInt_of_readMagnitude hread
  rw [if_pos rfl] at hvalue
  have hne : decimal.placeValue digits ≠ 0 := by
    intro hplace
    -- Zero is written with one digit.
    have hsingle : digits = decimal.shownDigits 0 := hcanonical.eq_shownDigits hplace
    exact hzero (congrArg ('-' :: ·) hsingle)
  omega

/-- The decimal form of a word. -/
theorem eq_write_decimal_iff (word : Word) (text : Text) :
    text = decimal.write word ↔ decimal.read text = .ok word
      ∧ ∃ digits, (text = digits ∨ text = '-' :: digits) ∧ decimal.Canonical digits
        ∧ text ≠ "-0".toList := by
  constructor
  · rintro rfl
    refine ⟨decimal.read_write word, decimal.shownDigits word, ?_,
      decimal.canonical_shownDigits word, ?_⟩
    · rw [write_eq, lead]
      split
      · exact .inr rfl
      · exact .inl rfl
    · intro hzero
      -- The text `-0` reads as zero, which is written without a minus.
      have hread := decimal.read_write word
      rw [hzero] at hread
      have hword : word = 0 := (Except.ok.inj hread).symm
      rw [hword] at hzero
      exact absurd hzero (by decide)
  · rintro ⟨hread, digits, hsign, hcanonical, hzero⟩
    have hdigits : ∀ c ∈ digits, decimal.isDigit c = true :=
      fun c hc => isDigit_of_mem_capitals (hcanonical.capital c hc)
    have htrim : Text.trim text = text := by
      refine Text.trim_eq_self_of_forall ?_
      intro c hc
      rcases hsign with rfl | rfl
      · exact not_white_of_isDigit (hdigits c hc)
      · rcases List.mem_cons.mp hc with rfl | hc
        · decide
        · exact not_white_of_isDigit (hdigits c hc)
    simp only [read, htrim] at hread
    rw [write_eq, lead]
    rcases hsign with rfl | rfl
    · rw [readSigned_of_digits hcanonical.nonempty hdigits] at hread
      have hvalue := toInt_of_readMagnitude hread
      rw [if_neg Bool.false_ne_true] at hvalue
      rw [if_neg (by omega), List.nil_append]
      refine hcanonical.eq_shownDigits ?_
      show decimal.placeValue text = word.toInt.natAbs
      omega
    · have hneg := toInt_neg_of_read hcanonical hread hzero
      have hvalue := toInt_of_readMagnitude hread
      rw [if_pos rfl] at hvalue
      rw [if_pos hneg, List.singleton_append]
      congr 1
      refine hcanonical.eq_shownDigits ?_
      show decimal.placeValue digits = word.toInt.natAbs
      omega

/-- A text is the written form of a word exactly when it reads as the word
and has the shape of its base: in hexadecimal the mark `0x` and capitals in
pairs, in binary bits in eights, in both without a pair or an eight of
zeros in front of others; in decimal digits without a zero in front of
others, behind a minus or nothing, and not `-0`. -/
theorem eq_write_iff_canonical (word : Word) (text : Text) :
    (text = hex.write word ↔ hex.read text = .ok word
      ∧ ∃ digits, text = hexMark ++ digits ∧ hex.Canonical digits)
    ∧ (text = binary.write word ↔ binary.read text = .ok word ∧ binary.Canonical text)
    ∧ (text = decimal.write word ↔ decimal.read text = .ok word
      ∧ ∃ digits, (text = digits ∨ text = '-' :: digits) ∧ decimal.Canonical digits
        ∧ text ≠ "-0".toList) :=
  ⟨eq_write_hex_iff word text, eq_write_binary_iff word text, eq_write_decimal_iff word text⟩

end BaseConverter.Base
