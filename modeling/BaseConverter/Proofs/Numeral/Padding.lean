import BaseConverter.Proofs.Numeral.Reading
import Mathlib.Data.List.Basic
import Mathlib.Order.Bounds.Basic

/-!
# `BaseConverter.Proofs.Numeral.Padding`: zeros in front of a number

A hexadecimal or binary number is brought into its written shape by zeros in
front of its digits, up to whole units of two or of eight. Here the digits are
any row that a person may have typed, with zeros in front of its own, with small
letters, or too long for a word.

Both shapes are one operation, `Text.filled`. Filling up a second time adds
nothing, because whole units are whole already (`wholeUnits_wholeUnits`). The
zeros and the capitals do not change the number that the digits stand for, and
the reader asks about nothing else (`Base.toOption_readPattern`). So a number
that is too large stays too large, and no other becomes so.

* `padding_keeps_numbers` is the main statement.
-/

set_option autoImplicit false

namespace BaseConverter

/-! ### Whole units -/

/-- Whole units for `n` are the smallest positive multiple that is at least
`n`. -/
theorem isLeast_wholeUnits {unit : Nat} (hunit : 0 < unit) (n : Nat) :
    IsLeast {width | 0 < width ∧ unit ∣ width ∧ n ≤ width} (wholeUnits unit n) := by
  unfold wholeUnits
  -- The quotient is rounded up, and a single unit is there for `n = 0`.
  generalize hcount : (n + unit - 1) / unit = count
  refine ⟨⟨Nat.mul_pos (by omega) hunit, Nat.dvd_mul_left unit _, ?_⟩, ?_⟩
  · have hlt := Nat.lt_mul_div_succ (n + unit - 1) hunit
    rw [hcount, Nat.mul_succ, Nat.mul_comm] at hlt
    calc n
      _ ≤ count * unit := by omega
      _ ≤ max 1 count * unit := Nat.mul_le_mul_right unit (Nat.le_max_right 1 count)
  · rintro _ ⟨hpos, ⟨units, rfl⟩, hle⟩
    have hunits : 1 ≤ units := Nat.pos_of_mul_pos_left hpos
    have hcover : count ≤ units := by
      rw [← hcount, Nat.div_le_iff_le_mul_add_pred hunit]
      omega
    rw [Nat.mul_comm unit]
    exact Nat.mul_le_mul_right unit (Nat.max_le.mpr ⟨hunits, hcover⟩)

/-- Whole units are their own whole units. -/
theorem wholeUnits_wholeUnits {unit : Nat} (hunit : 0 < unit) (n : Nat) :
    wholeUnits unit (wholeUnits unit n) = wholeUnits unit n := by
  obtain ⟨⟨hpos, hdvd, -⟩, -⟩ := isLeast_wholeUnits hunit n
  refine (isLeast_wholeUnits hunit _).unique ⟨⟨hpos, hdvd, Nat.le_refl _⟩, ?_⟩
  exact fun width hwidth => hwidth.2.2

/-! ### Texts that are filled up -/

namespace Text

/-- A text with zeros in front, up to whole units of bytes. -/
def filled (unit : Nat) (text : Text) : Text :=
  List.replicate (wholeUnits unit text.utf8Length - text.utf8Length) '0' ++ text

/-- Zeros in front are one byte each. -/
theorem utf8Length_zeros_append (count : Nat) (text : Text) :
    utf8Length (List.replicate count '0' ++ text) = count + text.utf8Length := by
  induction count with
  | zero => rw [Nat.zero_add, List.replicate_zero, List.nil_append]
  | succ count ih =>
      have hzero : Char.utf8Size '0' = 1 := rfl
      rw [List.replicate_succ, List.cons_append, utf8Length, List.foldr_cons, ← utf8Length, ih,
        hzero]
      omega

theorem utf8Length_filled {unit : Nat} (hunit : 0 < unit) (text : Text) :
    (text.filled unit).utf8Length = wholeUnits unit text.utf8Length := by
  have hle := (isLeast_wholeUnits hunit text.utf8Length).1.2.2
  rw [filled, utf8Length_zeros_append]
  exact Nat.sub_add_cancel hle

/-- A text that is filled up stays as it is. -/
theorem filled_filled {unit : Nat} (hunit : 0 < unit) (text : Text) :
    (text.filled unit).filled unit = text.filled unit := by
  rw [filled, utf8Length_filled hunit, wholeUnits_wholeUnits hunit, Nat.sub_self,
    List.replicate_zero, List.nil_append]

theorem filled_ne_nil (unit : Nat) {text : Text} (h : text ≠ []) : text.filled unit ≠ [] :=
  List.append_ne_nil_of_right_ne_nil _ h

/-- Behind zeros, capitals are kept too. -/
theorem toUpper_filled_toUpper (unit : Nat) (text : Text) :
    (text.toUpper.filled unit).toUpper = text.toUpper.filled unit := by
  have hzero : Char.toUpper '0' = '0' := rfl
  rw [filled, toUpper, List.map_append, List.map_replicate, hzero]
  exact congrArg (_ ++ ·) (toUpper_toUpper text)

end Text

/-- The written shape of a hexadecimal number is its digits, filled up behind
the mark. -/
theorem padHex_eq (text : Text) :
    padHex text = hexMark ++ (dropHexMark text).toUpper.filled 2 := by
  rw [padHex, List.append_assoc]
  rfl

/-- The written shape of a binary number is its digits, filled up. -/
theorem padBinary_eq {digits : Text} (h : ∀ c ∈ digits, Base.binary.isDigit c = true) :
    padBinary digits = digits.filled 8 := by
  rw [padBinary, List.leftpad, Text.filled, Text.utf8Length_of_digits h]

/-- In its written shape any text is left as it is. -/
theorem padHex_padHex (text : Text) : padHex (padHex text) = padHex text := by
  have hdrop : dropHexMark (padHex text) = (dropHexMark text).toUpper.filled 2 := by
    rw [padHex_eq]
    rfl
  rw [padHex_eq (padHex text), hdrop, Text.toUpper_filled_toUpper, Text.filled_filled (by decide),
    ← padHex_eq]

namespace Base

/-! ### Digits that stand for the same number -/

variable {base : Base} {digits : Text}

/-- A letter is the same digit as its capital. -/
theorem digit?_toUpper {c : Char} (h : base.isDigit c = true) :
    base.digit? c.toUpper = base.digit? c := by
  -- There are only finitely many digits of either case.
  have hall : digitChars.all (fun d => base.digit? d.toUpper == base.digit? d) = true := by
    cases base <;> decide
  exact beq_iff_eq.mp (of_isDigit hall h)

theorem isDigit_of_mem_toUpper (h : ∀ c ∈ digits, base.isDigit c = true) :
    ∀ c ∈ digits.toUpper, base.isDigit c = true := by
  intro c hc
  obtain ⟨d, hd, rfl⟩ := List.mem_map.mp hc
  rw [isDigit, digit?_toUpper (h d hd)]
  exact h d hd

/-- Capitals stand for the same number. -/
theorem placeValue_toUpper (h : ∀ c ∈ digits, base.isDigit c = true) :
    base.placeValue digits.toUpper = base.placeValue digits := by
  rw [placeValue, Text.toUpper, List.foldl_map]
  refine List.foldl_ext _ _ 0 fun value c hc => ?_
  rw [digit?_toUpper (h c hc)]

theorem isDigit_of_mem_filled (unit : Nat) (h : ∀ c ∈ digits, base.isDigit c = true) :
    ∀ c ∈ digits.filled unit, base.isDigit c = true := by
  intro c hc
  rcases List.mem_append.mp hc with hc | hc
  · rw [List.eq_of_mem_replicate hc]
    exact base.isDigit_zero
  · exact h c hc

/-- A row that is filled up stands for the same number. -/
theorem placeValue_filled (base : Base) (unit : Nat) (digits : Text) :
    base.placeValue (digits.filled unit) = base.placeValue digits :=
  base.placeValue_replicate_append _ digits

/-! ### Patterns that are read -/

/-- The word whose pattern of bits a row of digits stands for. A number of more
than 64 bits has none. -/
def patternOf? (base : Base) (digits : Text) : Option Word :=
  if base.placeValue digits < Word.patternCount then
    some (BitVec.ofNat 64 (base.placeValue digits))
  else
    none

/-- Rows of digits are read for the number that they stand for, and nothing else
about them counts. -/
theorem toOption_readPattern (text : Text) (hne : digits ≠ [])
    (hdigits : ∀ c ∈ digits, base.isDigit c = true) :
    (base.readPattern text digits).toOption = base.patternOf? digits := by
  ext word
  rw [toOption_eq_some_iff, readPattern_eq_ok_iff, patternOf?, Option.ite_none_right_eq_some,
    Option.some_inj]
  exact ⟨fun h => h.2.2, fun h => ⟨hne, hdigits, h⟩⟩

/-- A mark is dropped in front of digits, and the digits are not. -/
theorem dropHexMark_append {lead : Text} (hlead : lead ∈ hex.leads)
    (hdigits : ∀ c ∈ digits, hex.isDigit c = true) : dropHexMark (lead ++ digits) = digits := by
  simp only [leads, List.mem_cons, List.not_mem_nil, or_false] at hlead
  rcases hlead with rfl | rfl | rfl
  · rw [List.nil_append, dropHexMark, hexMarkLength_of_digits hdigits, List.drop_zero]
  · rfl
  · rfl

/-- A hexadecimal number, with a mark or without, is read for its digits. -/
theorem toOption_read_hex {lead : Text} (hlead : lead ∈ hex.leads) (hne : digits ≠ [])
    (hdigits : ∀ c ∈ digits, hex.isDigit c = true) :
    (hex.read (lead ++ digits)).toOption = hex.patternOf? digits := by
  have hwhite : hex.leads.all (·.all fun c => !Text.isWhite c) = true := by decide
  have htrim : Text.trim (lead ++ digits) = lead ++ digits := by
    refine Text.trim_eq_self_of_forall fun c hc => ?_
    rcases List.mem_append.mp hc with hc | hc
    · simpa using List.all_eq_true.mp (List.all_eq_true.mp hwhite lead hlead) c hc
    · exact not_white_of_isDigit (hdigits c hc)
  simp only [read, htrim, dropHexMark_append hlead hdigits]
  exact toOption_readPattern _ hne hdigits

/-- A binary number is read for its digits. -/
theorem toOption_read_binary (hne : digits ≠ [])
    (hdigits : ∀ c ∈ digits, binary.isDigit c = true) :
    (binary.read digits).toOption = binary.patternOf? digits := by
  have htrim : Text.trim digits = digits :=
    Text.trim_eq_self_of_forall fun c hc => not_white_of_isDigit (hdigits c hc)
  simp only [read, htrim]
  exact toOption_readPattern _ hne hdigits

/-- The written shape of a hexadecimal number is read for the digits that it was
made of. -/
theorem toOption_read_padHex {lead : Text} (hlead : lead ∈ hex.leads) (hne : digits ≠ [])
    (hdigits : ∀ c ∈ digits, hex.isDigit c = true) :
    (hex.read (padHex (lead ++ digits))).toOption = hex.patternOf? digits := by
  have hupper := isDigit_of_mem_toUpper hdigits
  have hmark : hexMark ∈ hex.leads := by simp [leads, hexMark]
  have hne' : digits.toUpper ≠ [] := mt List.map_eq_nil_iff.mp hne
  rw [padHex_eq, dropHexMark_append hlead hdigits,
    toOption_read_hex hmark (Text.filled_ne_nil 2 hne') (isDigit_of_mem_filled 2 hupper), patternOf?,
    placeValue_filled, placeValue_toUpper hdigits, patternOf?]

/-- The written shape of a binary number is read for the digits that it was made
of. -/
theorem toOption_read_padBinary (hne : digits ≠ [])
    (hdigits : ∀ c ∈ digits, binary.isDigit c = true) :
    (binary.read (padBinary digits)).toOption = binary.patternOf? digits := by
  rw [padBinary_eq hdigits,
    toOption_read_binary (Text.filled_ne_nil 8 hne) (isDigit_of_mem_filled 8 hdigits), patternOf?,
    placeValue_filled, patternOf?]

end Base

/-- Bringing a number into its written shape a second time changes nothing, and
the written shape is read as what was brought into it.

* A text of any kind has a hexadecimal shape, which is its own.
* A hexadecimal number keeps its word, or has none in either form. It may have a
  mark or none, and capitals or small letters.
* A row of binary digits gets zeros in front up to the smallest positive multiple
  of eight that is at least its length. When there is a digit, it keeps its word,
  and a number of more than 64 bits has none in either form.

The row may be of any length only because no bound on the width is modelled
(`padBinary`). -/
theorem padding_keeps_numbers :
    (∀ text : Text, padHex (padHex text) = padHex text)
    ∧ (∀ lead ∈ Base.hex.leads, ∀ digits : Text, digits ≠ [] →
        (∀ c ∈ digits, Base.hex.isDigit c = true) →
          (Base.hex.read (padHex (lead ++ digits))).toOption
            = (Base.hex.read (lead ++ digits)).toOption)
    ∧ ∀ bits : Text, (∀ c ∈ bits, Base.binary.isDigit c = true) →
        IsLeast {width | 0 < width ∧ 8 ∣ width ∧ bits.length ≤ width} (padBinary bits).length
        ∧ (∃ count, padBinary bits = List.replicate count '0' ++ bits)
        ∧ padBinary (padBinary bits) = padBinary bits
        ∧ (bits ≠ [] →
            (Base.binary.read (padBinary bits)).toOption = (Base.binary.read bits).toOption
            ∧ (Word.patternCount ≤ Base.binary.placeValue bits →
                (Base.binary.read (padBinary bits)).toOption = none)) := by
  refine ⟨padHex_padHex, ?hex, ?binary⟩
  case hex =>
    intro lead hlead digits hne hdigits
    rw [Base.toOption_read_padHex hlead hne hdigits, Base.toOption_read_hex hlead hne hdigits]
  case binary =>
    intro bits hbits
    have hfilled := Base.isDigit_of_mem_filled 8 hbits
    have hlength : (padBinary bits).length = wholeUnits 8 bits.length := by
      rw [padBinary_eq hbits, ← Text.utf8Length_of_digits hfilled,
        Text.utf8Length_filled (by decide), Text.utf8Length_of_digits hbits]
    refine ⟨?_, ⟨_, padBinary_eq hbits⟩, ?_, fun hne => ⟨?_, fun hlarge => ?_⟩⟩
    · rw [hlength]
      exact isLeast_wholeUnits (by decide) bits.length
    · rw [padBinary_eq hbits, padBinary_eq hfilled, Text.filled_filled (by decide)]
    · rw [Base.toOption_read_padBinary hne hbits, Base.toOption_read_binary hne hbits]
    · rw [Base.toOption_read_padBinary hne hbits]
      exact if_neg (Nat.not_lt.mpr hlarge)

/-- Three small digits behind a capital mark, and a bit more than a word has. -/
theorem padding_keeps_numbers_too_large :
    let bits : Text := '1' :: List.replicate 64 '0'
    (Base.hex.read (padHex "0Xf0a".toList)).toOption = some 0xF0A
    ∧ (Base.hex.read (padHex "0Xf0a".toList)).toOption = (Base.hex.read "0Xf0a".toList).toOption
    ∧ (padBinary bits).length = 72
    ∧ padBinary (padBinary bits) = padBinary bits
    ∧ (Base.binary.read (padBinary bits)).toOption = none := by
  intro bits
  obtain ⟨-, hhex, hbinary⟩ := padding_keeps_numbers
  have hdigits : ∀ c ∈ "f0a".toList, Base.hex.isDigit c = true :=
    List.all_eq_true.mp (by decide : "f0a".toList.all Base.hex.isDigit = true)
  have hbits : ∀ c ∈ bits, Base.binary.isDigit c = true :=
    List.all_eq_true.mp (by decide : bits.all Base.binary.isDigit = true)
  have hlarge : Word.patternCount ≤ Base.binary.placeValue bits := by decide
  have hsame := hhex "0X".toList (by decide) "f0a".toList (by decide) hdigits
  obtain ⟨-, -, hagain, hread⟩ := hbinary bits hbits
  exact ⟨rfl, hsame, by decide, hagain, (hread (List.cons_ne_nil _ _)).2 hlarge⟩

end BaseConverter
