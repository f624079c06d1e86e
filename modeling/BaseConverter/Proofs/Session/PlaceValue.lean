import BaseConverter.Proofs.Numeral.Canonical
import BaseConverter.Proofs.Session.PointedValue

/-!
# `BaseConverter.Proofs.Session.PlaceValue`: half bytes of numbers as they were typed

A hexadecimal digit and the four bits of the same place value are one half
byte. A pointer finds the half byte in the other field by counting from the
head of the number: digit `i` behind the mark goes with the bits from
`4 * i` on, whatever place they have. The field that was typed into keeps
its text, with any number of digits, while the other field shows whole
bytes. So the count from the head agrees with the count from the end, which
place value goes by, only where both numbers have the same width.

* `Base.TypedNumber` are the numbers that can be typed without a fault.
* `Base.halfByteAt?` are the digits of a number at a place, counted from
  its end.
* `Session.marksSamePlace_iff` compares both counts for one digit.
* `Session.marksSamePlaces_iff` is the main statement: the pointer keeps to
  the place for all digits of a number exactly when it was typed with as
  many digits as would be written.
-/

set_option autoImplicit false

namespace BaseConverter

namespace Base

/-! ### Typed numbers -/

/-- The number of digits of a base that make up a half byte. Decimal digits
make up none. -/
def halfByteLength : Base → Nat
  | hex => 1
  | binary => 4
  | decimal => 0

theorem halfByteLength_eq {base : Base} (h : base ≠ .decimal) :
    base.halfByteLength = 1 ∨ base.halfByteLength = 4 := by
  cases base with
  | decimal => contradiction
  | hex => exact .inl rfl
  | binary => exact .inr rfl

/-- The digits of a typed number, behind its mark. -/
def typedDigits (base : Base) (text : Text) : Text :=
  text.drop (base.markLength text)

/-- A number as it can be typed: at least one digit and no more than 64 bits
of them, behind at most one mark in hexadecimal. -/
structure TypedNumber (base : Base) (text : Text) : Prop where
  nonempty : base.typedDigits text ≠ []
  allDigits : ∀ c ∈ base.typedDigits text, base.isDigit c = true
  fits : (base.typedDigits text).length ≤ 16 * base.halfByteLength

variable {base : Base} {text : Text}

theorem typedNumber_of_all (h : (base.typedDigits text).isEmpty = false
    ∧ (base.typedDigits text).all base.isDigit = true
    ∧ (base.typedDigits text).length ≤ 16 * base.halfByteLength) : base.TypedNumber text :=
  ⟨List.isEmpty_eq_false_iff.mp h.1, List.all_eq_true.mp h.2.1, h.2.2⟩

/-- A row of digits that is not longer than a word has a word. -/
theorem placeValue_lt_patternCount (digits : Text)
    (h : digits.length ≤ 16 * base.halfByteLength) :
    base.placeValue digits < Word.patternCount := by
  have hlt : base.placeValue digits < 1 * Nat.pow base.radix digits.length :=
    base.placeValueFrom_lt 0 digits
  have hle : Nat.pow base.radix digits.length
      ≤ Nat.pow base.radix (16 * base.halfByteLength) :=
    Nat.pow_le_pow_right (Nat.zero_lt_of_lt base.one_lt_radix) h
  have hlimit : Nat.pow base.radix (16 * base.halfByteLength) ≤ Word.patternCount := by
    cases base <;> decide
  rw [Nat.one_mul] at hlt
  exact Nat.lt_of_lt_of_le hlt (Nat.le_trans hle hlimit)

/-- What holds of the characters of a mark and of every digit holds of a
typed number. -/
theorem TypedNumber.of_mem {p : Char → Bool} (h : base.TypedNumber text)
    (hlead : hex.leads.all (·.all p) = true) (hdigits : digitChars.all p = true) :
    ∀ c ∈ text, p c = true := by
  have hbehind : ∀ c ∈ base.typedDigits text, p c = true :=
    fun c hc => of_isDigit hdigits (h.allDigits c hc)
  cases base with
  | decimal => exact hbehind
  | binary => exact hbehind
  | hex =>
      obtain ⟨lead, hmem, htext⟩ := exists_eq_append_dropHexMark text
      intro c hc
      rw [htext] at hc
      rcases List.mem_append.mp hc with hc | hc
      · exact List.all_eq_true.mp (List.all_eq_true.mp hlead lead hmem) c hc
      · exact hbehind c hc

theorem TypedNumber.not_white (h : base.TypedNumber text) : ∀ c ∈ text, Text.isWhite c = false := by
  intro c hc
  simpa using h.of_mem (p := fun c => !Text.isWhite c) (by decide) (by decide) c hc

theorem TypedNumber.not_separates (h : base.TypedNumber text) :
    ∀ c ∈ text, separatesOperands c = false := by
  intro c hc
  simpa using h.of_mem (p := fun c => !separatesOperands c) (by decide) (by decide) c hc

/-- A typed number is read. -/
theorem TypedNumber.exists_read (hbase : base ≠ .decimal) (h : base.TypedNumber text) :
    ∃ word, base.read text = .ok word := by
  have hlimit := placeValue_lt_patternCount (base.typedDigits text) h.fits
  have hread := readPattern_of_digits text h.nonempty h.allDigits hlimit
  refine ⟨_, Eq.trans ?_ hread⟩
  unfold read
  rw [Text.trim_eq_self_of_forall h.not_white]
  cases base with
  | decimal => contradiction
  | hex => rfl
  | binary => rfl

theorem length_eq_markLength_add (base : Base) (text : Text) :
    text.length = base.markLength text + (base.typedDigits text).length := by
  have hmark : base.markLength text ≤ text.length := by
    cases base with
    | decimal => exact Nat.zero_le _
    | binary => exact Nat.zero_le _
    | hex =>
        unfold markLength hexMarkLength
        simp only
        split <;> simp
  rw [typedDigits, List.length_drop]
  omega

/-! ### Places -/

/-- The digits of a part that are its half byte at a place, with `place` half
bytes behind it. -/
def halfByteAt? (base : Base) (part : Text.Stretch) (place : Nat) : Option Span :=
  if base.halfByteLength * (place + 1) ≤ (base.typedDigits part.text).length then
    some ⟨part.stop - base.halfByteLength * (place + 1), part.stop - base.halfByteLength * place⟩
  else
    none

/-- The digits that are shown of a word are whole half bytes, as many in
both bases. -/
theorem length_shownDigits (hbase : base ≠ .decimal) (word : Word) :
    (base.shownDigits word).length = base.halfByteLength * (hex.shownDigits word).length := by
  cases base with
  | decimal => contradiction
  | hex => exact (Nat.one_mul _).symm
  | binary =>
      rw [shownDigits_binary]
      exact length_halfBytes _

/-- They make up at least one byte. -/
theorem two_le_length_shownDigits (word : Word) : 2 ≤ (hex.shownDigits word).length := by
  have hpos := List.length_pos_iff.mpr (hex.shownDigits_ne_nil word)
  have hunits : (hex.shownDigits word).length % 2 = 0 := (hex.canonical_shownDigits word).units
  omega

theorem typedDigits_write (hbase : base ≠ .decimal) (word : Word) :
    base.typedDigits (base.write word) = base.shownDigits word := by
  rw [write_eq]
  cases base with
  | decimal => contradiction
  | hex => rfl
  | binary => rfl

/-- In a written number the half byte `n` from the head is the one at a
place, counted from the end, when both counts make up its width. -/
theorem halfByteAt?_write_iff (hbase : base ≠ .decimal) (words : List Word) (index : Nat)
    (word : Word) (n place : Nat) :
    base.halfByteAt? ⟨Text.spacedStart (words.map base.write) index, base.write word⟩ place
        = halfByteSpan? words index word n (Field.ofBase base)
      ↔ n + place + 1 = (hex.shownDigits word).length := by
  have hlength : (base.write word).length = base.markLength (base.write word)
      + base.halfByteLength * (hex.shownDigits word).length := by
    rw [base.length_eq_markLength_add, typedDigits_write hbase, length_shownDigits hbase]
  rw [halfByteAt?, typedDigits_write hbase, length_shownDigits hbase]
  split
  · rename_i hplace
    cases base with
    | decimal => contradiction
    | hex =>
        have hmark : markLength hex (hex.write word) = 2 := by
          rw [write_eq]
          rfl
        simp only [halfByteLength, Text.Stretch.stop, halfByteSpan?, Field.ofBase, Span.single,
          numberSpan, Option.some.injEq, Span.mk.injEq] at hplace hlength ⊢
        omega
    | binary =>
        have hmark : markLength binary (binary.write word) = 0 := rfl
        simp only [halfByteLength, Text.Stretch.stop, halfByteSpan?, Field.ofBase, numberSpan,
          Option.some.injEq, Span.mk.injEq] at hplace hlength ⊢
        omega
  · rename_i hplace
    cases base with
    | decimal => contradiction
    | hex =>
        simp only [halfByteLength] at hplace
        refine iff_of_false (fun h => ?_) (by omega)
        cases h
    | binary =>
        simp only [halfByteLength] at hplace
        refine iff_of_false (fun h => ?_) (by omega)
        cases h

/-! ### Aims -/

/-- A pointer on a digit of a typed number aims at the half byte that is
found by counting from the head. -/
theorem aim?_typed {source : Base} (hsource : source ≠ .decimal) {text : Text} {index : Nat}
    {part : Text.Stretch} (hpart : text.parts[index]? = some part)
    (htyped : source.TypedNumber part.text) {behind : Nat}
    (hbehind : behind < (source.typedDigits part.text).length) :
    Pointer.aim? source text (part.stop - 1 - behind)
      = some ⟨Group.ofPart part index,
          some (((source.typedDigits part.text).length - 1 - behind) / source.halfByteLength)⟩ := by
  have hlength := source.length_eq_markLength_add part.text
  have hstop : part.stop = part.start + part.text.length := rfl
  have hline : (Group.ofPart part index).isLine = false :=
    (Group.isLine_eq_false_iff _).mpr htyped.not_separates
  have hgroup : text.groupAt? (part.stop - 1 - behind) = some (Group.ofPart part index) := by
    rw [Text.groupAt?_part hpart (by omega) (by omega), Group.narrowAt, hline,
      if_neg Bool.false_ne_true]
  have hwhole : (Group.ofPart part index).isWholeLine = false := by
    rw [Group.isWholeLine, hline, Bool.and_false]
  have hoffset : part.stop - 1 - behind - (Group.ofPart part index).start
      = part.text.length - 1 - behind := by
    show part.stop - 1 - behind - part.start = _
    omega
  refine (Pointer.aim?_of_groupAt? source hgroup).trans ?_
  rw [hwhole, hoffset]
  cases source with
  | decimal => contradiction
  | hex =>
      have hmark : hexMarkLength (Group.ofPart part index).text = markLength hex part.text := rfl
      have hdigit : part.text.length - 1 - behind - markLength hex part.text
          = ((hex.typedDigits part.text).length - 1 - behind) / halfByteLength hex := by
        show _ = _ / 1
        omega
      simp only [hmark, hdigit, Bool.false_or, decide_eq_true_eq]
      exact if_neg (by omega)
  | binary =>
      have hdigit : (part.text.length - 1 - behind) / 4
          = ((binary.typedDigits part.text).length - 1 - behind) / halfByteLength binary := rfl
      rw [hdigit]
      rfl

/-- A half byte of a number is marked when the number has it. -/
theorem spanOf?_numberGroup_eq {base : Base} (hbase : base ≠ .decimal) (words : List Word)
    (index : Nat) (word : Word) {aim : Aim} {n : Nat} (haim : aim.halfByte? = some n) :
    aim.spanOf? base (base.numberGroup words index word)
      = if n < (hex.shownDigits word).length then
          halfByteSpan? words index word n (Field.ofBase base)
        else none := by
  split
  · rename_i hn
    exact Pointer.spanOf?_numberGroup haim hn base
  · rename_i hn
    have hlength : (base.numberGroup words index word).length = (base.write word).length :=
      Nat.add_sub_cancel_left _ _
    cases base with
    | decimal => contradiction
    | hex =>
        rw [length_write_hex] at hlength
        simp only [Aim.spanOf?, haim, Group.hexDigit?, Pointer.hexMarkLength_numberGroup, hlength]
        exact if_neg (by omega)
    | binary =>
        rw [length_write_binary] at hlength
        simp only [Aim.spanOf?, haim, Group.bits?, hlength]
        exact if_neg (by omega)

end Base

/-! ### Converted sheets -/

namespace Session

/-- The pointer is on the digit of number `index` in the field `source` that
has `behind` digits of the number behind it. It marks nothing in the field
`target`, or the half byte of number `index` at the same place. -/
def MarksSamePlace (shown : Session) (source target : Base) (index behind : Nat) : Prop :=
  ∀ part, (shown.sheet.get (Field.ofBase source)).parts[index]? = some part →
    ∀ span, (shown.point ⟨Field.ofBase source, part.stop - 1 - behind⟩).span? (Field.ofBase target)
        = some span →
      ∃ same, (shown.sheet.get (Field.ofBase target)).parts[index]? = some same
        ∧ target.halfByteAt? same (behind / source.halfByteLength) = some span

/-- With the two numbers given, nothing is marked or what is marked is at the
place. -/
theorem marksSamePlace_iff_eq {shown : Session} {source target : Base} {index behind : Nat}
    {part same : Text.Stretch}
    (hpart : (shown.sheet.get (Field.ofBase source)).parts[index]? = some part)
    (hsame : (shown.sheet.get (Field.ofBase target)).parts[index]? = some same) :
    shown.MarksSamePlace source target index behind
      ↔ (shown.point ⟨Field.ofBase source, part.stop - 1 - behind⟩).span? (Field.ofBase target)
          = none
        ∨ (shown.point ⟨Field.ofBase source, part.stop - 1 - behind⟩).span? (Field.ofBase target)
          = target.halfByteAt? same (behind / source.halfByteLength) := by
  unfold MarksSamePlace
  rw [hpart, hsame]
  cases hspan : (shown.point ⟨Field.ofBase source, part.stop - 1 - behind⟩).span?
      (Field.ofBase target) with
  | none =>
      refine iff_of_true (fun other hother span hmarked => ?_) (.inl rfl)
      rw [← Option.some.inj hother, hspan] at hmarked
      cases hmarked
  | some marked =>
      constructor
      · intro hmarks
        obtain ⟨other, hother, hplace⟩ := hmarks part rfl marked hspan
        rw [Option.some.inj hother]
        exact .inr hplace.symm
      · rintro (hnone | hplace) other hother span hmarked
        · cases hnone
        · rw [← Option.some.inj hother, hspan] at hmarked
          exact ⟨same, rfl, hplace.symm.trans hmarked⟩

section

variable {source target : Base} {text : Text}

/-- Typed numbers separated by spaces have no operator among them. -/
theorem isLine_typed (htyped : ∀ part ∈ text.parts, source.TypedNumber part.text) :
    Entry.isLine source text = false := by
  have hline : (Text.trim text.withoutResult).hasOperator = false := by
    rw [Text.hasOperator, List.any_eq_false]
    intro c hc hop
    obtain ⟨before, after, -, -, hpadded⟩ := Text.padded_trim text.withoutResult
    have htext : c ∈ text := by
      refine (List.takeWhile_sublist _).mem (?_ : c ∈ text.withoutResult)
      rw [hpadded]
      exact List.mem_append_left _ (List.mem_append_right _ hc)
    -- An operator is no space, so it would be in one of the numbers.
    have hspace : c ≠ ' ' := by
      rintro rfl
      cases hop
    obtain ⟨part, hpart, hmem⟩ := Text.exists_part_of_mem htext hspace
    have hseparates := (htyped part hpart).not_separates c hmem
    rw [separatesOperands, hop] at hseparates
    cases hseparates
  rw [Entry.isLine, hline, Bool.false_and]

/-- They are converted. -/
theorem enter_typed (session : Session) (hsource : source ≠ .decimal)
    (htyped : ∀ part ∈ text.parts, source.TypedNumber part.text) :
    (session.enter (Field.ofBase source) text).1 = .converted := by
  have hfill : (Sheet.fill? (Field.ofBase source) text).isSome = true := by
    unfold Sheet.fill?
    split
    · rfl
    · rename_i hwhite
      split
      · rename_i hnone
        rw [Text.allWhite, Bool.not_eq_true, List.all_eq_false] at hwhite
        obtain ⟨c, hc, hvisible⟩ := hwhite
        have hspace : c ≠ ' ' := by
          rintro rfl
          exact hvisible (by decide)
        -- The part of a visible character is a number and has a value.
        obtain ⟨part, hpart, -⟩ := Text.exists_part_of_mem hc hspace
        obtain ⟨word, hread⟩ := (htyped part hpart).exists_read hsource
        rw [Base.values_ofBase, Base.readParts, List.filterMap_eq_nil_iff] at hnone
        have herror := hnone part hpart
        rw [hread] at herror
        cases herror
      · rfl
  obtain ⟨sheet, hsheet⟩ := Option.isSome_iff_exists.mp hfill
  simp only [enter, Entry.ofText_of_not_isLine (isLine_typed htyped), Entry.ofValues, hsheet,
    Entry.outcome]

variable {index : Nat} {part : Text.Stretch}

/-- Number `index` of a text of typed numbers is value `index`. -/
theorem exists_value_typed (hsource : source ≠ .decimal)
    (htyped : ∀ part ∈ text.parts, source.TypedNumber part.text)
    (hpart : text.parts[index]? = some part) :
    ∃ word, source.read part.text = .ok word
      ∧ (source.readParts text.parts)[index]? = some word := by
  have hnumber : ∀ part ∈ text.parts, source.IsNumber part := fun other hother =>
    (source.isNumber_iff other).mpr ((htyped other hother).exists_read hsource)
  obtain ⟨word, hread⟩ := (source.isNumber_iff part).mp (hnumber part (List.mem_of_getElem? hpart))
  have hrank := (source.length_readParts_take hpart).2.mpr
    fun earlier hearlier => hnumber earlier (List.mem_of_mem_take hearlier)
  have hvalue := Base.getElem?_readParts hpart hread
  rw [hrank] at hvalue
  exact ⟨word, hread, hvalue⟩

/-- A pointer on a digit of a typed number marks the half byte that is found
by counting from the head, when the number has it as it is shown. -/
theorem span?_typed (session : Session) (hsource : source ≠ .decimal)
    (htarget : target ≠ .decimal) (hne : target ≠ source)
    (htyped : ∀ part ∈ text.parts, source.TypedNumber part.text)
    (hpart : text.parts[index]? = some part) {word : Word}
    (hvalue : (source.readParts text.parts)[index]? = some word) {behind : Nat}
    (hbehind : behind < (source.typedDigits part.text).length) :
    let n := ((source.typedDigits part.text).length - 1 - behind) / source.halfByteLength
    ((session.input (Field.ofBase source) text).point
        ⟨Field.ofBase source, part.stop - 1 - behind⟩).span? (Field.ofBase target)
      = if n < (Base.hex.shownDigits word).length then
          halfByteSpan? (source.readParts text.parts) index word n (Field.ofBase target)
        else none := by
  intro n
  have h := enter_typed session hsource htyped
  have haim := Base.aim?_typed hsource hpart (htyped part (List.mem_of_getElem? hpart)) hbehind
  rw [← get_source_of_converted h] at haim
  rw [span?_point, Pointer.numericSpan?_of_aim haim, if_neg hne, get_input_of_converted hne h]
  show ((Sheet.get _ _).group? index).bind _ = _
  rw [group?_ofWords target hvalue, Option.bind_some]
  exact Base.spanOf?_numberGroup_eq htarget _ index word rfl

/-- One digit of a typed number: the half byte that is found from the head
is missing, or the counts of half bytes in front of it and behind it make up
the width that is shown. -/
theorem marksSamePlace_iff (session : Session) (hsource : source ≠ .decimal)
    (htarget : target ≠ .decimal) (hne : target ≠ source)
    (htyped : ∀ part ∈ text.parts, source.TypedNumber part.text)
    (hpart : text.parts[index]? = some part) {word : Word}
    (hvalue : (source.readParts text.parts)[index]? = some word) {behind : Nat}
    (hbehind : behind < (source.typedDigits part.text).length) :
    (session.input (Field.ofBase source) text).MarksSamePlace source target index behind
      ↔ (Base.hex.shownDigits word).length
          ≤ ((source.typedDigits part.text).length - 1 - behind) / source.halfByteLength
        ∨ ((source.typedDigits part.text).length - 1 - behind) / source.halfByteLength
            + behind / source.halfByteLength + 1 = (Base.hex.shownDigits word).length := by
  have h := enter_typed session hsource htyped
  have hspan := span?_typed session hsource htarget hne htyped hpart hvalue hbehind
  have hparts : ((session.input (Field.ofBase source) text).sheet.get
      (Field.ofBase target)).parts[index]? = some
        ⟨Text.spacedStart ((source.readParts text.parts).map target.write) index,
          target.write word⟩ := by
    rw [get_input_of_converted hne h, Sheet.get_ofWords,
      Text.parts_spaced (target.ne_nil_and_space_not_mem _), Text.getElem?_placed,
      getElem?_map_write target hvalue, Option.map_some, Nat.zero_add]
  have hfrom : ((session.input (Field.ofBase source) text).sheet.get
      (Field.ofBase source)).parts[index]? = some part := by
    rw [get_source_of_converted h]
    exact hpart
  rw [marksSamePlace_iff_eq hfrom hparts, hspan]
  generalize ((source.typedDigits part.text).length - 1 - behind) / source.halfByteLength = n
  have hplace := Base.halfByteAt?_write_iff htarget (source.readParts text.parts) index word n
    (behind / source.halfByteLength)
  split
  · rename_i hn
    obtain ⟨marked, hmarked⟩ : ∃ marked, halfByteSpan? (source.readParts text.parts) index word n
        (Field.ofBase target) = some marked := by
      cases target <;> exact ⟨_, rfl⟩
    rw [hmarked] at hplace ⊢
    rw [← hplace, or_iff_right (Option.some_ne_none marked), or_iff_right (by omega), eq_comm]
  · rename_i hn
    exact iff_of_true (.inl rfl) (.inl (by omega))

/-- Numbers in hexadecimal, or in binary, were typed with spaces between
them. The digits of one of them and the half bytes of the same place in the
other of the two fields belong together for a pointer exactly when the
number was typed with as many digits as its field would write. -/
theorem marksSamePlaces_iff (session : Session) (source target : Base) (text : Text)
    (hsource : source ≠ .decimal) (htarget : target ≠ .decimal) (hne : target ≠ source)
    (htyped : ∀ part ∈ text.parts, source.TypedNumber part.text)
    (index : Nat) (part : Text.Stretch) (hpart : text.parts[index]? = some part) :
    ∃ word, source.read part.text = .ok word
      ∧ ((∀ behind < (source.typedDigits part.text).length,
            (session.input (Field.ofBase source) text).MarksSamePlace source target index behind)
        ↔ (source.typedDigits part.text).length = (source.shownDigits word).length) := by
  obtain ⟨word, hread, hvalue⟩ := exists_value_typed hsource htyped hpart
  have hdigit := fun behind (hbehind : behind < (source.typedDigits part.text).length) =>
    marksSamePlace_iff session hsource htarget hne htyped hpart hvalue hbehind
  have hpos := List.length_pos_iff.mpr (htyped part (List.mem_of_getElem? hpart)).nonempty
  have hwidth := Base.two_le_length_shownDigits word
  have hunit := Base.halfByteLength_eq hsource
  refine ⟨word, hread, ?_⟩
  rw [Base.length_shownDigits hsource]
  generalize (source.typedDigits part.text).length = length at hdigit hpos ⊢
  generalize (Base.hex.shownDigits word).length = width at hdigit hwidth ⊢
  generalize source.halfByteLength = unit at hdigit hunit ⊢
  constructor
  · intro hall
    -- The half byte at the head is made up of the first digits.
    have hfirst := (hdigit (length - 1) (by omega)).mp (hall _ (by omega))
    have hfourth := fun hlong : 4 ≤ length =>
      (hdigit (length - 4) (by omega)).mp (hall _ (by omega))
    rcases hunit with rfl | rfl <;> omega
  · intro heq behind hbehind
    refine (hdigit behind hbehind).mpr (.inr ?_)
    rcases hunit with rfl | rfl <;> omega

end

/-- The second number of a text was typed with as many digits as would be
written, unlike the first. -/
theorem marksSamePlaces_second :
    let text : Text := "0 0xA7".toList
    let shown := new.input .hex text
    (∀ part ∈ text.parts, Base.hex.TypedNumber part.text)
    ∧ text.parts[1]? = some ⟨2, "0xA7".toList⟩
    ∧ shown.sheet.binary = "00000000 10100111".toList
    ∧ ∀ behind < 2, shown.MarksSamePlace .hex .binary 1 behind := by
  intro text shown
  have hparts : text.parts = [⟨0, "0".toList⟩, ⟨2, "0xA7".toList⟩] := by rfl
  have htyped : ∀ part ∈ text.parts, Base.hex.TypedNumber part.text := by
    rw [hparts, List.forall_mem_cons, List.forall_mem_singleton]
    exact ⟨Base.typedNumber_of_all (by decide), Base.typedNumber_of_all (by decide)⟩
  have hpart : text.parts[1]? = some ⟨2, "0xA7".toList⟩ := by rfl
  obtain ⟨word, hread, hplaces⟩ := marksSamePlaces_iff new .hex .binary text (by decide)
    (by decide) (by decide) htyped 1 _ hpart
  have hword : Base.hex.read "0xA7".toList = .ok 0xA7 := by rfl
  obtain rfl : (0xA7 : Word) = word := Except.ok.inj (hword.symm.trans hread)
  exact ⟨htyped, hpart, by rfl, hplaces.mpr (by decide)⟩

/-- The first of three digits is taken for the first half byte of the two
bytes that are shown. -/
theorem not_marksSamePlace_three_digits :
    let text : Text := "FFF".toList
    let shown := new.input .hex text
    text.parts = [⟨0, text⟩] ∧ Base.hex.TypedNumber text
    ∧ shown.sheet.binary = "0000111111111111".toList
    ∧ (shown.point ⟨.hex, 0⟩).span? .binary = some ⟨0, 4⟩
    ∧ Base.binary.halfByteAt? ⟨0, shown.sheet.binary⟩ 2 = some ⟨4, 8⟩
    ∧ ¬ shown.MarksSamePlace .hex .binary 0 2 := by
  intro text shown
  have hspan : (shown.point ⟨.hex, 0⟩).span? .binary = some ⟨0, 4⟩ := by rfl
  have hplace : Base.binary.halfByteAt? ⟨0, shown.sheet.binary⟩ 2 = some ⟨4, 8⟩ := by rfl
  refine ⟨by rfl, Base.typedNumber_of_all (by decide), by rfl, hspan, hplace, ?_⟩
  intro hmarks
  obtain ⟨same, hsame, hmarked⟩ := hmarks ⟨0, text⟩ (by rfl) _ hspan
  obtain rfl : ⟨0, shown.sheet.binary⟩ = same := Option.some.inj hsame
  cases hplace.symm.trans hmarked

end Session

end BaseConverter
