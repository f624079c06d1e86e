import BaseConverter.Proofs.Pointer.Number

/-!
# `BaseConverter.Proofs.Pointer.HalfByte`: pointing at half bytes

A hexadecimal digit and its four bits mark the same in every field. The
reason is that a pointer does not go from field to field: it first aims
at a half byte of a number (`Pointer.aim?_hex`, `Pointer.aim?_binary`), and
what is marked depends on nothing but this aim
(`Pointer.numericSpan?_halfByte`).

`MarksNumber` says what pointers on one number mark: on its half bytes, on
its decimal form and on its mark `0x`. `Pointer.marksNumber_ofWords` proves
it of every number of a filled sheet, and that nothing is marked from a
space.
-/

set_option autoImplicit false

namespace BaseConverter

/-- The span of each field that shows half byte `n` of the number `word`,
which stands behind `index` others. The decimal number has no digits for
half bytes and is taken whole, and so are the characters. -/
def halfByteSpan? (words : List Word) (index : Nat) (word : Word) (n : Nat) : Field → Option Span
  | .decimal => some (Base.decimal.numberSpan words index word)
  | .hex => some (Span.single ((Base.hex.numberSpan words index word).start + 2 + n))
  | .binary =>
    let first := (Base.binary.numberSpan words index word).start + 4 * n
    some ⟨first, first + 4⟩
  | .ascii => Span.whole? (Sheet.ofWords words).ascii

namespace Base

/-! ### Lengths -/

theorem length_write_hex (word : Word) :
    (hex.write word).length = 2 + (hex.shownDigits word).length := by
  rw [write_eq, List.length_append]
  rfl

theorem length_write_binary (word : Word) :
    (binary.write word).length = 4 * (hex.shownDigits word).length := by
  rw [write_eq, shownDigits_binary]
  exact length_halfBytes _

theorem getElem?_write_hex (word : Word) (n : Nat) :
    (hex.write word)[2 + n]? = (hex.shownDigits word)[n]? := by
  rw [write_eq, List.getElem?_append_right (Nat.le_add_right 2 n)]
  exact congrArg ((hex.shownDigits word)[·]?) (Nat.add_sub_cancel_left 2 n)

/-- Four bits of a binary number spell the hexadecimal digit at the same
half byte. -/
theorem take_drop_write_binary {word : Word} {n : Nat} {c : Char}
    (hc : (hex.shownDigits word)[n]? = some c) :
    ((binary.write word).drop (4 * n)).take 4 = halfByte ((hex.digit? c).getD 0) := by
  rw [write_eq, shownDigits_binary]
  exact take_drop_halfBytes hc

end Base

namespace Pointer

section

variable {words : List Word} {index : Nat} {word : Word}

/-! ### Aims -/

theorem aim?_of_groupAt? (base : Base) {text : Text} {position : Nat} {group : Group}
    (hgroup : text.groupAt? position = some group) :
    aim? base text position = match base with
      | .decimal => some ⟨group, none⟩
      | .hex =>
        if group.isWholeLine || position - group.start < hexMarkLength group.text then none
        else some ⟨group, some (position - group.start - hexMarkLength group.text)⟩
      | .binary =>
        if group.isWholeLine then none else some ⟨group, some ((position - group.start) / 4)⟩ := by
  rw [aim?, hgroup]
  rfl

/-- There is no aim on a space. -/
theorem aim?_of_space (base : Base) {text : Text} {position : Nat}
    (h : text[position]? = some ' ') : aim? base text position = none := by
  rw [aim?, Text.groupAt?_of_space h]
  rfl

/-- The group under a position of a hexadecimal or binary number. -/
theorem groupAt?_number (base : Base) (hbase : base ≠ .decimal) (hword : words[index]? = some word)
    {offset : Nat} (hoffset : offset < (base.write word).length) :
    ((Sheet.ofWords words).get (Field.ofBase base)).groupAt?
        ((base.numberSpan words index word).start + offset)
      = some (base.numberGroup words index word) := by
  rw [groupAt?_ofWords base hword hoffset, Base.narrowAt_numberGroup hbase]

theorem isWholeLine_numberGroup (base : Base) (hbase : base ≠ .decimal) :
    (base.numberGroup words index word).isWholeLine = false := by
  rw [Group.isWholeLine, Base.isLine_numberGroup hbase, Bool.and_false]

theorem hexMarkLength_numberGroup :
    hexMarkLength (Base.hex.numberGroup words index word).text = 2 := by
  show hexMarkLength (Base.hex.write word) = 2
  rw [Base.write_eq]
  rfl

/-- A hexadecimal digit is a half byte of its number. -/
theorem aim?_hex (hword : words[index]? = some word) {n : Nat}
    (hn : n < (Base.hex.shownDigits word).length) :
    aim? .hex (Sheet.ofWords words).hex ((Base.hex.numberSpan words index word).start + 2 + n)
      = some ⟨Base.hex.numberGroup words index word, some n⟩ := by
  have hinside : 2 + n < (Base.hex.write word).length := by
    rw [Base.length_write_hex]
    omega
  have hgroup := groupAt?_number .hex (by decide) hword hinside
  have hoffset : (Base.hex.numberSpan words index word).start + (2 + n)
      - (Base.hex.numberGroup words index word).start = 2 + n :=
    Nat.add_sub_cancel_left _ _
  have hhalf : 2 + n - 2 = n := Nat.add_sub_cancel_left 2 n
  rw [Nat.add_assoc]
  refine (aim?_of_groupAt? _ hgroup).trans ?_
  simp only [isWholeLine_numberGroup .hex (by decide), hexMarkLength_numberGroup,
    hoffset, hhalf, Bool.false_or, decide_eq_true_eq]
  exact if_neg (by omega)

/-- There is no aim on the mark of a hexadecimal number. -/
theorem aim?_mark (hword : words[index]? = some word) {offset : Nat} (hoffset : offset < 2) :
    aim? .hex (Sheet.ofWords words).hex ((Base.hex.numberSpan words index word).start + offset)
      = none := by
  have hinside : offset < (Base.hex.write word).length := by
    rw [Base.length_write_hex]
    omega
  have hgroup := groupAt?_number .hex (by decide) hword hinside
  have hcancel : (Base.hex.numberSpan words index word).start + offset
      - (Base.hex.numberGroup words index word).start = offset :=
    Nat.add_sub_cancel_left _ _
  -- The offset lies below the length of the mark, which is two.
  refine (aim?_of_groupAt? _ hgroup).trans ?_
  simp only [hexMarkLength_numberGroup, hcancel]
  exact if_pos (by simp [hoffset])

/-- Each of its four bits is the same half byte. -/
theorem aim?_binary (hword : words[index]? = some word) {n bit : Nat}
    (hn : n < (Base.hex.shownDigits word).length) (hbit : bit < 4) :
    aim? .binary (Sheet.ofWords words).binary
        ((Base.binary.numberSpan words index word).start + 4 * n + bit)
      = some ⟨Base.binary.numberGroup words index word, some n⟩ := by
  have hinside : 4 * n + bit < (Base.binary.write word).length := by
    rw [Base.length_write_binary]
    omega
  have hgroup := groupAt?_number .binary (by decide) hword hinside
  have hoffset : (Base.binary.numberSpan words index word).start + (4 * n + bit)
      - (Base.binary.numberGroup words index word).start = 4 * n + bit :=
    Nat.add_sub_cancel_left _ _
  have hhalf : (4 * n + bit) / 4 = n := by omega
  rw [Nat.add_assoc]
  refine (aim?_of_groupAt? _ hgroup).trans ?_
  simp only [isWholeLine_numberGroup .binary (by decide), hoffset, hhalf]
  exact if_neg Bool.false_ne_true

/-! ### What is marked -/

/-- The half byte of a number in the field of a base, found from an
aim at it. -/
theorem spanOf?_numberGroup {aim : Aim} {n : Nat} (haim : aim.halfByte? = some n)
    (hn : n < (Base.hex.shownDigits word).length) (base : Base) :
    aim.spanOf? base (base.numberGroup words index word)
      = halfByteSpan? words index word n (Field.ofBase base) := by
  have hlength : (base.numberGroup words index word).length = (base.write word).length :=
    Nat.add_sub_cancel_left _ _
  cases base with
  | decimal => rfl
  | hex =>
      rw [Base.length_write_hex] at hlength
      simp only [Aim.spanOf?, haim, Group.hexDigit?, hexMarkLength_numberGroup, hlength]
      exact if_pos (by omega)
  | binary =>
      -- The bits come in whole half bytes, so the last of them is not cut short.
      rw [Base.length_write_binary] at hlength
      have hfirst : 4 * n < 4 * (Base.hex.shownDigits word).length := by omega
      have hmin : min (4 * n + 4) (4 * (Base.hex.shownDigits word).length) = 4 * n + 4 := by omega
      simp only [Aim.spanOf?, haim, Group.bits?, hlength, if_pos hfirst, hmin]
      rfl

/-- What an aim marks in a numeric field. The field pointed at has its
group already; the others look for theirs. -/
theorem numericSpan?_of_aim {sheet : Sheet} {source : Base} {position : Nat} {aim : Aim}
    (haim : aim? source (sheet.get (Field.ofBase source)) position = some aim) (base : Base) :
    numericSpan? sheet source position (Field.ofBase base)
      = if base = source then aim.spanOf? base aim.group
        else (aim.group.alignedIn? (sheet.get (Field.ofBase base))).bind (aim.spanOf? base) := by
  rw [numericSpan?, haim, Option.bind_eq_bind, Option.bind_some, Field.base?_ofBase]

/-- An aim at a half byte marks it in every field, wherever the aim came
from. -/
theorem numericSpan?_halfByte (source : Base) (hword : words[index]? = some word) {position n : Nat}
    (hn : n < (Base.hex.shownDigits word).length)
    (haim : aim? source ((Sheet.ofWords words).get (Field.ofBase source)) position
      = some ⟨source.numberGroup words index word, some n⟩) (target : Field) :
    numericSpan? (Sheet.ofWords words) source position target
      = halfByteSpan? words index word n target := by
  have hnumeric : ∀ base : Base, numericSpan? (Sheet.ofWords words) source position
      (Field.ofBase base) = halfByteSpan? words index word n (Field.ofBase base) := by
    intro base
    rw [numericSpan?_of_aim haim]
    split
    · rename_i hsame
      subst hsame
      exact spanOf?_numberGroup rfl hn base
    · rw [alignedIn?_numberGroup source base hword, Option.bind_some]
      exact spanOf?_numberGroup rfl hn base
  cases target with
  | decimal => exact hnumeric .decimal
  | hex => exact hnumeric .hex
  | binary => exact hnumeric .binary
  | ascii => rw [numericSpan?, haim]; rfl

/-- Any character of a decimal number marks the whole number in the other
numeric fields. -/
theorem numericSpan?_decimal (hword : words[index]? = some word) {offset : Nat}
    (hoffset : offset < (Base.decimal.write word).length) {base : Base} (hbase : base ≠ .decimal) :
    numericSpan? (Sheet.ofWords words) .decimal
        ((Base.decimal.numberSpan words index word).start + offset) (Field.ofBase base)
      = some (base.numberSpan words index word) := by
  obtain ⟨group, haligned, hspan⟩ := alignedIn?_narrowAt .decimal hbase hword
    ((Base.decimal.numberSpan words index word).start + offset)
  have haim := aim?_of_groupAt? .decimal (groupAt?_ofWords .decimal hword hoffset)
  rw [numericSpan?_of_aim haim, if_neg hbase, haligned, Option.bind_some, ← hspan]
  cases base <;> rfl

/-- The bits of a half byte spell the hexadecimal digit at its place. -/
theorem textIn_halfByte (hword : words[index]? = some word) {n : Nat} {c : Char}
    (hc : (Base.hex.shownDigits word)[n]? = some c) :
    Span.textIn ⟨(Base.binary.numberSpan words index word).start + 4 * n,
        (Base.binary.numberSpan words index word).start + 4 * n + 4⟩ (Sheet.ofWords words).binary
      = halfByte ((Base.hex.digit? c).getD 0) := by
  have hn : n < (Base.hex.shownDigits word).length := (List.getElem?_eq_some_iff.mp hc).1
  have hlength := Base.length_write_binary word
  have hinside : (Base.binary.numberSpan words index word).start + 4 * n + 4
      ≤ (Base.binary.numberSpan words index word).stop := by
    show _ ≤ (Base.binary.numberSpan words index word).start + (Base.binary.write word).length
    omega
  have hnumber : (Base.binary.numberSpan words index word).textIn (Sheet.ofWords words).binary
      = Base.binary.write word :=
    textIn_numberSpan .binary hword
  rw [Span.textIn_inside hinside, hnumber]
  exact Base.take_drop_write_binary hc

/-- Without an aim nothing is marked in any field. -/
theorem numericSpan?_of_no_aim {sheet : Sheet} (source : Base) {position : Nat}
    (h : aim? source (sheet.get (Field.ofBase source)) position = none) (target : Field) :
    numericSpan? sheet source position target = none := by
  rw [numericSpan?, h]
  rfl

end

end Pointer

/-- What pointers mark that are over the number `word` of a sheet of
`words`, behind `index` others. -/
structure MarksNumber (words : List Word) (index : Nat) (word : Word) : Prop where
  /-- The spans spoken of below hold the written number. -/
  written : ∀ base : Base, (base.numberSpan words index word).textIn
    ((Sheet.ofWords words).get (Field.ofBase base)) = base.write word
  /-- Four bits of the number spell its hexadecimal digit `n`. -/
  spelled : ∀ n c, (Base.hex.write word)[2 + n]? = some c →
    ∃ value, Base.hex.digit? c = some value
      ∧ 4 * n + 4 ≤ (Base.binary.write word).length
      ∧ Span.textIn ⟨(Base.binary.numberSpan words index word).start + 4 * n,
          (Base.binary.numberSpan words index word).start + 4 * n + 4⟩ (Sheet.ofWords words).binary
        = halfByte value
  /-- A pointer on this digit marks the half byte in every field. -/
  fromDigit : ∀ n c, (Base.hex.write word)[2 + n]? = some c → ∀ target,
    Pointer.span? ⟨.hex, (Base.hex.numberSpan words index word).start + 2 + n⟩
      (Sheet.ofWords words) target = halfByteSpan? words index word n target
  /-- A pointer on one of the four bits marks the same. -/
  fromBit : ∀ n c, (Base.hex.write word)[2 + n]? = some c → ∀ bit < 4, ∀ target,
    Pointer.span? ⟨.binary, (Base.binary.numberSpan words index word).start + 4 * n + bit⟩
      (Sheet.ofWords words) target = halfByteSpan? words index word n target
  /-- A pointer on any character of the decimal number marks the whole
  number in hexadecimal and binary. -/
  fromDecimal : ∀ offset < (Base.decimal.write word).length, ∀ base : Base, base ≠ .decimal →
    Pointer.span? ⟨.decimal, (Base.decimal.numberSpan words index word).start + offset⟩
      (Sheet.ofWords words) (Field.ofBase base) = some (base.numberSpan words index word)
  /-- A pointer on the mark `0x` marks nothing. -/
  fromMark : ∀ offset < 2, ∀ target,
    Pointer.span? ⟨.hex, (Base.hex.numberSpan words index word).start + offset⟩
      (Sheet.ofWords words) target = none

/-- Typing decimal numbers with single spaces between them fills a sheet
on which pointers over hexadecimal digits and over bits meet: both mark
the digit, its four bits, the decimal number and the characters. A
pointer on a space of a numeric field marks nothing. -/
theorem Pointer.marksNumber_ofWords (words : List Word) :
    Sheet.fill? .decimal (Text.spaced (words.map Base.decimal.write)) = some (Sheet.ofWords words)
    ∧ (∀ index word, words[index]? = some word → MarksNumber words index word)
    ∧ ∀ base position, ((Sheet.ofWords words).get (Field.ofBase base))[position]? = some ' ' →
        ∀ target, Pointer.span? ⟨Field.ofBase base, position⟩ (Sheet.ofWords words) target
          = none := by
  refine ⟨Sheet.fill?_spaced .decimal words, ?_, ?_⟩
  · intro index word hword
    -- Behind the mark stand the digits, as many as there are half bytes.
    have hdigit : ∀ n c, (Base.hex.write word)[2 + n]? = some c →
        (Base.hex.shownDigits word)[n]? = some c ∧ n < (Base.hex.shownDigits word).length := by
      intro n c hc
      rw [Base.getElem?_write_hex] at hc
      exact ⟨hc, (List.getElem?_eq_some_iff.mp hc).1⟩
    refine ⟨fun base => textIn_numberSpan base hword, ?_, ?_, ?_, ?_, ?_⟩
    · intro n c hc
      obtain ⟨hshown, hn⟩ := hdigit n c hc
      have hisDigit := Base.hex.isDigit_of_mem_shownDigits word c (List.mem_of_getElem? hshown)
      obtain ⟨value, hvalue⟩ := Option.isSome_iff_exists.mp hisDigit
      have hlength := Base.length_write_binary word
      refine ⟨value, hvalue, by omega, ?_⟩
      have hbits := textIn_halfByte hword hshown
      rwa [hvalue] at hbits
    · intro n c hc target
      obtain ⟨-, hn⟩ := hdigit n c hc
      exact numericSpan?_halfByte .hex hword hn (aim?_hex hword hn) target
    · intro n c hc bit hbit target
      obtain ⟨-, hn⟩ := hdigit n c hc
      exact numericSpan?_halfByte .binary hword hn (aim?_binary hword hn hbit) target
    · intro offset hoffset base hbase
      exact numericSpan?_decimal hword hoffset hbase
    · intro offset hoffset target
      exact numericSpan?_of_no_aim .hex (aim?_mark hword hoffset) target
  · intro base position hspace target
    rw [span?, Field.base?_ofBase]
    exact numericSpan?_of_no_aim base (aim?_of_space base hspace) target

end BaseConverter
