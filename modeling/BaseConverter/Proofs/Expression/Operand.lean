import BaseConverter.Expression.Reading
import BaseConverter.Proofs.Numeral.Written
import BaseConverter.Proofs.Text.Trim

/-!
# `BaseConverter.Proofs.Expression.Operand`: the written form of an operand

`Operand.Spelled base text operand` says that `text` is `operand` written
in the base `base`: a row of digits with at most one mark `0x` in front,
and white space around it. It does not speak of the reader;
`Operand.read_eq_ok_iff` proves that the reader accepts just these texts.

An operand holds no character of an operator
(`Operand.Spelled.not_operatorChar`), so the operators of a line can be
found without knowing its operands.
-/

set_option autoImplicit false

namespace BaseConverter

/-- `core` is the row `digits`, with one mark in front where the base
has marks. -/
inductive Base.Marked : Base → Text → Text → Prop
  | bare (base : Base) (digits : Text) : Marked base digits digits
  | small (digits : Text) : Marked .hex digits ('0' :: 'x' :: digits)
  | capital (digits : Text) : Marked .hex digits ('0' :: 'X' :: digits)

/-- `text` is an operand in the base `base`: at least one digit, at most
one mark, a number below the limit, and white space around it. -/
inductive Operand.Spelled (base : Base) : Text → Operand → Prop
  | intro {text core digits : Text}
      (padded : Text.Padded core text)
      (marked : base.Marked digits core)
      (nonempty : digits ≠ [])
      (allDigits : ∀ c ∈ digits, base.isDigit c = true)
      (fits : base.placeValue digits < base.operandLimit) :
      Spelled base text ⟨core, BitVec.ofNat 64 (base.placeValue digits)⟩

/-! ### Marks -/

/-- What stands behind the mark of a text, with the mark. -/
theorem Base.marked_operandDigits (base : Base) (text : Text) :
    base.Marked (base.operandDigits text) (Text.trim text) := by
  cases base with
  | decimal => exact .bare _ _
  | binary => exact .bare _ _
  | hex =>
      unfold operandDigits dropHexMark hexMarkLength
      simp only
      split
      · rename_i heq
        rw [heq]
        exact .small _
      · rename_i heq
        rw [heq]
        exact .capital _
      · exact .bare _ _

/-- The digits behind a mark are the digits of the operand. -/
theorem Base.Marked.operandDigits_eq {base : Base} {text digits : Text}
    (h : base.Marked digits (Text.trim text)) (hdigits : ∀ c ∈ digits, base.isDigit c = true) :
    base.operandDigits text = digits := by
  generalize hcore : Text.trim text = core at h
  cases h with
  | bare =>
      cases base with
      | decimal => exact hcore
      | binary => exact hcore
      | hex =>
          rw [operandDigits, hcore, dropHexMark, hexMarkLength_of_digits hdigits, List.drop_zero]
  | small => rw [operandDigits, hcore]; rfl
  | capital => rw [operandDigits, hcore]; rfl

/-- The characters of a marked row are digits and those of a mark. -/
theorem Base.Marked.forall_mem {base : Base} {digits core : Text} {p : Char → Prop}
    (h : base.Marked digits core) (hmark : p '0' ∧ p 'x' ∧ p 'X') (hdigits : ∀ c ∈ digits, p c) :
    ∀ c ∈ core, p c := by
  obtain ⟨hzero, hsmall, hcapital⟩ := hmark
  cases h <;> simp_all

/-! ### The reader of operands -/

/-- The reader does not look at the white space around an operand. -/
@[simp]
theorem Operand.read_trim (base : Base) (text : Text) :
    Operand.read base (Text.trim text) = Operand.read base text := by
  have hdigits : base.operandDigits (Text.trim text) = base.operandDigits text := by
    cases base <;> simp [Base.operandDigits]
  simp [Operand.read, Base.isOperandText, hdigits]

/-- No character of an operator is white space. -/
theorem not_white_of_isOperatorChar {c : Char} (h : isOperatorChar c = true) :
    Text.isWhite c = false := by
  simp only [isOperatorChar, Bool.or_eq_true, beq_iff_eq, Option.isSome_iff_exists] at h
  rcases h with ((⟨op, hop⟩ | rfl) | rfl) | rfl
  · rw [← Operator.symbol_of_ofSymbol? hop]
    cases op <;> decide
  all_goals decide

/-- A shift is written with a character of an operator, twice. -/
theorem Shift.exists_symbol_eq (direction : Shift) :
    ∃ c, direction.symbol = [c, c] ∧ isOperatorChar c = true := by
  cases direction with
  | left => exact ⟨'<', rfl, rfl⟩
  | right => exact ⟨'>', rfl, rfl⟩

namespace Operand.Spelled

variable {base : Base} {text : Text} {operand : Operand}

/-- The text of an operand is what is left without the white space
around it. -/
theorem text_eq (h : Spelled base text operand) : operand.text = Text.trim text := by
  obtain ⟨hpadded, hmarked, -, hall, -⟩ := h
  refine (Text.trim_of_padded (Text.Trimmed.of_forall ?_) hpadded).symm
  exact hmarked.forall_mem (by decide) fun c hc => Base.not_white_of_isDigit (hall c hc)

/-- An operand has digits and nothing else behind its mark. -/
theorem isOperandText (h : Spelled base text operand) : base.isOperandText text = true := by
  have htrim := h.text_eq
  obtain ⟨-, hmarked, hne, hall, -⟩ := h
  dsimp only at htrim
  rw [htrim] at hmarked
  rw [Base.isOperandText, hmarked.operandDigits_eq hall]
  simpa [hne] using hall

theorem ne_nil (h : Spelled base text operand) : text ≠ [] := by
  rintro rfl
  have hdigits := h.isOperandText
  cases base <;> simp [Base.isOperandText, Base.operandDigits, dropHexMark, hexMarkLength,
    Text.trim, Text.trimStart, Text.trimEnd] at hdigits

/-- No character of an operand belongs to an operator. -/
theorem not_operatorChar (h : Spelled base text operand) :
    ∀ c ∈ text, isOperatorChar c = false := by
  obtain ⟨⟨before, after, hbefore, hafter, rfl⟩, hmarked, -, hall, -⟩ := h
  have hwhite : ∀ c, Text.isWhite c = true → isOperatorChar c = false := by
    intro c hc
    by_contra hop
    rw [not_white_of_isOperatorChar (by simpa using hop)] at hc
    cases hc
  have hcore := hmarked.forall_mem (p := fun c => isOperatorChar c = false) (by decide)
    fun c hc => Base.not_operatorChar_of_isDigit (hall c hc)
  intro c hc
  rcases List.mem_append.mp hc with hc | hc
  · rcases List.mem_append.mp hc with hc | hc
    · exact hwhite c (List.all_eq_true.mp hbefore c hc)
    · exact hcore c hc
  · exact hwhite c (List.all_eq_true.mp hafter c hc)

end Operand.Spelled

/-- The reader accepts just the texts that are an operand, and gives the
operand that they are. -/
theorem Operand.read_eq_ok_iff (base : Base) (text : Text) (operand : Operand) :
    Operand.read base text = .ok operand ↔ Spelled base text operand := by
  constructor
  · intro h
    unfold Operand.read at h
    split at h
    · rename_i hdigits
      simp only [Base.isOperandText, Bool.and_eq_true, Bool.not_eq_true', List.isEmpty_eq_false_iff,
        List.all_eq_true] at hdigits
      simp only at h
      split at h
      · rename_i hfits
        cases h
        exact .intro (Text.padded_trim text) (base.marked_operandDigits text) hdigits.1 hdigits.2
          hfits
      · cases h
    · cases h
  · intro h
    have hdigits := h.isOperandText
    have htrim := h.text_eq
    obtain ⟨-, hmarked, -, hall, hfits⟩ := h
    dsimp only at htrim
    rw [htrim] at hmarked
    rw [Operand.read, if_pos hdigits]
    simp only [hmarked.operandDigits_eq hall, if_pos hfits]
    rw [htrim]

end BaseConverter
