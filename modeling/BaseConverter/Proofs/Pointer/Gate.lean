import BaseConverter.Proofs.Group.Token
import BaseConverter.Proofs.Pointer.Bounds
import BaseConverter.Proofs.Pointer.HalfByte

/-!
# `BaseConverter.Proofs.Pointer.Gate`: where a pointer marks anything

Whether a pointer over a numeric field marks anything is decided once, by the
field and the position alone, and not by the fields that could be marked. Only
what is marked there is up to them. `Text.OpenTo` says where it is: on a
character that is no space, and in hexadecimal and binary on no character that
separates operands, and in hexadecimal not on the mark of a number.

Behind the gate is the aim, so the gate is read off `Pointer.aim?`
(`Pointer.isSome_aim?_iff`). With an aim the field of the pointer shows a span
around the position (`Pointer.exists_spanOf?_around`); without one nothing is
marked in any field.

* `Pointer.gated_once` is the main statement.
-/

set_option autoImplicit false

namespace BaseConverter

/-- A position is on one of the two characters of the mark `0x` or `0X` that the
token there begins with. -/
def Text.OnHexMark (text : Text) (position : Nat) : Prop :=
  ∃ group, text.TokenAt position group ∧ position < group.start + 2
    ∧ ("0x".toList <+: group.text ∨ "0X".toList <+: group.text)

/-- A pointer over the text of a field of the base `base` is on something that
can be marked. -/
structure Text.OpenTo (text : Text) (base : Base) (position : Nat) : Prop where
  character : ∃ c, text[position]? = some c ∧ c ≠ ' '
    ∧ (base ≠ .decimal → separatesOperands c = false)
  noMark : base = .hex → ¬ text.OnHexMark position

theorem Span.whole?_eq (text : Text) :
    whole? text = if text = [] then none else some ⟨0, text.length⟩ := by
  cases text <;> rfl

/-! ### Marks -/

/-- The mark has two characters, or there is none. -/
theorem hexMarkLength_eq (text : Text) :
    hexMarkLength text
      = if "0x".toList <+: text ∨ "0X".toList <+: text then 2 else 0 := by
  unfold hexMarkLength
  split
  · simp
  · simp
  · rename_i hsmall hcapital
    rw [if_neg]
    rintro (⟨rest, rfl⟩ | ⟨rest, rfl⟩)
    · exact hsmall rest rfl
    · exact hcapital rest rfl

theorem Text.onHexMark_iff {text : Text} {position : Nat} {group : Group}
    (h : text.groupAt? position = some group) :
    text.OnHexMark position ↔ position - group.start < hexMarkLength group.text := by
  have htoken := (groupAt?_eq_some_iff text position group).mp h
  have hstart := htoken.around.1
  rw [hexMarkLength_eq]
  constructor
  · rintro ⟨group', htoken', hlt, hmark⟩
    have hgroup' := (groupAt?_eq_some_iff text position group').mpr htoken'
    obtain rfl := Option.some.inj (h.symm.trans hgroup')
    rw [if_pos hmark]
    omega
  · intro hlt
    split at hlt
    · rename_i hmark
      exact ⟨group, htoken, by omega, hmark⟩
    · cases hlt

namespace Pointer

/-! ### The gate -/

/-- Over a group there is an aim, unless a line is taken whole or the pointer is on
a mark. Neither counts in decimal, and marks count in hexadecimal alone. -/
theorem isSome_aim?_of_groupAt? (base : Base) {text : Text} {position : Nat} {group : Group}
    (h : text.groupAt? position = some group) :
    (aim? base text position).isSome = true
      ↔ (base ≠ .decimal → group.isWholeLine = false)
        ∧ (base = .hex → ¬ position - group.start < hexMarkLength group.text) := by
  rw [aim?_of_groupAt? base h]
  cases base with
  | decimal => simp
  | hex => cases hwhole : group.isWholeLine <;> simp
  | binary => cases hwhole : group.isWholeLine <;> simp

/-- There is an aim exactly where the text is open to a pointer. -/
theorem isSome_aim?_iff (base : Base) (text : Text) (position : Nat) :
    (aim? base text position).isSome = true ↔ text.OpenTo base position := by
  cases hgroup : text.groupAt? position with
  | none =>
      have hnone : aim? base text position = none := by
        rw [aim?, hgroup]
        rfl
      rw [hnone]
      refine iff_of_false Bool.false_ne_true ?_
      rintro ⟨⟨c, hc, hspace, -⟩, -⟩
      have hsome := (Text.isSome_groupAt?_iff text position).mpr ⟨c, hc, hspace⟩
      rw [hgroup] at hsome
      cases hsome
  | some group =>
      obtain ⟨c, hc, hspace⟩ := (Text.isSome_groupAt?_iff text position).mp (by rw [hgroup]; rfl)
      have hwhole : group.isWholeLine = false ↔ separatesOperands c = false := by
        rw [← Bool.not_eq_true, Text.isWholeLine_groupAt?_iff hgroup, hc]
        simp
      rw [isSome_aim?_of_groupAt? base hgroup, hwhole, ← Text.onHexMark_iff hgroup]
      constructor
      · rintro ⟨hseparates, hmark⟩
        exact ⟨⟨c, hc, hspace, hseparates⟩, hmark⟩
      · rintro ⟨⟨d, hd, -, hseparates⟩, hmark⟩
        obtain rfl : c = d := Option.some.inj (hc.symm.trans hd)
        exact ⟨hseparates, hmark⟩

/-! ### The field of the pointer -/

/-- In the field of the pointer an aim shows a span around the position. -/
theorem exists_spanOf?_around {base : Base} {text : Text} {position : Nat} {aim : Aim}
    (h : aim? base text position = some aim) :
    ∃ span, aim.spanOf? base aim.group = some span
      ∧ span.start ≤ position ∧ position < span.stop := by
  have hgroup := groupAt?_of_aim? h
  obtain ⟨hlo, hhi⟩ := ((Text.groupAt?_eq_some_iff text position aim.group).mp hgroup).around
  rw [aim?_of_groupAt? base hgroup] at h
  cases base with
  | decimal =>
      rw [← Option.some.inj h]
      exact ⟨_, rfl, hlo, hhi⟩
  | hex =>
      simp only at h
      split at h
      · cases h
      · rename_i hopen
        have hmark : ¬ position - aim.group.start < hexMarkLength aim.group.text := by
          simp only [Bool.or_eq_true, decide_eq_true_eq, not_or] at hopen
          exact hopen.2
        -- Counted from the mark, the digit is the character at the position.
        have hdigit : position - aim.group.start - hexMarkLength aim.group.text
            < aim.group.length - hexMarkLength aim.group.text := by
          rw [Group.length]
          omega
        rw [← Option.some.inj h]
        refine ⟨_, if_pos hdigit, ?_, ?_⟩ <;> simp only [Span.single] <;> omega
  | binary =>
      simp only at h
      split at h
      · cases h
      · -- The last half byte of a group may have fewer than four bits.
        have hfirst : 4 * ((position - aim.group.start) / 4) < aim.group.length := by
          rw [Group.length]
          omega
        rw [← Option.some.inj h]
        refine ⟨_, if_pos hfirst, ?_, ?_⟩ <;> simp only [Group.length] <;> omega

/-- A pointer over a numeric field marks something in this field exactly where
the text of the field is open to it. Where it marks nothing there, it marks
nothing in any field. Where it marks something, this is around the pointer, and
the characters are marked whole if there are any. The four texts of the sheet
may be any. -/
theorem gated_once (sheet : Sheet) (source : Base) (position : Nat) :
    let own := Field.ofBase source
    let marked := Pointer.span? ⟨own, position⟩ sheet
    ((marked own).isSome = true ↔ (sheet.get own).OpenTo source position)
    ∧ (marked own = none → ∀ target, marked target = none)
    ∧ ∀ span, marked own = some span →
        span.start ≤ position ∧ position < span.stop
        ∧ marked .ascii = if sheet.ascii = [] then none else some ⟨0, sheet.ascii.length⟩ := by
  intro own marked
  have hmarked : ∀ target, marked target = numericSpan? sheet source position target := by
    intro target
    show span? ⟨Field.ofBase source, position⟩ sheet target = _
    rw [span?, Field.base?_ofBase]
  simp only [hmarked]
  rw [← isSome_aim?_iff]
  cases haim : aim? source (sheet.get own) position with
  | none =>
      have hnone := numericSpan?_of_no_aim source haim
      rw [hnone own]
      refine ⟨Iff.rfl, fun _ => hnone, ?_⟩
      intro span hspan
      cases hspan
  | some aim =>
      obtain ⟨span, hspan, hlo, hhi⟩ := exists_spanOf?_around haim
      have hown : numericSpan? sheet source position own = some span := by
        rw [numericSpan?_of_aim haim, if_pos rfl, hspan]
      have hascii : numericSpan? sheet source position .ascii = Span.whole? sheet.ascii := by
        rw [numericSpan?, haim]
        rfl
      rw [hown, hascii, Span.whole?_eq]
      refine ⟨Iff.rfl, ?_, ?_⟩
      · intro hnone
        cases hnone
      · intro span' hspan'
        obtain rfl := Option.some.inj hspan'
        exact ⟨hlo, hhi, rfl⟩

end Pointer

end BaseConverter
