import BaseConverter.Proofs.Pointer.Bounds
import BaseConverter.Proofs.Pointer.Line
import BaseConverter.Proofs.Session.Converted

/-!
# `BaseConverter.Proofs.Session.PointedValue`: the value that a pointer marks

A converted text may hold parts that are no numbers. They are passed over
when the values are read, but they are still groups of their field. A
pointer on a part marks the group with the same number in the other fields,
and this number counts all parts in front, not the values read from them.

`Base.rendering?` is the span in another field that shows the value of a
part. It is found by counting the values, and `textIn_rendering?` says that
the value is what stands there. `Session.marksOwnValue_iff` compares it with
what is marked: a pointer keeps to the value of its part exactly when that
part and every part in front of it are numbers, or when nothing is marked.
-/

set_option autoImplicit false

namespace BaseConverter

namespace Base

/-! ### The values of parts -/

/-- The values of those parts that are numbers, in order. -/
def readParts (base : Base) (parts : List Text.Stretch) : List Word :=
  parts.filterMap fun part => (base.read part.text).toOption

/-- Whether a part is a number of a base. -/
def IsNumber (base : Base) (part : Text.Stretch) : Prop :=
  (base.read part.text).toOption.isSome = true

instance (base : Base) (part : Text.Stretch) : Decidable (base.IsNumber part) :=
  inferInstanceAs (Decidable (_ = _))

theorem isNumber_iff (base : Base) (part : Text.Stretch) :
    base.IsNumber part ↔ ∃ word, base.read part.text = .ok word := by
  rw [IsNumber, Option.isSome_iff_exists]
  exact exists_congr fun word => toOption_eq_some_iff

theorem values_ofBase (base : Base) (text : Text) :
    (Field.ofBase base).values text = base.readParts text.parts := by
  rw [Field.values, Field.base?_ofBase]
  rfl

variable {base : Base} {parts : List Text.Stretch} {index : Nat} {part : Text.Stretch}
  {word : Word}

/-- A part stands between those in front of it and those behind it. -/
theorem exists_eq_take_append (hpart : parts[index]? = some part) :
    ∃ after, parts = parts.take index ++ part :: after := by
  obtain ⟨hindex, rfl⟩ := List.getElem?_eq_some_iff.mp hpart
  refine ⟨parts.drop (index + 1), ?_⟩
  rw [List.getElem_cons_drop, List.take_append_drop]

/-- The value of a part has the values of the parts in front of it in front
of it. -/
theorem getElem?_readParts (hpart : parts[index]? = some part)
    (hread : base.read part.text = .ok word) :
    (base.readParts parts)[(base.readParts (parts.take index)).length]? = some word := by
  obtain ⟨after, hparts⟩ := exists_eq_take_append hpart
  have hvalues : base.readParts parts
      = base.readParts (parts.take index) ++ word :: base.readParts after := by
    conv_lhs => rw [hparts]
    rw [readParts, List.filterMap_append, List.filterMap_cons, toOption_eq_some_iff.mpr hread]
    rfl
  rw [hvalues, List.getElem?_append_right (Nat.le_refl _), Nat.sub_self]
  rfl

/-- There are as many values as parts exactly when every part is a
number. -/
theorem length_readParts_iff (base : Base) (parts : List Text.Stretch) :
    (base.readParts parts).length = parts.length ↔ ∀ part ∈ parts, base.IsNumber part :=
  List.filterMap_length_eq_length

/-- A part has its number among the values too when all parts in front of it
are numbers, and a smaller one otherwise. -/
theorem length_readParts_take (base : Base) (hpart : parts[index]? = some part) :
    (base.readParts (parts.take index)).length ≤ index
    ∧ ((base.readParts (parts.take index)).length = index
      ↔ ∀ earlier ∈ parts.take index, base.IsNumber earlier) := by
  have hlength : (parts.take index).length = index := by
    rw [List.length_take]
    exact Nat.min_eq_left (Nat.le_of_lt (List.getElem?_eq_some_iff.mp hpart).1)
  have hle := List.length_filterMap_le (fun part => (base.read part.text).toOption)
    (parts.take index)
  rw [← length_readParts_iff, hlength]
  rw [hlength] at hle
  exact ⟨hle, Iff.rfl⟩

/-- The span in the field of the base `target` that shows the value of a
part of `text`, when `text` is typed into the field of the base `source`.
A part that is no number has none. -/
def rendering? (source target : Base) (text : Text) (index : Nat) : Option Span := do
  let part ← text.parts[index]?
  let word ← (source.read part.text).toOption
  let before := source.readParts (text.parts.take index)
  some (target.numberSpan (source.readParts text.parts) before.length word)

theorem exists_of_rendering? {source target : Base} {text : Text} {span : Span}
    (hpart : text.parts[index]? = some part)
    (h : source.rendering? target text index = some span) :
    ∃ word, source.read part.text = .ok word
      ∧ span = target.numberSpan (source.readParts text.parts)
          (source.readParts (text.parts.take index)).length word := by
  rw [rendering?, hpart, Option.bind_eq_bind, Option.bind_some] at h
  obtain ⟨word, hword, hspan⟩ := Option.bind_eq_some_iff.mp h
  exact ⟨word, toOption_eq_some_iff.mp hword, (Option.some.inj hspan).symm⟩

theorem rendering?_of_read {source : Base} (target : Base) {text : Text}
    (hpart : text.parts[index]? = some part) (hread : source.read part.text = .ok word) :
    source.rendering? target text index
      = some (target.numberSpan (source.readParts text.parts)
          (source.readParts (text.parts.take index)).length word) := by
  rw [rendering?, hpart, Option.bind_eq_bind, Option.bind_some, hread]
  rfl

end Base

namespace Session

/-- What is marked when a pointer comes to a character. -/
theorem span?_point (session : Session) (base : Base) (position : Nat) (target : Field) :
    (session.point ⟨Field.ofBase base, position⟩).span? target
      = Pointer.numericSpan? session.sheet base position target :=
  Pointer.span?_ofBase base position session.sheet target

/-- A pointer on `position` in part `index` of `text` marks no character in
the field `target` but those that show the value of this part. -/
def MarksOwnValue (shown : Session) (source target : Base) (text : Text) (index position : Nat) :
    Prop :=
  ∀ span, (shown.point ⟨Field.ofBase source, position⟩).span? (Field.ofBase target) = some span →
    ∃ own, source.rendering? target text index = some own
      ∧ own.start ≤ span.start ∧ span.stop ≤ own.stop

section

variable {session : Session} {source target : Base} {text : Text} {index position : Nat}
  {part : Text.Stretch}

/-- The other fields of a converted session show the values of the parts. -/
theorem get_input_of_converted (hne : target ≠ source)
    (h : (session.enter (Field.ofBase source) text).1 = .converted) :
    (session.input (Field.ofBase source) text).sheet.get (Field.ofBase target)
      = (Sheet.ofWords (source.readParts text.parts)).get (Field.ofBase target) := by
  rw [session.sheet_input_of_converted h, Sheet.get_set_of_ne _ _ (Field.ofBase_ne hne),
    Base.values_ofBase]

/-- The field that was typed into keeps its text. -/
theorem get_source_of_converted (h : (session.enter (Field.ofBase source) text).1 = .converted) :
    (session.input (Field.ofBase source) text).sheet.get (Field.ofBase source) = text := by
  rw [session.sheet_input_of_converted h, Sheet.get_set_self]

/-- The characters of the span that shows the value of a part are the
written form of this value. -/
theorem textIn_rendering? (hne : target ≠ source)
    (h : (session.enter (Field.ofBase source) text).1 = .converted)
    (hpart : text.parts[index]? = some part) {own : Span}
    (hown : source.rendering? target text index = some own) :
    ∃ word, source.read part.text = .ok word
      ∧ own.textIn ((session.input (Field.ofBase source) text).sheet.get (Field.ofBase target))
        = target.write word := by
  obtain ⟨word, hread, rfl⟩ := Base.exists_of_rendering? hpart hown
  refine ⟨word, hread, ?_⟩
  rw [get_input_of_converted hne h]
  exact textIn_numberSpan target (Base.getElem?_readParts hpart hread)

/-- A pointer on a part marks characters of the number with as many numbers
in front of it as the part has parts. -/
theorem exists_number_of_span? (hne : target ≠ source)
    (h : (session.enter (Field.ofBase source) text).1 = .converted)
    (hpart : text.parts[index]? = some part) (hlo : part.start ≤ position)
    (hhi : position < part.stop) {span : Span}
    (hspan : ((session.input (Field.ofBase source) text).point
      ⟨Field.ofBase source, position⟩).span? (Field.ofBase target) = some span) :
    ∃ word, (source.readParts text.parts)[index]? = some word
      ∧ span.InGroup (target.numberGroup (source.readParts text.parts) index word) := by
  rw [span?_point] at hspan
  obtain ⟨aim, haim, group, hgroup, hinside⟩ := Pointer.exists_aim_of_numericSpan? hne hspan
  -- The aim has the number of the part, also when it is narrowed to an operand.
  have hindex : aim.group.index = index := by
    have hunder := Pointer.groupAt?_of_aim? haim
    rw [get_source_of_converted h, Text.groupAt?_part hpart hlo hhi, Option.some.injEq] at hunder
    rw [← hunder, Group.index_narrowAt]
    rfl
  rw [hindex, get_input_of_converted hne h] at hgroup
  cases hword : (source.readParts text.parts)[index]? with
  | none =>
      rw [Sheet.get_ofWords, Text.group?_spaced (target.ne_nil_and_space_not_mem _),
        List.getElem?_map, hword] at hgroup
      cases hgroup
  | some word =>
      rw [group?_ofWords target hword, Option.some.injEq] at hgroup
      exact ⟨word, rfl, hgroup ▸ hinside⟩

/-- A text was typed into a numeric field and converted. A pointer on one of
its parts keeps to the value of this part in another numeric field exactly
when nothing is marked there, or this part and every part in front of it
are numbers. -/
theorem marksOwnValue_iff (session : Session) (source target : Base) (text : Text)
    (hne : target ≠ source)
    (h : (session.enter (Field.ofBase source) text).1 = .converted)
    (index position : Nat) (part : Text.Stretch) (hpart : text.parts[index]? = some part)
    (hlo : part.start ≤ position) (hhi : position < part.stop) :
    (session.input (Field.ofBase source) text).MarksOwnValue source target text index position
      ↔ ((session.input (Field.ofBase source) text).point
            ⟨Field.ofBase source, position⟩).span? (Field.ofBase target) = none
        ∨ ∀ earlier ∈ text.parts.take (index + 1), source.IsNumber earlier := by
  obtain ⟨hle, hall⟩ := source.length_readParts_take hpart
  rw [List.take_add_one, hpart, Option.toList_some, List.forall_mem_append,
    List.forall_mem_singleton, ← hall]
  constructor
  · intro hmarks
    cases hspan : ((session.input (Field.ofBase source) text).point
        ⟨Field.ofBase source, position⟩).span? (Field.ofBase target) with
    | none => exact .inl rfl
    | some span =>
        obtain ⟨own, hown, hstart, hstop⟩ := hmarks span hspan
        obtain ⟨word, hread, rfl⟩ := Base.exists_of_rendering? hpart hown
        obtain ⟨other, hother, hinside⟩ := exists_number_of_span? hne h hpart hlo hhi hspan
        have hvalue := Base.getElem?_readParts hpart hread
        refine .inr ⟨?_, (source.isNumber_iff part).mpr ⟨word, hread⟩⟩
        -- A smaller number would end in front of what is marked.
        by_contra hless
        have hgap := Text.stop_lt_start (group?_ofWords target hvalue)
          (group?_ofWords target hother) (by omega)
        have hfirst := hinside.start_le
        have hlast := hinside.start_lt_stop
        change _ ≤ (target.numberGroup _ _ word).stop at hstop
        omega
  · rintro (hnone | ⟨hrank, hnumber⟩) span hspan
    · rw [hnone] at hspan
      cases hspan
    · obtain ⟨word, hread⟩ := (source.isNumber_iff part).mp hnumber
      obtain ⟨other, hother, hinside⟩ := exists_number_of_span? hne h hpart hlo hhi hspan
      have hvalue := Base.getElem?_readParts hpart hread
      rw [hrank, hother, Option.some.injEq] at hvalue
      subst hvalue
      exact ⟨_, Base.rendering?_of_read target hpart hread, by rw [hrank]; exact hinside.start_le,
        by rw [hrank]; exact hinside.stop_le⟩

end

/-- The second of two numbers is read in spite of the part behind it, and
its last digit marks its own decimal form. -/
theorem marksOwnValue_second :
    let text : Text := "7 0xA zz".toList
    let shown := new.input .hex text
    (new.enter .hex text).1 = .converted ∧ shown.sheet.decimal = "7 10".toList
    ∧ text.parts[1]? = some ⟨2, "0xA".toList⟩
    ∧ (shown.point ⟨.hex, 4⟩).span? .decimal = some ⟨2, 4⟩
    ∧ shown.MarksOwnValue .hex .decimal text 1 4 := by
  intro text shown
  have h : (new.enter .hex text).1 = .converted := by rfl
  have hpart : text.parts[1]? = some ⟨2, "0xA".toList⟩ := by rfl
  refine ⟨h, by rfl, hpart, by rfl, ?_⟩
  exact (marksOwnValue_iff new .hex .decimal text (by decide) h 1 4 _ hpart (by decide)
    (by decide)).mpr (.inr (by decide))

/-- A pointer on the part `zz` marks the hexadecimal form of the number
behind it. The part itself has no value. -/
theorem not_marksOwnValue_skipped :
    let text : Text := "zz 5".toList
    let shown := new.input .decimal text
    (new.enter .decimal text).1 = .converted ∧ shown.sheet.hex = "0x05".toList
    ∧ text.parts[0]? = some ⟨0, "zz".toList⟩
    ∧ (shown.point ⟨.decimal, 0⟩).span? .hex = some ⟨0, 4⟩
    ∧ Base.decimal.rendering? .hex text 0 = none
    ∧ ¬ shown.MarksOwnValue .decimal .hex text 0 0 := by
  intro text shown
  have hspan : (shown.point ⟨.decimal, 0⟩).span? .hex = some ⟨0, 4⟩ := by rfl
  have hnone : Base.decimal.rendering? .hex text 0 = none := by rfl
  refine ⟨by rfl, by rfl, by rfl, hspan, hnone, ?_⟩
  intro hmarks
  obtain ⟨own, hown, -⟩ := hmarks _ hspan
  rw [hnone] at hown
  cases hown

end Session

end BaseConverter
