import BaseConverter.Proofs.Expression.Rendering
import BaseConverter.Proofs.Sheet.Filling
import BaseConverter.Session

/-!
# `BaseConverter.Proofs.Session.Converted`: typing back what a converted session shows

The values that were read from one field are shown in the others, each
written in the base of its field, with single spaces between them. This
module says when such a text, typed back into its field, is taken for the
same values.

The reader of values always gets the same values back
(`Sheet.fill?_spaced`). What can go wrong happens before it is asked: the
minus of a negative decimal number is also an operator, and a text with an
operator that is no single number is a line to calculate
(`Entry.isLine_spaced_write_iff`). So two values in decimal, one of them
negative, are calculated, as `1 -1` is.

* `Entry.eq_of_converted`: what a converted entry shows.
* `Session.typesBack_iff` is the main statement.
-/

set_option autoImplicit false

namespace BaseConverter

/-! ### Converted entries -/

namespace Entry

/-- A line is never converted. -/
theorem outcome_ofLine_ne (base : Base) (text : Text) :
    (ofLine base text).outcome ≠ .converted := by
  unfold ofLine
  simp only
  split
  · exact nofun
  · split <;> exact nofun

/-- What is not a line is a list of values. -/
theorem ofText_of_not_isLine {base : Base} {text : Text} (h : isLine base text = false) :
    ofText (Field.ofBase base) text = ofValues (Field.ofBase base) text := by
  rw [ofText, Field.base?_ofBase]
  simp only [h, Bool.false_eq_true, if_false]

theorem isLine_of_converted {base : Base} {text : Text}
    (h : (ofText (Field.ofBase base) text).outcome = .converted) : isLine base text = false := by
  rw [Bool.eq_false_iff]
  intro hline
  rw [ofText, Field.base?_ofBase] at h
  simp only [hline, if_true] at h
  exact outcome_ofLine_ne base text h

/-- A converted entry shows the values of its text in the other fields. -/
theorem eq_of_converted {base : Base} {text : Text}
    (h : (ofText (Field.ofBase base) text).outcome = .converted) :
    ofText (Field.ofBase base) text
      = converted ((Sheet.ofWords ((Field.ofBase base).values text)).set (Field.ofBase base)
          text) := by
  have hvalues := ofText_of_not_isLine (isLine_of_converted h)
  rw [hvalues] at h ⊢
  unfold ofValues at h ⊢
  cases hfill : Sheet.fill? (Field.ofBase base) text with
  | none =>
      rw [hfill] at h
      cases h
  | some sheet => rw [Sheet.eq_of_fill? hfill]

end Entry

/-! ### Shown values as lines -/

/-- Nothing in the written form of a word is an equals sign. -/
theorem Base.equals_not_mem_write (base : Base) (word : Word) : '=' ∉ base.write word := by
  have hlead : (base.lead word).all (fun c => c != '=') = true := by
    cases base with
    | decimal =>
        rw [lead]
        split <;> decide
    | hex => rfl
    | binary => rfl
  intro hmem
  exact absurd (of_mem_write hlead (by decide) '=' hmem) (by decide)

namespace Text

/-- Written words, joined by spaces, are trimmed already. -/
theorem trim_spaced_write (base : Base) (words : List Word) :
    trim (spaced (words.map base.write)) = spaced (words.map base.write) := by
  refine trim_eq_self (trimmed_spaced fun text htext => ?_)
  obtain ⟨word, -, rfl⟩ := List.mem_map.mp htext
  exact ⟨base.write_ne_nil word, base.not_white_of_mem_write word⟩

/-- There is no result in them. -/
theorem withoutResult_spaced_write (base : Base) (words : List Word) :
    withoutResult (spaced (words.map base.write)) = spaced (words.map base.write) := by
  refine List.takeWhile_eq_self_iff.mpr fun c hc => ?_
  rw [decide_eq_true_eq]
  rintro rfl
  rcases eq_or_exists_of_mem_spaced hc with hspace | ⟨text, htext, hmem⟩
  · cases hspace
  · obtain ⟨word, -, rfl⟩ := List.mem_map.mp htext
    exact base.equals_not_mem_write word hmem

/-- Among them an operator is the minus of a negative decimal number. -/
theorem hasOperator_spaced_write_iff (base : Base) (words : List Word) :
    (spaced (words.map base.write)).hasOperator = true
      ↔ base = .decimal ∧ ∃ word ∈ words, word.toInt < 0 := by
  constructor
  · intro h
    obtain ⟨c, hc, hop⟩ := List.any_eq_true.mp h
    rcases eq_or_exists_of_mem_spaced hc with rfl | ⟨text, htext, hmem⟩
    · cases hop
    · obtain ⟨word, hword, rfl⟩ := List.mem_map.mp htext
      by_contra hnone
      have hsign : base ≠ .decimal ∨ 0 ≤ word.toInt := by
        rw [← Int.not_lt]
        exact not_and_or.mp fun hneg => hnone ⟨hneg.1, word, hword, hneg.2⟩
      have hseparates := Base.not_separates_of_mem_write hsign c hmem
      rw [separatesOperands, hop] at hseparates
      cases hseparates
  · rintro ⟨rfl, word, hword, hneg⟩
    obtain ⟨c, hc, hop⟩ := Base.exists_operatorChar_write hneg
    exact hasOperator_of_mem (mem_spaced_of_mem hc (List.mem_map_of_mem hword)) hop

/-- Two of them with a space between are no single number. -/
theorem read_spaced_write_isNone_iff (base : Base) (words : List Word) (hne : words ≠ []) :
    (base.read (spaced (words.map base.write))).toOption.isNone = true ↔ 2 ≤ words.length := by
  match words with
  | [] => contradiction
  | [word] =>
      rw [List.map_singleton, spaced, List.intercalate_singleton, base.read_write]
      simp [Except.toOption]
  | first :: second :: others =>
      have hspace : ' ' ∈ spaced ((first :: second :: others).map base.write) := by
        rw [List.map_cons, List.map_cons, spaced_cons_cons]
        exact List.mem_append_right _ List.mem_cons_self
      -- The space would be white space inside of the number.
      have hfault : ∀ word, base.read (spaced ((first :: second :: others).map base.write))
          ≠ .ok word := by
        intro word hread
        have hwhite := Base.not_white_of_mem_trim_of_read hread
        rw [trim_spaced_write] at hwhite
        exact absurd (hwhite ' ' hspace) (by decide)
      cases hread : base.read (spaced ((first :: second :: others).map base.write)) with
      | ok word => exact absurd hread (hfault word)
      | error error => simp [Except.toOption]

end Text

/-- The shown values of a field are taken for a line just when there are at
least two of them and one has a minus. -/
theorem Entry.isLine_spaced_write_iff (base : Base) (words : List Word) :
    isLine base (Text.spaced (words.map base.write)) = true
      ↔ base = .decimal ∧ 2 ≤ words.length ∧ ∃ word ∈ words, word.toInt < 0 := by
  rw [isLine, Text.withoutResult_spaced_write, Text.trim_spaced_write, Bool.and_eq_true,
    Text.hasOperator_spaced_write_iff]
  constructor
  · rintro ⟨⟨rfl, hneg⟩, hnone⟩
    have hne : words ≠ [] := List.ne_nil_of_mem hneg.choose_spec.1
    exact ⟨rfl, (Text.read_spaced_write_isNone_iff .decimal words hne).mp hnone, hneg⟩
  · rintro ⟨rfl, hlength, hneg⟩
    have hne : words ≠ [] := List.ne_nil_of_mem hneg.choose_spec.1
    exact ⟨⟨rfl, hneg⟩, (Text.read_spaced_write_isNone_iff .decimal words hne).mpr hlength⟩

/-! ### A second input -/

namespace Session

/-- The text that a session shows in the field `target` is typed into this
field again. It is converted, and every field other than `source` shows what
it showed. -/
def TypesBack (shown : Session) (source target : Base) : Prop :=
  let typed := shown.enter (Field.ofBase target) (shown.sheet.get (Field.ofBase target))
  typed.1 = .converted
  ∧ ∀ field, field ≠ Field.ofBase source → typed.2.sheet.get field = shown.sheet.get field

/-- After a converted input the other fields show the values that were
read. -/
theorem sheet_input_of_converted (session : Session) {source : Base} {text : Text}
    (h : (session.enter (Field.ofBase source) text).1 = .converted) :
    (session.input (Field.ofBase source) text).sheet
      = (Sheet.ofWords ((Field.ofBase source).values text)).set (Field.ofBase source) text := by
  simp only [input, enter, Entry.eq_of_converted h, Entry.sheet?, Option.getD_some]

/-- Shown values that are not taken for a line convert to themselves. -/
theorem enter_spaced_write (session : Session) {base : Base} {words : List Word}
    (h : Entry.isLine base (Text.spaced (words.map base.write)) = false) :
    (session.enter (Field.ofBase base) (Text.spaced (words.map base.write))).1 = .converted
    ∧ (session.enter (Field.ofBase base) (Text.spaced (words.map base.write))).2.sheet
      = Sheet.ofWords words := by
  have hentry : Entry.ofText (Field.ofBase base) (Text.spaced (words.map base.write))
      = .converted (Sheet.ofWords words) := by
    rw [Entry.ofText_of_not_isLine h, Entry.ofValues, Sheet.fill?_spaced]
  simp only [enter, hentry, Entry.outcome, Entry.sheet?, Option.getD_some, and_self]

/-- A text was typed into a numeric field and converted. What another
numeric field shows then can be typed back, unless it shows at least two
decimal numbers of which one is negative. -/
theorem typesBack_iff (session : Session) (source target : Base) (text : Text)
    (hne : target ≠ source)
    (h : (session.enter (Field.ofBase source) text).1 = .converted) :
    (session.input (Field.ofBase source) text).TypesBack source target
      ↔ (target = .decimal → ((Field.ofBase source).values text).length ≤ 1
          ∨ ∀ word ∈ (Field.ofBase source).values text, 0 ≤ word.toInt) := by
  have hsheet := session.sheet_input_of_converted h
  have hfield := Field.ofBase_ne hne
  generalize (Field.ofBase source).values text = words at hsheet ⊢
  have hshown : (session.input (Field.ofBase source) text).sheet.get (Field.ofBase target)
      = Text.spaced (words.map target.write) := by
    rw [hsheet, Sheet.get_set_of_ne _ _ hfield, Sheet.get_ofWords]
  -- Everything hangs on whether the shown text is taken for a line.
  have hline : (session.input (Field.ofBase source) text).TypesBack source target
      ↔ Entry.isLine target (Text.spaced (words.map target.write)) = false := by
    rw [TypesBack, hshown]
    constructor
    · exact fun hback => Entry.isLine_of_converted hback.1
    · intro hvalues
      obtain ⟨houtcome, hagain⟩ := enter_spaced_write _ hvalues
      refine ⟨houtcome, fun field hother => ?_⟩
      rw [hagain, hsheet, Sheet.get_set_of_ne _ _ hother]
  rw [hline, Bool.eq_false_iff, Ne, Entry.isLine_spaced_write_iff]
  simp only [not_and, not_exists, Int.not_lt]
  constructor
  · intro hplain hdecimal
    by_cases hlength : 2 ≤ words.length
    · exact .inr (hplain hdecimal hlength)
    · exact .inl (by omega)
  · intro hplain hdecimal hlength
    exact (hplain hdecimal).resolve_left (by omega)

/-- A single negative number can be typed back: the text `-1` is a number
as it stands. -/
theorem typesBack_single_negative :
    let text : Text := "FFFFFFFFFFFFFFFF".toList
    let shown := new.input .hex text
    Base.decimal ≠ .hex ∧ (new.enter .hex text).1 = .converted
    ∧ shown.sheet.decimal = "-1".toList ∧ shown.TypesBack .hex .decimal := by
  intro text shown
  have hne : Base.decimal ≠ .hex := by decide
  have h : (new.enter .hex text).1 = .converted := by rfl
  refine ⟨hne, h, by rfl, ?_⟩
  exact (typesBack_iff new .hex .decimal text hne h).mpr fun _ => .inl (by decide)

/-- One and minus one are shown as `1 -1` in decimal. Typed back, this is a
difference. -/
theorem not_typesBack_difference :
    let text : Text := "1 FFFFFFFFFFFFFFFF".toList
    let shown := new.input .hex text
    Text.allWhite text = false ∧ (new.enter .hex text).1 = .converted
    ∧ shown.sheet.decimal = "1 -1".toList
    ∧ (shown.enter .decimal "1 -1".toList).1 = .calculated 0
    ∧ ¬ shown.TypesBack .hex .decimal := by
  intro text shown
  have hcalculated : (shown.enter .decimal "1 -1".toList).1 = .calculated 0 := by rfl
  refine ⟨by decide, by rfl, by rfl, hcalculated, ?_⟩
  intro hback
  cases hcalculated.symm.trans hback.1

end Session

end BaseConverter
