import BaseConverter.Proofs.Expression.Spacing
import BaseConverter.Proofs.Pointer.Spacing
import BaseConverter.Proofs.Session.PointedValue
import BaseConverter.Proofs.Session.Recalculated

/-!
# `BaseConverter.Proofs.Session.Spacing`: a calculated line with spaces in it

Spaces around the operators of a line change neither its value nor what the
other fields show. They stay in the field that they were typed into, and there
they take the line apart: a pointer finds the operands of a group only, and
counts them in it. `Session.marksAlike_iff_of_spacedOut` compares the line with
spaces and the line without, digit by digit. The digits that mark the same in
both are those of the first group, if there is an operator or the equals sign
in it.

* `Entry.ofText_spacedOut`: the two lines are the same expression and have the
  same value.
* `Entry.spacesIn_lineSheet`: their sheets differ in spaces only.
-/

set_option autoImplicit false

namespace BaseConverter

/-! ### The texts -/

/-- The equals sign belongs to no operator. -/
theorem IsOperatorText.ne_equals {op : Text} (h : IsOperatorText op) : ∀ c ∈ op, c ≠ '=' := by
  rintro c hc rfl
  have hop := h.isOperatorChar_of_mem '=' hc
  cases hop

namespace Text.SpacedOut

variable {text spaced : Text}

/-- The spaces behind the equals sign go with the result. -/
theorem withoutResult (h : SpacedOut text spaced) :
    SpacedOut text.withoutResult spaced.withoutResult := by
  induction h with
  | nil => exact .nil
  | @keep c text spaced _ ih =>
      by_cases hc : c = '='
      · subst hc
        exact .nil
      · have hcut : ∀ rest, Text.withoutResult (c :: rest) = c :: Text.withoutResult rest := by
          intro rest
          exact List.takeWhile_cons_of_pos (by simpa using hc)
        rw [hcut, hcut]
        exact .keep c ih
  | @widen op operator before after text spaced _ ih =>
      have hop : ∀ c ∈ op, decide (c ≠ '=') = true :=
        fun c hc => decide_eq_true (operator.ne_equals c hc)
      have hspaces : ∀ count, ∀ c ∈ List.replicate count ' ', decide (c ≠ '=') = true := by
        intro count c hc
        rw [List.eq_of_mem_replicate hc]
        rfl
      have hwiden := SpacedOut.widen operator before after ih
      rw [Text.withoutResult, Text.withoutResult] at hwiden ⊢
      rwa [List.takeWhile_append_of_pos hop, List.append_assoc,
        List.takeWhile_append_of_pos (hspaces before), List.takeWhile_append_of_pos hop,
        List.takeWhile_append_of_pos (hspaces after), ← List.append_assoc]

/-- The only white space in a text that was spaced out is spaces. -/
theorem eq_space_of_white (h : SpacedOut text spaced) (hwhite : ∀ c ∈ text, isWhite c = false) :
    ∀ c ∈ spaced, isWhite c = true → c = ' ' := by
  intro c hc hcwhite
  rcases h.mem_or_eq hc with hmem | heq
  · rw [hwhite c hmem] at hcwhite
    cases hcwhite
  · exact heq

/-- A number is not spaced out from anything but itself. -/
theorem trim_eq_of_read (h : SpacedOut text spaced) (hwhite : ∀ c ∈ text, isWhite c = false)
    {base : Base} {word : Word} (hread : base.read spaced = .ok word) : trim spaced = text := by
  have hcore := Base.not_white_of_mem_trim_of_read hread
  calc trim spaced
    _ = withoutSpaces (trim spaced) := (withoutSpaces_of_not_white hcore).symm
    _ = withoutSpaces spaced :=
        withoutSpaces_of_padded (padded_trim spaced) (h.eq_space_of_white hwhite)
    _ = withoutSpaces text := h.withoutSpaces_eq
    _ = text := withoutSpaces_of_not_white hwhite

/-- Dropping the white space at the end drops spaces. -/
theorem withoutSpaces_trimEnd (h : SpacedOut text spaced) (hwhite : ∀ c ∈ text, isWhite c = false) :
    withoutSpaces (trimEnd spaced) = text := by
  obtain ⟨after, hafter, hspaced⟩ := exists_eq_trimEnd_append spaced
  calc withoutSpaces (trimEnd spaced)
    _ = withoutSpaces spaced :=
        withoutSpaces_of_padded ⟨[], after, rfl, hafter, hspaced⟩ (h.eq_space_of_white hwhite)
    _ = withoutSpaces text := h.withoutSpaces_eq
    _ = text := withoutSpaces_of_not_white hwhite

end Text.SpacedOut

/-! ### The entries -/

namespace Entry

variable {base : Base} {text spaced : Text} {value : Word}

/-- With spaces around its operators a calculated line is the same expression,
and is calculated again. -/
theorem ofText_spacedOut (hwhite : ∀ c ∈ text, Text.isWhite c = false)
    (h : (ofText (Field.ofBase base) text).outcome = .calculated value)
    (hspaced : Text.SpacedOut text spaced) :
    ∃ e, Expression.Spelled base text.withoutResult e
      ∧ ofText (Field.ofBase base) text
        = calculated value (lineSheet base text.withoutResult e value)
      ∧ ofText (Field.ofBase base) spaced
        = calculated value (lineSheet base spaced.withoutResult e value) := by
  obtain ⟨hnumber, -⟩ := (outcome_eq_calculated_iff base text value).mp h
  obtain ⟨sheet, hentry⟩ := exists_eq_of_outcome h
  obtain ⟨e, hread, hvalue, rfl⟩ := exists_of_calculated hentry
  have hline : ∀ c ∈ text.withoutResult, Text.isWhite c = false :=
    fun c hc => hwhite c (Text.mem_of_mem_withoutResult hc)
  have htrim := Text.trim_eq_self_of_forall hline
  have hspelled : Expression.Spelled base text.withoutResult e := by
    have htrimmed := (Expression.read_eq_ok_iff base _ e).mp hread
    rwa [htrim] at htrimmed
  have hreadSpaced := Expression.read_of_spacedOut hspelled hspaced.withoutResult
  have hagain : (ofText (Field.ofBase base) spaced).outcome = .calculated value := by
    refine (outcome_eq_calculated_iff base spaced value).mpr ⟨?_, e, hreadSpaced, hvalue⟩
    intro word hword
    refine hnumber word ?_
    rw [Base.read_trim] at hword
    rw [htrim, ← hspaced.withoutResult.trim_eq_of_read hline hword, Base.read_trim]
    exact hword
  obtain ⟨sheet, hentrySpaced⟩ := exists_eq_of_outcome hagain
  obtain ⟨e', hread', -, rfl⟩ := exists_of_calculated hentrySpaced
  obtain rfl := Except.ok.inj (hreadSpaced.symm.trans hread')
  exact ⟨e, hspelled, hentry, hentrySpaced⟩

/-- The sheets of two lines of one expression differ in the field of the line
at most. -/
theorem get_lineSheet_of_ne (base : Base) (line other : Text) (e : Expression) (value : Word)
    {field : Field} (h : field ≠ Field.ofBase base) :
    (lineSheet base other e value).get field = (lineSheet base line e value).get field := by
  cases base <;> cases field <;> first | rfl | exact absurd rfl h

/-- The sheet of a line with spaces around its operators is the sheet of the
line, with spaces. -/
theorem spacesIn_lineSheet (base : Base) {line other : Text} (e : Expression) (value : Word)
    (hwhite : ∀ c ∈ line, Text.isWhite c = false) (hspaced : Text.SpacedOut line other) :
    Sheet.SpacesIn base (lineSheet base line e value) (lineSheet base other e value) where
  withoutSpaces := by
    have hresult : Text.withoutSpaces ('=' :: base.write value) = '=' :: base.write value :=
      Text.withoutSpaces_of_not_white
        (List.forall_mem_cons.mpr ⟨by decide, base.not_white_of_mem_write value⟩)
    rw [Expression.get_lineSheet_of_not_white hwhite, get_lineSheet, if_pos rfl, if_pos rfl,
      Text.withoutSpaces_append, hresult, hspaced.withoutSpaces_trimEnd hwhite]
  same := by
    intro field hfield
    exact get_lineSheet_of_ne base line other e value hfield

end Entry

namespace Session

/-- The digit at `position` in the field `source` of the session `plain` marks in the
other numeric fields what it marks in the session `wide`, where this field
has spaces. -/
def MarksAlike (plain wide : Session) (source : Base) (position : Nat) : Prop :=
  ∀ target, target ≠ source →
    (wide.point ⟨Field.ofBase source,
        (wide.sheet.get (Field.ofBase source)).placeOf position⟩).span? (Field.ofBase target)
      = (plain.point ⟨Field.ofBase source, position⟩).span? (Field.ofBase target)

/-- A text without white space is typed into a numeric field and calculated. With
spaces around its operators it is calculated too, with the same value, and the
sheets differ in these spaces only. A digit of the line marks the same in the
other numeric fields, with the spaces and without, exactly when it is in the
first group of the line with spaces and there is an operator or the equals
sign in this group. -/
theorem marksAlike_iff_of_spacedOut (session session' : Session) (source : Base)
    (text spaced : Text) (value : Word) (hwhite : ∀ c ∈ text, Text.isWhite c = false)
    (h : (session.enter (Field.ofBase source) text).1 = .calculated value)
    (hspaced : Text.SpacedOut text spaced) :
    (session'.enter (Field.ofBase source) spaced).1 = .calculated value
    ∧ Sheet.SpacesIn source (session.input (Field.ofBase source) text).sheet
        (session'.input (Field.ofBase source) spaced).sheet
    ∧ ∀ position, (session.input (Field.ofBase source) text).sheet.IsDigitAt source position →
        ((session.input (Field.ofBase source) text).MarksAlike
            (session'.input (Field.ofBase source) spaced) source position
          ↔ ((session'.input (Field.ofBase source) spaced).sheet.get
              (Field.ofBase source)).InFirstLine
            (((session'.input (Field.ofBase source) spaced).sheet.get
              (Field.ofBase source)).placeOf position)) := by
  obtain ⟨e, hspelled, hentry, hentrySpaced⟩ := Entry.ofText_spacedOut hwhite h hspaced
  have hline : ∀ c ∈ text.withoutResult, Text.isWhite c = false :=
    fun c hc => hwhite c (Text.mem_of_mem_withoutResult hc)
  have hplain := session.sheet_input_of_calculated hentry
  have hwide := session'.sheet_input_of_calculated hentrySpaced
  have hlines := Expression.showsLines_lineSheet hspelled hline value
  have hspaces := Entry.spacesIn_lineSheet source e value hline hspaced.withoutResult
  rw [← hplain] at hlines
  rw [← hplain, ← hwide] at hspaces
  refine ⟨congrArg Entry.outcome hentrySpaced, hspaces, fun position hdigit => ?_⟩
  constructor
  · intro hmarks
    by_contra hfirst
    obtain ⟨target, htarget, hne⟩ := Pointer.exists_numericSpan?_ne hlines hspaces hdigit hfirst
    refine hne ?_
    rw [← span?_point, ← span?_point]
    exact hmarks target htarget
  · intro hfirst target htarget
    rw [span?_point, span?_point]
    exact Pointer.numericSpan?_of_inFirstLine hlines hspaces hdigit hfirst htarget

/-- A space behind the second of three operands. This operand is still in the
first group, and the third is not. -/
theorem marksAlike_second_of_three :
    let text : Text := "1+2+3".toList
    let spaced : Text := "1+2 +3".toList
    let plain := new.input .hex text
    let wide := new.input .hex spaced
    (∀ c ∈ text, Text.isWhite c = false) ∧ (new.enter .hex text).1 = .calculated 6
    ∧ Text.SpacedOut text spaced
    ∧ (new.enter .hex spaced).1 = .calculated 6
    ∧ plain.sheet.IsDigitAt .hex 2 ∧ plain.MarksAlike wide .hex 2
    ∧ plain.sheet.IsDigitAt .hex 4 ∧ ¬ plain.MarksAlike wide .hex 4 := by
  intro text spaced plain wide
  have hall : text.all (fun c => !Text.isWhite c) = true := by decide
  have hwhite : ∀ c ∈ text, Text.isWhite c = false := by simpa using hall
  have h : (new.enter .hex text).1 = .calculated 6 := by rfl
  have hspaced : Text.SpacedOut text spaced :=
    .keep '1' (.keep '+' (.keep '2' (.widen (.operator .add) 1 0 (.keep '3' .nil))))
  obtain ⟨hagain, -, hmarks⟩ := marksAlike_iff_of_spacedOut new new .hex text spaced 6 hwhite h hspaced
  have hpart : (wide.sheet.get .hex).parts[0]? = some ⟨0, "1+2".toList⟩ := by rfl
  have hsecond : plain.sheet.IsDigitAt .hex 2 :=
    ⟨1, ⟨2, "2".toList⟩, by rfl, by decide, by decide⟩
  have hthird : plain.sheet.IsDigitAt .hex 4 :=
    ⟨2, ⟨4, "3".toList⟩, by rfl, by decide, by decide⟩
  refine ⟨hwhite, h, hspaced, hagain, hsecond, ?_, hthird, ?_⟩
  · exact (hmarks 2 hsecond).mpr ⟨_, hpart, by decide, by decide, by decide⟩
  · intro halike
    obtain ⟨part, hfirst, -, hstop, -⟩ := (hmarks 4 hthird).mp halike
    obtain rfl := Option.some.inj (hpart.symm.trans hfirst)
    exact absurd hstop (by decide)

/-- The first operand of a sum marks itself in decimal. With spaces around the
operator it marks all of the decimal line. -/
theorem not_marksAlike_spaces :
    let text : Text := "1+2".toList
    let spaced : Text := "1 + 2".toList
    let plain := new.input .hex text
    let wide := new.input .hex spaced
    (∀ c ∈ text, Text.isWhite c = false) ∧ (new.enter .hex text).1 = .calculated 3
    ∧ Text.SpacedOut text spaced ∧ plain.sheet.IsDigitAt .hex 0
    ∧ (wide.sheet.get .hex).placeOf 0 = 0
    ∧ (plain.point ⟨.hex, 0⟩).span? .decimal = some ⟨0, 1⟩
    ∧ (wide.point ⟨.hex, 0⟩).span? .decimal = some ⟨0, 5⟩
    ∧ ¬ plain.MarksAlike wide .hex 0 := by
  intro text spaced plain wide
  have hall : text.all (fun c => !Text.isWhite c) = true := by decide
  have hspaced : Text.SpacedOut text spaced :=
    .keep '1' (.widen (.operator .add) 1 1 (.keep '2' .nil))
  have hplain : (plain.point ⟨.hex, 0⟩).span? .decimal = some ⟨0, 1⟩ := by rfl
  have hwide : (wide.point ⟨.hex, 0⟩).span? .decimal = some ⟨0, 5⟩ := by rfl
  refine ⟨by simpa using hall, by rfl, hspaced,
    ⟨0, ⟨0, "1".toList⟩, by rfl, by decide, by decide⟩, by rfl, hplain, hwide, ?_⟩
  intro halike
  have hsame : (wide.point ⟨.hex, 0⟩).span? .decimal = (plain.point ⟨.hex, 0⟩).span? .decimal :=
    halike .decimal (by decide)
  rw [hplain, hwide] at hsame
  exact absurd hsame (by decide)

end Session

end BaseConverter
