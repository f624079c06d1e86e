import BaseConverter.Proofs.Expression.Complete
import BaseConverter.Proofs.Expression.Layout
import BaseConverter.Proofs.Pointer.Line
import BaseConverter.Session

/-!
# `BaseConverter.Proofs.Session.Calculated`: the operands of a calculated line

A line that was calculated is shown in every base with its result behind
it: as it was typed in the field that it was typed into, and rendered in
the others. The fields then have the same operands in the same order,
followed by the result (`Expression.operandPieces_lineSheet`). The line and
the renderings are cut by two different readers; both see the operands that
`Expression.laidOut` has put there.

So a calculated sheet is a sheet of lines with as many runs each, and
pointers over it mark operands at the same place.

* `Entry.exists_of_calculated`: a calculated entry comes from an
  expression with a value.
* `ShowsOperands` says what the numeric fields show, and
  `Session.showsOperands_of_calculated` is the main statement.
-/

set_option autoImplicit false

namespace BaseConverter

/-! ### The entry -/

namespace Entry

/-- Values are never a calculation. -/
theorem ofValues_ne_calculated (field : Field) (text : Text) (value : Word) (sheet : Sheet) :
    ofValues field text ≠ calculated value sheet := by
  unfold ofValues
  split <;> exact nofun

/-- Only a calculated entry is answered with a value. -/
theorem exists_eq_of_outcome {entry : Entry} {value : Word}
    (h : entry.outcome = .calculated value) : ∃ sheet, entry = calculated value sheet := by
  cases entry with
  | calculated word sheet =>
      cases h
      exact ⟨sheet, rfl⟩
  | converted sheet => cases h
  | unparsed => cases h
  | pending => cases h
  | failed error => cases h

/-- A calculated line is an expression with a value, and its sheet is the
one of this expression. -/
theorem exists_of_calculated {base : Base} {text : Text} {value : Word} {sheet : Sheet}
    (h : ofText (Field.ofBase base) text = calculated value sheet) :
    ∃ e, Expression.read base text.withoutResult = .ok e ∧ e.value = .ok value
      ∧ sheet = lineSheet base text.withoutResult e value := by
  rw [ofText, Field.base?_ofBase] at h
  simp only at h
  split at h
  · unfold ofLine at h
    simp only at h
    split at h
    · cases h
    · rename_i e hcomplete
      split at h
      · rename_i word hvalue
        cases h
        exact ⟨e, Expression.complete?_eq_some_iff.mp hcomplete, hvalue, rfl⟩
      · cases h
  · exact absurd h (ofValues_ne_calculated _ _ _ _)

/-- A field of a calculated sheet shows its line, an equals sign and the
result. -/
theorem get_lineSheet (source base : Base) (line : Text) (e : Expression) (value : Word) :
    (lineSheet source line e value).get (Field.ofBase base)
      = Text.trimEnd (if base = source then line else e.render base.write)
        ++ '=' :: base.write value := by
  cases source <;> cases base <;> rfl

end Entry

/-! ### The texts of the fields -/

/-- An operand in the field of a base: as it was typed in the field `source`,
and written elsewhere. -/
def Operand.spelling (source base : Base) (operand : Operand) : Text :=
  if base = source then operand.text else base.write operand.value

/-- The run that an operand is in the field of a base. A minus in front of
a written operand separates operands and does not belong to it. -/
def Operand.shown (source base : Base) (operand : Operand) : Text :=
  if base = source then operand.text else Text.withoutMinus (base.write operand.value)

namespace Expression

variable {source : Base} {line : Text} {e : Expression}

theorem showsRun_spelling (h : Spelled source line e) (base : Base) :
    ∀ operand ∈ e.operands,
      (operand.spelling source base).ShowsRun (operand.shown source base) := by
  intro operand hmem
  obtain ⟨text, hspelled⟩ := h.exists_spelled operand hmem
  unfold Operand.spelling Operand.shown
  split
  · exact hspelled.showsRun
  · exact base.showsRun_write operand.value

/-- Without white space in the line that was typed there is none in front
of the equals sign in any field. -/
theorem not_white_of_mem_shownLine (hwhite : ∀ c ∈ line, Text.isWhite c = false) (base : Base) :
    ∀ c ∈ (if base = source then line else e.render base.write), Text.isWhite c = false := by
  split
  · exact hwhite
  · exact e.not_white_of_mem_render base.not_white_of_mem_write

/-- Then nothing is dropped at the end of a line. -/
theorem get_lineSheet_of_not_white (hwhite : ∀ c ∈ line, Text.isWhite c = false) (value : Word)
    (base : Base) : (Entry.lineSheet source line e value).get (Field.ofBase base)
      = (if base = source then line else e.render base.write) ++ '=' :: base.write value := by
  rw [Entry.get_lineSheet, Text.trimEnd_eq_self]
  intro c hc
  exact not_white_of_mem_shownLine hwhite base c (List.mem_of_mem_getLast? hc)

/-- Every field shows the line laid out with the operands of its base. -/
theorem get_lineSheet_eq_laidOut (h : Spelled source line e)
    (hwhite : ∀ c ∈ line, Text.isWhite c = false) (value : Word) (base : Base) :
    (Entry.lineSheet source line e value).get (Field.ofBase base)
      = e.laidOut (Operand.spelling source base) ++ '=' :: base.write value := by
  have hlaidOut : (if base = source then line else e.render base.write)
      = e.laidOut (Operand.spelling source base) := by
    unfold Operand.spelling
    split
    · exact h.eq_laidOut hwhite
    · exact e.render_eq_laidOut base.write
  rw [get_lineSheet_of_not_white hwhite, hlaidOut]

/-- The runs of a field are the operands in order, and the result. -/
theorem operandPieces_lineSheet (h : Spelled source line e)
    (hwhite : ∀ c ∈ line, Text.isWhite c = false) (value : Word) (base : Base) :
    ((Entry.lineSheet source line e value).get (Field.ofBase base)).operandPieces
      = e.operands.map (Operand.shown source base)
        ++ [Text.withoutMinus (base.write value)] := by
  rw [get_lineSheet_eq_laidOut h hwhite]
  exact e.operandPieces_laidOut (showsRun_spelling h base) (base.showsRun_write value)

/-- Every field shows a line, with a run for each operand and one for the
result. -/
theorem showsLines_lineSheet (h : Spelled source line e)
    (hwhite : ∀ c ∈ line, Text.isWhite c = false) (value : Word) :
    (Entry.lineSheet source line e value).ShowsLines (e.operands.length + 1) where
  isLine := by
    intro base
    rw [get_lineSheet_of_not_white hwhite]
    constructor
    · intro hspace
      rcases List.mem_append.mp hspace with hmem | hmem
      · exact absurd (not_white_of_mem_shownLine hwhite base ' ' hmem) (by decide)
      · rcases List.mem_cons.mp hmem with heq | hmem
        · cases heq
        · exact base.space_not_mem_write value hmem
    · exact ⟨'=', List.mem_append_right _ List.mem_cons_self, rfl⟩
  length_runs := by
    intro base
    have hpieces := congrArg List.length (operandPieces_lineSheet h hwhite value base)
    rw [Text.operandPieces, Text.pieces, List.length_map, List.length_append, List.length_map] at hpieces
    exact hpieces

end Expression

/-! ### The sheet of a calculated line -/

/-- What the numeric fields of a sheet show when the line of `e`, typed in
the base `source`, was calculated. -/
structure ShowsOperands (sheet : Sheet) (source : Base) (e : Expression) (value : Word) : Prop where
  /-- The text of a field is a single group. -/
  oneGroup : ∀ base, (sheet.get (Field.ofBase base)).groups
    = [Group.line (sheet.get (Field.ofBase base))]
  /-- The runs are the longest ones without an operator or an equals
  sign. -/
  maximal : ∀ base run, run ∈ (sheet.get (Field.ofBase base)).operandRuns
    ↔ Text.MaximalRun (fun c => !separatesOperands c) 0 (sheet.get (Field.ofBase base)) run
  /-- They are listed from left to right. -/
  ordered : ∀ base, (sheet.get (Field.ofBase base)).operandRuns.Pairwise fun first second =>
    first.stop < second.start
  /-- There is one more than there are operands. -/
  count : ∀ base, (sheet.get (Field.ofBase base)).operandRuns.length = e.operands.length + 1
  /-- They are the operands in order, and the result. -/
  texts : ∀ base, (sheet.get (Field.ofBase base)).operandRuns.map Text.Stretch.text
    = e.operands.map (Operand.shown source base) ++ [Text.withoutMinus (base.write value)]
  /-- Pointers over them mark what is at the same place. -/
  marks : sheet.MarksRuns

namespace Session

/-- A session shows the sheet of what was calculated, whatever it showed
before. -/
theorem sheet_input_of_calculated (session : Session) {field : Field} {text : Text} {value : Word}
    {sheet : Sheet} (h : Entry.ofText field text = .calculated value sheet) :
    (session.input field text).sheet = sheet := by
  simp only [input, enter, h, Entry.sheet?, Option.getD_some]

/-- A text without white space is typed into a numeric field, whatever was
shown before, and is calculated. Then it is a line with a value, and every
numeric field shows the operands of this line and the value, at the same
places. -/
theorem showsOperands_of_calculated (session : Session) (source : Base) (text : Text)
    (value : Word) (hwhite : ∀ c ∈ text, Text.isWhite c = false)
    (h : (session.enter (Field.ofBase source) text).1 = .calculated value) :
    ∃ e, Expression.read source text.withoutResult = .ok e ∧ e.value = .ok value
      ∧ ShowsOperands (session.input (Field.ofBase source) text).sheet source e value := by
  obtain ⟨sheet, hentry⟩ := Entry.exists_eq_of_outcome h
  obtain ⟨e, hread, hvalue, rfl⟩ := Entry.exists_of_calculated hentry
  have hline : ∀ c ∈ text.withoutResult, Text.isWhite c = false := by
    intro c hc
    exact hwhite c ((List.takeWhile_sublist _).mem hc)
  have hspelled : Expression.Spelled source text.withoutResult e := by
    have htrimmed := (Expression.read_eq_ok_iff source _ e).mp hread
    rwa [Text.trim_eq_self_of_forall hline] at htrimmed
  have hsheet : (session.input (Field.ofBase source) text).sheet
      = Entry.lineSheet source text.withoutResult e value := by
    simp only [input, enter, hentry, Entry.sheet?, Option.getD_some]
  have hlines := Expression.showsLines_lineSheet hspelled hline value
  rw [hsheet]
  exact ⟨e, hread, hvalue, fun base => (hlines.isLine base).groups_eq,
    fun base run => Text.mem_stretches_iff _ 0 _ run,
    fun base => Text.pairwise_stretches _ 0 _, hlines.length_runs,
    Expression.operandPieces_lineSheet hspelled hline value, hlines.marksRuns⟩

/-- Minus one as an operand has a minus in decimal, behind the one of the
operator. The runs are still two operands and a result. -/
theorem showsOperands_of_calculated_minus_one :
    let text : Text := "2*FFFFFFFFFFFFFFFF".toList
    let sheet := (new.input .hex text).sheet
    (new.enter .hex text).1 = .calculated (-2)
    ∧ sheet.decimal = "2*-1=-2".toList
    ∧ ∃ e, Expression.read .hex text.withoutResult = .ok e ∧ e.value = .ok (-2)
      ∧ ShowsOperands sheet .hex e (-2) := by
  intro text sheet
  have h : (new.enter .hex text).1 = .calculated (-2) := by rfl
  have hall : text.all (fun c => !Text.isWhite c) = true := by decide
  have hwhite : ∀ c ∈ text, Text.isWhite c = false := by simpa using hall
  exact ⟨h, by rfl, showsOperands_of_calculated new .hex text (-2) hwhite h⟩

end Session

end BaseConverter
