import BaseConverter.Proofs.Session.Recalculated

/-!
# `BaseConverter.Proofs.Session.Result`: the result behind a line

A calculated line is shown with an equals sign and its result behind it, and a
person goes on typing in this text. So what stands behind the first equals
sign must not count: it is an old result, whatever has become of it.

`Entry.ofText_of_withoutResult_eq` is the reason that it does not. Every
question about a line is asked of the text in front of the equals sign, so two
texts that begin with the same line do the same. A list of values is read with
its equals sign, and `Entry.isLine_of_isOfLine` tells it from a line by its
outcome.

The other half is about what is shown after a calculation. It has one equals
sign, and typed into the same field again it is the same line without the white
space at its end, which was dropped already (`Entry.lineSheet_trimEnd`).

* `Session.ignoresResult_and_showsResult` is the main statement.
-/

set_option autoImplicit false

namespace BaseConverter

/-- Whether an outcome is the one of a line to calculate. -/
def Outcome.isOfLine : Outcome → Bool
  | calculated _ | pending | failed _ => true
  | converted | unparsed => false

/-- The white space at the end is dropped only once. -/
theorem Text.trimEnd_trimEnd (text : Text) : trimEnd (trimEnd text) = trimEnd text :=
  trimEnd_eq_self (not_white_of_mem_getLast?_trimEnd text)

/-! ### Lines and what stands behind them -/

namespace Entry

variable {base : Base} {line text : Text}

theorem ofText_of_isLine (h : isLine base text = true) :
    ofText (Field.ofBase base) text = ofLine base text := by
  rw [ofText, Field.base?_ofBase]
  simp only [h, if_true]

/-- Values have other outcomes than a line. -/
theorem isLine_of_isOfLine (h : (ofText (Field.ofBase base) text).outcome.isOfLine = true) :
    isLine base text = true := by
  by_contra hline
  rw [Bool.not_eq_true] at hline
  rw [ofText_of_not_isLine hline, ofValues] at h
  split at h <;> cases h

/-- Texts that begin with the same line do the same. -/
theorem ofText_of_withoutResult_eq (hcut : text.withoutResult = line.withoutResult)
    (hline : isLine base line = true) :
    ofText (Field.ofBase base) text = ofText (Field.ofBase base) line := by
  have htext : isLine base text = true := by
    rw [isLine, hcut]
    exact hline
  rw [ofText_of_isLine htext, ofText_of_isLine hline, ofLine, ofLine, hcut]

/-- A line is shown without the white space at its end. -/
theorem lineSheet_trimEnd (base : Base) (line : Text) (e : Expression) (value : Word) :
    lineSheet base (Text.trimEnd line) e value = lineSheet base line e value := by
  cases base <;> simp only [lineSheet, Field.ofBase, Sheet.set, Sheet.withResult,
    Text.trimEnd_trimEnd]

/-- The line that is shown in its own field does the same when it is typed
again. -/
theorem ofText_get_of_calculated {value : Word} {sheet : Sheet}
    (h : ofText (Field.ofBase base) text = calculated value sheet) :
    ofText (Field.ofBase base) (sheet.get (Field.ofBase base)) = calculated value sheet := by
  obtain ⟨hnumber, -⟩ := (outcome_eq_calculated_iff base text value).mp (congrArg outcome h)
  obtain ⟨e, hread, hvalue, rfl⟩ := exists_of_calculated h
  have hcut : '=' ∉ Text.trimEnd text.withoutResult := fun hmem =>
    Text.equals_not_mem_withoutResult text (Text.mem_of_mem_trimEnd hmem)
  rw [get_lineSheet, if_pos rfl]
  generalize hshown : Text.trimEnd text.withoutResult ++ '=' :: base.write value = shown
  have hline : shown.withoutResult = Text.trimEnd text.withoutResult := by
    rw [← hshown, Text.withoutResult_append_cons hcut]
  -- The shown line is the typed one without the white space at its end.
  have hagain : (ofText (Field.ofBase base) shown).outcome = .calculated value := by
    rw [outcome_eq_calculated_iff, hline, Text.trim_trimEnd, Expression.read_trimEnd]
    exact ⟨hnumber, e, hread, hvalue⟩
  obtain ⟨sheet, hentry⟩ := exists_eq_of_outcome hagain
  obtain ⟨e', hread', -, rfl⟩ := exists_of_calculated hentry
  rw [hline, Expression.read_trimEnd] at hread'
  obtain rfl := Except.ok.inj (hread.symm.trans hread')
  rw [hentry, hline, lineSheet_trimEnd]

end Entry

/-! ### Sessions -/

namespace Session

/-- An equals sign behind a text, with anything behind it, makes no
difference to what the text does in the field of the base `base`: neither to
the outcome nor, when this is a value, to the fields. -/
def IgnoresResult (base : Base) (text : Text) : Prop :=
  ∀ (session session' : Session) (suffix : Text),
    (session'.enter (Field.ofBase base) (text ++ '=' :: suffix)).1
      = (session.enter (Field.ofBase base) text).1
    ∧ ∀ value, (session.enter (Field.ofBase base) text).1 = .calculated value →
        (session'.input (Field.ofBase base) (text ++ '=' :: suffix)).sheet
          = (session.input (Field.ofBase base) text).sheet

/-- What a session shows when a line, typed into the field of the base
`source`, was calculated. -/
structure ShowsResult (shown : Session) (source : Base) (value : Word) : Prop where
  /-- Every numeric field has one equals sign. -/
  count_equals : ∀ target, (shown.sheet.get (Field.ofBase target)).count '=' = 1
  /-- Behind it stands the value in the base of the field. -/
  exists_line : ∀ target, ∃ line,
    shown.sheet.get (Field.ofBase target) = line ++ '=' :: target.write value
  /-- The text in the field of the line is calculated again. -/
  recalculates : shown.Recalculates source value
  /-- This changes no field. -/
  sheet_again : (shown.input (Field.ofBase source)
    (shown.sheet.get (Field.ofBase source))).sheet = shown.sheet

/-- There is one equals sign in the sheet of a line, in each numeric field. -/
theorem count_equals_lineSheet (source target : Base) (text : Text) (e : Expression)
    (value : Word) : ((Entry.lineSheet source text.withoutResult e value).get
      (Field.ofBase target)).count '=' = 1 := by
  have hline : '=' ∉ (if target = source then text.withoutResult else e.render target.write) := by
    split
    · exact Text.equals_not_mem_withoutResult text
    · exact e.equals_not_mem_render target
  rw [Entry.get_lineSheet, List.count_append, List.count_cons_self,
    List.count_eq_zero.mpr (target.equals_not_mem_write value),
    List.count_eq_zero.mpr fun hmem => hline (Text.mem_of_mem_trimEnd hmem)]

/-- A text is typed into a numeric field. When it is a line to calculate,
finished or not, it does the same with an equals sign and anything behind it.
When it is calculated, with or without an old result behind the line, every
numeric field shows one equals sign with the new result behind it, and the
line can be typed again in its field without a change. -/
theorem ignoresResult_and_showsResult (base : Base) (text : Text) :
    ('=' ∉ text → (new.enter (Field.ofBase base) text).1.isOfLine = true →
      IgnoresResult base text)
    ∧ ∀ (session : Session) (value : Word),
        (session.enter (Field.ofBase base) text).1 = .calculated value →
        (session.input (Field.ofBase base) text).ShowsResult base value := by
  constructor
  · intro hequals hkind session session' suffix
    have hline := Entry.isLine_of_isOfLine hkind
    have hcut : Text.withoutResult (text ++ '=' :: suffix) = Text.withoutResult text := by
      rw [Text.withoutResult_append_cons hequals, Text.withoutResult_eq_self hequals]
    have hentry := Entry.ofText_of_withoutResult_eq hcut hline
    refine ⟨congrArg Entry.outcome hentry, fun value h => ?_⟩
    obtain ⟨sheet, hcalculated⟩ := Entry.exists_eq_of_outcome h
    rw [session.sheet_input_of_calculated hcalculated,
      session'.sheet_input_of_calculated (hentry.trans hcalculated)]
  · intro session value h
    obtain ⟨sheet, hentry⟩ := Entry.exists_eq_of_outcome h
    have hsheet := session.sheet_input_of_calculated hentry
    have hagain := Entry.ofText_get_of_calculated hentry
    rw [← hsheet] at hagain
    obtain ⟨e, -, -, hline⟩ := Entry.exists_of_calculated hentry
    refine ⟨fun target => ?_, fun target => ?_, congrArg Entry.outcome hagain, ?_⟩
    · rw [hsheet, hline, count_equals_lineSheet]
    · rw [hsheet, hline, Entry.get_lineSheet]
      exact ⟨_, rfl⟩
    · exact sheet_input_of_calculated _ hagain

/-- A line with an old result behind it, and with white space at its end. The
result counts neither for the outcome nor for what is shown. -/
theorem ignoresResult_and_showsResult_spaced :
    let text : Text := "-1 + 3 ".toList
    let shown := new.input .decimal text
    '=' ∉ text ∧ (new.enter .decimal text).1 = .calculated 2
    ∧ (new.enter .decimal (text ++ "=9=+".toList)).1 = .calculated 2
    ∧ shown.sheet.decimal = "-1 + 3=2".toList ∧ shown.sheet.hex = "-0x01+0x03=0x02".toList
    ∧ shown.ShowsResult .decimal 2 := by
  intro text shown
  have hequals : '=' ∉ text := by decide
  have h : (new.enter .decimal text).1 = .calculated 2 := by rfl
  have hkind : (new.enter .decimal text).1.isOfLine = true := by rw [h]; rfl
  obtain ⟨hignores, hshows⟩ := ignoresResult_and_showsResult .decimal text
  obtain ⟨hsame, -⟩ := hignores hequals hkind new new "9=+".toList
  exact ⟨hequals, h, hsame.trans h, by rfl, by rfl, hshows new 2 h⟩

end Session

end BaseConverter
