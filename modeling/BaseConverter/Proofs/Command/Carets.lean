import BaseConverter.Command.Single
import BaseConverter.Proofs.Pointer.Bounds

/-!
# `BaseConverter.Proofs.Command.Carets`: carets under the marked characters

For people, a sheet with its marks is a list of rows: one for each field, and under
the row of a marked field one with carets. The two rows of a field have the same
margin, and a position counts characters as a row does. So a caret stands under the
character that it marks, whatever number of bytes the characters in front of it have.

The rows are found again by cutting the output at its line feeds. They are the rows
that were written when no field has a line feed in its text
(`Layout.exists_listsFields`). Where the marked spans come from does not matter to
the layout, except that they lie in their texts (`Pointer.bounds_of_span?`).

* `Command.highlight_puts_carets` is the main statement.
-/

set_option autoImplicit false

namespace BaseConverter

/-- A marked span has a character in it and lies in the text of its field. -/
theorem Pointer.bounds_of_span? {pointer : Pointer} {sheet : Sheet} {target : Field} {span : Span}
    (h : pointer.span? sheet target = some span) :
    span.start < span.stop ∧ span.stop ≤ (sheet.get target).length := by
  unfold span? at h
  split at h
  · cases hbase : target.base? with
    | none =>
        obtain rfl := target.base?_eq_none_iff.mp hbase
        obtain ⟨rfl, hpos⟩ := Span.eq_of_whole? (whole?_of_numericSpan? h)
        exact ⟨hpos, Nat.le_refl _⟩
    | some base =>
        obtain rfl := (target.base?_eq_some_iff base).mp hbase
        obtain ⟨group, hmem, hspan⟩ := exists_inGroup_of_numericSpan? base h
        obtain ⟨-, hstop, -⟩ := Text.extent_of_mem_groups hmem
        exact ⟨hspan.start_lt_stop, Nat.le_trans hspan.stop_le hstop⟩
  · exact bounds_of_asciiSpan? h

namespace Layout

/-! ### Rows -/

/-- A row shows a field: its name in the margin of nine columns, and its text behind
the margin. -/
structure ShowsField (sheet : Sheet) (field : Field) (row : Text) : Prop where
  name : row.take 9 = (field.name ++ [':']).rightpad 9 ' '
  text : row.drop 9 = sheet.get field

/-- A row of carets marks a span of the text that the row above it shows. -/
structure MarksUnder (row : Text) (span : Span) (carets : Text) : Prop where
  /-- There is a caret in every column of the span. -/
  caret : ∀ column, 9 + span.start ≤ column → column < 9 + span.stop → carets[column]? = some '^'
  /-- In front of the span there are spaces. -/
  space : ∀ column, column < 9 + span.start → carets[column]? = some ' '
  /-- Behind the span the row ends. -/
  length : carets.length = 9 + span.stop
  nonempty : span.start < span.stop
  /-- Above every caret there is a character. -/
  covered : 9 + span.stop ≤ row.length

/-- The rows of the fields in order. Under the row of a marked field there is a row of
carets, and under the others there is none. -/
inductive ListsFields (sheet : Sheet) (span? : Field → Option Span) :
    List Field → List Text → Prop where
  | nil : ListsFields sheet span? [] []
  | unmarked {field : Field} {fields : List Field} {row : Text} {rows : List Text}
      (hspan : span? field = none) (hrow : ShowsField sheet field row)
      (hrows : ListsFields sheet span? fields rows) :
      ListsFields sheet span? (field :: fields) (row :: rows)
  | marked {field : Field} {fields : List Field} {row carets : Text} {rows : List Text}
      {span : Span} (hspan : span? field = some span) (hrow : ShowsField sheet field row)
      (hcarets : MarksUnder row span carets) (hrows : ListsFields sheet span? fields rows) :
      ListsFields sheet span? (field :: fields) (row :: carets :: rows)

/-- A row without line feeds in it is the first line of what is written. -/
theorem splitOn_row_append {name content : Text} (hname : '\n' ∉ name) (hcontent : '\n' ∉ content)
    (rest : Text) :
    (row name content ++ rest).splitOn '\n'
      = (name.rightpad margin ' ' ++ content) :: rest.splitOn '\n' := by
  have hline : '\n' ∉ name.rightpad margin ' ' ++ content := by
    simp [List.rightpad, hname, hcontent]
  rw [row, List.append_assoc, List.singleton_append,
    List.splitOn_append_cons_self_of_not_mem hline]

/-- The names of the fields fit into the margin. -/
theorem length_margin (field : Field) : ((field.name ++ [':']).rightpad margin ' ').length = 9 := by
  cases field <;> rfl

theorem newline_not_mem_name (field : Field) : '\n' ∉ field.name ++ [':'] := by
  cases field <;> decide

theorem showsField (sheet : Sheet) (field : Field) :
    ShowsField sheet field ((field.name ++ [':']).rightpad margin ' ' ++ sheet.get field) where
  name := List.take_left' (length_margin field)
  text := List.drop_left' (length_margin field)

theorem newline_not_mem_carets (span : Span) : '\n' ∉ carets span := by
  simp [carets, List.mem_replicate]

/-- Carets behind the margin stand under a span of the text behind the margin above
them. -/
theorem marksUnder {sheet : Sheet} {field : Field} {span : Span} (hnonempty : span.start < span.stop)
    (hstop : span.stop ≤ (sheet.get field).length) :
    MarksUnder ((field.name ++ [':']).rightpad margin ' ' ++ sheet.get field) span
      (([] : Text).rightpad margin ' ' ++ carets span) := by
  -- The margin and the spaces in front of the carets are one run of spaces.
  have hrow : ([] : Text).rightpad margin ' ' ++ carets span
      = List.replicate (9 + span.start) ' ' ++ List.replicate (span.stop - span.start) '^' := by
    show List.replicate 9 ' ' ++ (_ ++ _) = _
    rw [← List.append_assoc, List.replicate_append_replicate]
  rw [hrow]
  refine ⟨?caret, ?space, ?length, hnonempty, ?covered⟩
  case caret =>
    intro column hle hlt
    rw [List.getElem?_append_right (by simpa using hle), List.getElem?_replicate,
      List.length_replicate, if_pos (by omega)]
  case space =>
    intro column hlt
    rw [List.getElem?_append_left (by simpa using hlt), List.getElem?_replicate, if_pos hlt]
  case length =>
    rw [List.length_append, List.length_replicate, List.length_replicate]
    omega
  case covered =>
    rw [List.length_append, length_margin]
    omega

/-! ### Sheets with their marks -/

/-- The lines of a sheet with its marks are the rows of its fields. -/
theorem exists_listsFields {sheet : Sheet} {span? : Field → Option Span}
    (hnewline : ∀ field, '\n' ∉ sheet.get field)
    (hbounds : ∀ field span, span? field = some span →
      span.start < span.stop ∧ span.stop ≤ (sheet.get field).length) (fields : List Field) :
    ∃ rows, (fields.flatMap fun field => fieldRow sheet field ++ markRow (span? field)).splitOn '\n'
        = rows ++ [[]]
      ∧ ListsFields sheet span? fields rows := by
  induction fields with
  | nil => exact ⟨[], rfl, .nil⟩
  | cons field fields ih =>
      obtain ⟨rows, hsplit, hrows⟩ := ih
      -- The lines are cut off from the front: the row of the field, then its carets, if any.
      have hrow := splitOn_row_append (newline_not_mem_name field) (hnewline field)
      rw [List.flatMap_cons, List.append_assoc, fieldRow, hrow]
      cases hspan : span? field with
      | none =>
          refine ⟨_ :: rows, ?_, .unmarked hspan (showsField sheet field) hrows⟩
          rw [markRow, List.nil_append, hsplit, List.cons_append]
      | some span =>
          obtain ⟨hnonempty, hstop⟩ := hbounds field span hspan
          have hcarets := splitOn_row_append List.not_mem_nil (newline_not_mem_carets span)
          refine ⟨_ :: _ :: rows, ?_,
            .marked hspan (showsField sheet field) (marksUnder hnonempty hstop) hrows⟩
          rw [markRow, hcarets, hsplit, List.cons_append, List.cons_append]

end Layout

namespace Command

/-- A field, a position and a text are answered with the marks of the pointer. -/
theorem highlight_eq (format : Format) {name position : Text} {parts : List Text} {field : Field}
    {index : Nat} (hname : readField name = .ok field) (hposition : readPosition position = .ok index)
    (hparts : parts ≠ []) :
    let session := (Session.new.input field (Text.spaced parts)).point ⟨field, index⟩
    highlight ⟨format, name :: position :: parts⟩
      = .ok (Layout.marks format session.sheet session.span?) := by
  obtain ⟨first, rest, rfl⟩ := List.exists_cons_of_ne_nil hparts
  show (readField name >>= fun field => readPosition position >>= _) = _
  rw [hname]
  show (readPosition position >>= _) = _
  rw [hposition]
  rfl

/-- For people, the command lists the fields of the sheet that it fills, in order and
each in a row of its own. Under the row of a field there are carets exactly when the
pointer marks something in it, and then they stand under the marked characters.

No field may have a line feed in its text: the text would go on in a row without a
margin. -/
theorem highlight_puts_carets {name position : Text} {parts : List Text} {field : Field}
    {index : Nat} (hname : readField name = .ok field) (hposition : readPosition position = .ok index)
    (hparts : parts ≠ []) :
    let session := (Session.new.input field (Text.spaced parts)).point ⟨field, index⟩
    (∀ target, '\n' ∉ session.sheet.get target) →
      ∃ out rows, highlight ⟨.text, name :: position :: parts⟩ = .ok out
        ∧ out.splitOn '\n' = rows ++ [[]]
        ∧ Layout.ListsFields session.sheet session.span? Field.all rows := by
  intro session hnewline
  have hbounds : ∀ target span, session.span? target = some span →
      span.start < span.stop ∧ span.stop ≤ (session.sheet.get target).length :=
    fun _ _ hspan => Pointer.bounds_of_span? hspan
  obtain ⟨rows, hsplit, hrows⟩ := Layout.exists_listsFields hnewline hbounds Field.all
  exact ⟨_, rows, highlight_eq .text hname hposition hparts, hsplit, hrows⟩

/-- The second of three characters, one of two bytes and one of three around it. -/
theorem highlight_puts_carets_wide :
    let session := (Session.new.input .ascii "éA€".toList).point ⟨.ascii, 1⟩
    (∀ target, '\n' ∉ session.sheet.get target) ∧ session.span? .ascii = some ⟨1, 2⟩
      ∧ ∃ out rows, highlight ⟨.text, ["ascii".toList, "1".toList, "éA€".toList]⟩ = .ok out
        ∧ out.splitOn '\n' = rows ++ [[]]
        ∧ Layout.ListsFields session.sheet session.span? Field.all rows := by
  intro session
  have hnewline : ∀ target, '\n' ∉ session.sheet.get target := by
    intro target
    cases target <;> decide
  exact ⟨hnewline, by decide,
    highlight_puts_carets rfl rfl (List.cons_ne_nil _ _) hnewline⟩

end Command

end BaseConverter
