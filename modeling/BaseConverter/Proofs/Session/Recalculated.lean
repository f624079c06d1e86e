import BaseConverter.Proofs.Expression.DecimalLine
import BaseConverter.Proofs.Session.Calculated
import BaseConverter.Proofs.Session.Converted

/-!
# `BaseConverter.Proofs.Session.Recalculated`: typing back a calculated line

A calculated line is shown in every base with its result behind it. Typed
back, it is cut in front of the equals sign, and what is left is the line or
its rendering. Whether it is calculated again is then a question about this
text alone (`Session.recalculates_iff_read`): it is no number as it stands,
and it is read as an expression with the same value.

Hexadecimal and binary write every operand as a pattern, so their lines
always come back. The operands of a decimal line have no sign, and a
negative one is written with a minus that the reader takes for an operator.

* `Entry.outcome_eq_calculated_iff` tells what is calculated.
* `Session.recalculates_decimal_iff`: which decimal lines come back.
* `Session.recalculates_of_calculated` is the main statement.
-/

set_option autoImplicit false

namespace BaseConverter

/-! ### Cutting off the result -/

namespace Text

theorem equals_not_mem_withoutResult (text : Text) : '=' ∉ text.withoutResult := by
  intro hmem
  have hinside := List.mem_takeWhile_imp hmem
  exact absurd hinside (by decide)

/-- What stands in front of the first equals sign is left. -/
theorem withoutResult_append_cons {line : Text} (h : '=' ∉ line) (result : Text) :
    withoutResult (line ++ '=' :: result) = line := by
  rw [withoutResult, List.takeWhile_append_of_pos (decide_ne_of_not_mem h),
    List.takeWhile_cons_of_neg (by decide), List.append_nil]

/-- Without an equals sign nothing is cut off. -/
theorem withoutResult_eq_self {line : Text} (h : '=' ∉ line) : withoutResult line = line :=
  List.takeWhile_eq_self_iff.mpr (decide_ne_of_not_mem h)

theorem mem_of_mem_withoutResult {text : Text} {c : Char} (h : c ∈ text.withoutResult) :
    c ∈ text :=
  (List.takeWhile_sublist _).mem h

theorem mem_of_mem_trimEnd {text : Text} {c : Char} (h : c ∈ trimEnd text) : c ∈ text := by
  obtain ⟨after, -, htext⟩ := exists_eq_trimEnd_append text
  rw [htext]
  exact List.mem_append_left after h

end Text

/-- There is no equals sign in a rendered line. -/
theorem Expression.equals_not_mem_render (base : Base) (e : Expression) :
    '=' ∉ e.render base.write := by
  intro hmem
  refine e.of_mem_render (p := (· ≠ '=')) ?_ ?_ '=' hmem rfl
  · rintro c hc rfl
    cases hc
  · rintro word c hc rfl
    exact base.equals_not_mem_write word hc

/-- The reader does not look at the white space around a line. -/
theorem Expression.read_trimEnd (base : Base) (line : Text) :
    read base (Text.trimEnd line) = read base line := by
  rw [read, read, Text.trim_trimEnd]

/-! ### What is calculated -/

/-- A text is calculated when what stands in front of its result is no
number, and is an expression with a value. -/
theorem Entry.outcome_eq_calculated_iff (base : Base) (text : Text) (value : Word) :
    (ofText (Field.ofBase base) text).outcome = .calculated value
      ↔ (∀ word, base.read (Text.trim text.withoutResult) ≠ .ok word)
        ∧ ∃ e, Expression.read base text.withoutResult = .ok e ∧ e.value = .ok value := by
  constructor
  · intro h
    obtain ⟨sheet, hentry⟩ := exists_eq_of_outcome h
    obtain ⟨e, hread, hvalue, -⟩ := exists_of_calculated hentry
    refine ⟨?_, e, hread, hvalue⟩
    intro word hword
    have hline : isLine base text = false := by
      rw [isLine, hword]
      exact Bool.and_false _
    rw [ofText_of_not_isLine hline] at hentry
    exact ofValues_ne_calculated _ _ _ _ hentry
  · rintro ⟨hnumber, e, hread, hvalue⟩
    have hoperator := ((Expression.read_eq_ok_iff base _ e).mp hread).hasOperator
    have hline : isLine base text = true := by
      rw [isLine, hoperator, Bool.true_and]
      cases hread : base.read (Text.trim text.withoutResult) with
      | ok word => exact absurd hread (hnumber word)
      | error error => rfl
    have hcomplete := Expression.complete?_eq_some_iff.mpr hread
    rw [ofText, Field.base?_ofBase]
    simp only [hline, if_true, ofLine, hcomplete, hvalue]
    rfl

namespace Session

/-- The line that a session shows in the field `target` is typed into this
field again, and is calculated with the result `value`. -/
def Recalculates (shown : Session) (target : Base) (value : Word) : Prop :=
  (shown.enter (Field.ofBase target) (shown.sheet.get (Field.ofBase target))).1
    = .calculated value

/-- The line of an expression that is typed back without its result: as it
was typed, or rendered. -/
theorem recalculates_iff_read (session : Session) {source target : Base} {text line : Text}
    {e : Expression} {value : Word} (h : Entry.ofText (Field.ofBase source) text
      = .calculated value (Entry.lineSheet source text.withoutResult e value))
    (hline : (if target = source then text.withoutResult else e.render target.write) = line) :
    (session.input (Field.ofBase source) text).Recalculates target value
      ↔ (∀ word, target.read (Text.trim line) ≠ .ok word)
        ∧ ∃ e', Expression.read target line = .ok e' ∧ e'.value = .ok value := by
  have hequals : '=' ∉ line := by
    rw [← hline]
    split
    · exact Text.equals_not_mem_withoutResult text
    · exact e.equals_not_mem_render target
  have hcut : '=' ∉ Text.trimEnd line := fun hmem => hequals (Text.mem_of_mem_trimEnd hmem)
  have hshown : (session.input (Field.ofBase source) text).sheet.get (Field.ofBase target)
      = Text.trimEnd line ++ '=' :: target.write value := by
    rw [← hline, ← Entry.get_lineSheet source target text.withoutResult e value,
      session.sheet_input_of_calculated h]
  rw [Recalculates, hshown]
  show (Entry.ofText _ _).outcome = _ ↔ _
  rw [Entry.outcome_eq_calculated_iff, Text.withoutResult_append_cons hcut, Text.trim_trimEnd,
    Expression.read_trimEnd]

/-- The rendered line of an expression is typed back. -/
theorem recalculates_iff_read_render (session : Session) {source : Base} {text : Text}
    {e : Expression} {value : Word} (h : Entry.ofText (Field.ofBase source) text
      = .calculated value (Entry.lineSheet source text.withoutResult e value)) {target : Base}
    (hne : target ≠ source) :
    (session.input (Field.ofBase source) text).Recalculates target value
      ↔ (∀ word, target.read (e.render target.write) ≠ .ok word)
        ∧ ∃ e', Expression.read target (e.render target.write) = .ok e' ∧ e'.value = .ok value := by
  have hwhite := e.not_white_of_mem_render target.not_white_of_mem_write
  rw [session.recalculates_iff_read h (if_neg hne), Text.trim_eq_self_of_forall hwhite]

/-- The decimal line of another field can be typed back exactly when the
expression has a decimal line and is no minus in front of a single operand.
A minus and an operand are a single number as they stand, and such a text is
taken for values, with the result still behind it. -/
theorem recalculates_decimal_iff (session : Session) {source : Base} {text : Text} {e : Expression}
    {value : Word} (hne : Base.decimal ≠ source)
    (h : Entry.ofText (Field.ofBase source) text
      = .calculated value (Entry.lineSheet source text.withoutResult e value))
    (hspelled : Expression.Spelled source (Text.trim text.withoutResult) e)
    (hvalue : e.value = .ok value) :
    (session.input (Field.ofBase source) text).Recalculates .decimal value
      ↔ e.HasDecimalLine ∧ ∀ operand, e ≠ .chain true operand [] := by
  rw [session.recalculates_iff_read_render h hne]
  constructor
  · rintro ⟨hnumber, e', hread', -⟩
    have hline := Expression.hasDecimalLine_of_read_render hread'
    refine ⟨hline, ?_⟩
    rintro operand rfl
    obtain ⟨word, hword⟩ := Expression.exists_read_render_minus hline.1
    exact hnumber word hword
  · rintro ⟨hline, hlone⟩
    obtain ⟨e', hread', hvalue'⟩ := hspelled.exists_read_of_hasDecimalLine hline
    refine ⟨hspelled.read_render_ne hread' ?_, e', hread', hvalue'.trans hvalue⟩
    exact fun operand he => absurd he (hlone operand)

/-- A text was typed into a numeric field and calculated. Its own line and the
hexadecimal and binary lines can be typed back, with the same result. The
decimal line can be typed back exactly when the expression has a decimal
line. This is said of every expression but a minus in front of one operand
that is not negative, whose decimal line is never calculated again
(`recalculates_decimal_iff`). -/
theorem recalculates_of_calculated (session : Session) (source : Base) (text : Text) (value : Word)
    (h : (session.enter (Field.ofBase source) text).1 = .calculated value) :
    ∃ e, Expression.read source text.withoutResult = .ok e ∧ e.value = .ok value
      ∧ ∀ target,
        (target = source ∨ target ≠ .decimal →
          (session.input (Field.ofBase source) text).Recalculates target value)
        ∧ (target ≠ source → target = .decimal →
          (∀ operand, e = .chain true operand [] → operand.value.toInt < 0) →
          ((session.input (Field.ofBase source) text).Recalculates target value
            ↔ e.HasDecimalLine)) := by
  obtain ⟨hnumber, -⟩ := (Entry.outcome_eq_calculated_iff source text value).mp h
  obtain ⟨sheet, hentry⟩ := Entry.exists_eq_of_outcome h
  obtain ⟨e, hread, hvalue, rfl⟩ := Entry.exists_of_calculated hentry
  have hspelled := (Expression.read_eq_ok_iff source _ e).mp hread
  refine ⟨e, hread, hvalue, fun target => ⟨?_, ?_⟩⟩
  · intro htarget
    by_cases hsame : target = source
    · subst hsame
      exact (session.recalculates_iff_read hentry (if_pos rfl)).mpr ⟨hnumber, e, hread, hvalue⟩
    · have hpattern : target ≠ .decimal := htarget.resolve_left hsame
      obtain ⟨e', hread', hvalue'⟩ := hspelled.exists_read_render fun _ _ => .inl hpattern
      rw [session.recalculates_iff_read_render hentry hsame]
      refine ⟨fun word hword => ?_, e', hread', hvalue'.trans hvalue⟩
      -- A pattern has no operator in it, and the line has one.
      have hplain := Base.hasOperator_trim_of_read hpattern hword
      rw [((Expression.read_eq_ok_iff target _ e').mp hread').hasOperator] at hplain
      cases hplain
  · rintro hne rfl hlone
    rw [session.recalculates_decimal_iff hne hentry hspelled hvalue]
    refine and_iff_left_of_imp fun hline operand => ?_
    rintro rfl
    exact absurd hline.1 (Int.not_le.mpr (hlone operand rfl))

/-- Minus one and one are added. The decimal line begins with a minus, and is
calculated again as a chain with a sign. -/
theorem recalculates_of_calculated_minus_first :
    let text : Text := "FFFFFFFFFFFFFFFF+1".toList
    let shown := new.input .hex text
    (new.enter .hex text).1 = .calculated 0 ∧ shown.sheet.decimal = "-1+1=0".toList
    ∧ shown.Recalculates .hex 0 ∧ shown.Recalculates .binary 0 ∧ shown.Recalculates .decimal 0 := by
  intro text shown
  have h : (new.enter .hex text).1 = .calculated 0 := by rfl
  obtain ⟨e, hread, -, hlines⟩ := recalculates_of_calculated new .hex text 0 h
  refine ⟨h, by rfl, (hlines .hex).1 (.inl rfl), (hlines .binary).1 (.inr (by decide)), ?_⟩
  have he : Expression.read .hex text.withoutResult
      = .ok (.chain false ⟨"FFFFFFFFFFFFFFFF".toList, -1⟩ [⟨.add, ⟨"1".toList, 1⟩⟩]) := by rfl
  obtain rfl := Except.ok.inj (he.symm.trans hread)
  exact ((hlines .decimal).2 (by decide) rfl nofun).mpr ⟨by decide, by decide⟩

/-- One and minus one are added. The decimal line has two operators in a row
and is not finished. -/
theorem not_recalculates_minus_second :
    let text : Text := "1+FFFFFFFFFFFFFFFF".toList
    let shown := new.input .hex text
    (new.enter .hex text).1 = .calculated 0 ∧ shown.sheet.decimal = "1+-1=0".toList
    ∧ (shown.enter .decimal "1+-1=0".toList).1 = .pending
    ∧ ¬ shown.Recalculates .decimal 0 := by
  intro text shown
  have hpending : (shown.enter .decimal "1+-1=0".toList).1 = .pending := by rfl
  refine ⟨by rfl, by rfl, hpending, ?_⟩
  intro hagain
  cases hpending.symm.trans hagain

end Session

end BaseConverter
