import BaseConverter.Proofs.Expression.Refused
import BaseConverter.Proofs.Session.Recalculated

/-!
# `BaseConverter.Proofs.Session.Evaluated`: a session agrees with the evaluator

A session asks several readers about a text that is typed into a field: is
there an operator in it, is it a number as it stands, does it look finished,
and what does it say. The evaluator reads the same text once, as a line.
`Outcome.AgreesWith` tells what the evaluator has to say to each outcome.

Two of the questions could come between them. A line that looks unfinished is
not read, but then it could not have been read
(`Expression.complete?_eq_some_iff`). A decimal number with a sign is a value
for the session, although there is an operator in it. The evaluator may read
it as a line, a minus in front of one operand; then both have the same value
in mind (`Expression.Spelled.value_of_read`).

* `Session.enter_agreesWith` is the main statement.
-/

set_option autoImplicit false

namespace BaseConverter

/-- What the evaluator says to a text that had an outcome in the field of the
base `base`. -/
def Outcome.AgreesWith (base : Base) (text : Text) : Outcome → Prop
  | converted =>
    Expression.valueOfRadix base.radix text = .error (.parse .noOperator)
      ∨ base = .decimal ∧ ∃ number, base.read text = .ok number
        ∧ ∀ value, Expression.valueOfRadix base.radix text = .ok value → value = number
  | unparsed => Expression.valueOfRadix base.radix text = .error (.parse .noOperator)
  | calculated value => Expression.valueOfRadix base.radix text = .ok value
  | pending => ∃ error : ParseError, error.InLine base
      ∧ Expression.valueOfRadix base.radix text = .error (.parse error)
  | failed error => Expression.valueOfRadix base.radix text = .error (.arithmetic error)

/-! ### A line that is a number -/

/-- A decimal line that is a number as it stands has this number as its
value. -/
theorem Expression.Spelled.value_of_read {line : Text} {e : Expression} {word : Word}
    (h : Spelled .decimal line e) (htrim : Text.trim line = line)
    (hread : Base.decimal.read line = .ok word) : e.value = .ok word := by
  obtain ⟨operand, rfl⟩ := h.eq_of_read htrim hread
  have hnumber : Base.readSigned line = .ok word := by
    rw [← htrim]
    exact hread
  cases h with
  | @chain _ text _ _ _ hfirst hlinks _ =>
      cases hlinks
      rw [if_pos rfl, List.flatten_nil, List.append_nil, List.singleton_append] at hnumber
      have hmagnitude : Base.readMagnitude true ('-' :: text) text = .ok word := hnumber
      have hplain : Text.trim text = text := Text.trim_eq_self_of_forall fun c hc =>
        Base.not_white_of_isDigit (Base.isDigit_of_readMagnitude hmagnitude c hc)
      have hoperand := hfirst.toInt_value
      rw [hfirst.text_eq, hplain] at hoperand
      have hword := Base.toInt_of_readMagnitude hmagnitude
      rw [if_pos rfl] at hword
      have hopposite : operand.value.toInt = -word.toInt := by rw [hoperand, hword, Int.neg_neg]
      rw [value, Word.negate_of_opposite hopposite]
      rfl

/-! ### Entries and the evaluator -/

namespace Expression

theorem valueOfRadix_radix (base : Base) (line : Text) :
    valueOfRadix base.radix line = valueOfRead (read base line) := by
  rw [valueOfRadix, readRadix, Base.ofRadix?_radix]

theorem valueOfRadix_of_not_hasOperator (base : Base) {line : Text}
    (h : (Text.trim line).hasOperator = false) :
    valueOfRadix base.radix line = .error (.parse .noOperator) := by
  rw [valueOfRadix_radix, (read_eq_noOperator_iff base line).mpr h]
  rfl

end Expression

namespace Entry

variable {base : Base} {text : Text}

/-- A line is finished when the evaluator can read it, and has its value. -/
theorem agreesWith_ofLine (hequals : text.withoutResult = text)
    (hop : (Text.trim text).hasOperator = true) :
    (ofLine base text).outcome.AgreesWith base text := by
  have hevaluator := Expression.valueOfRadix_radix base text
  rw [ofLine, hequals]
  cases hread : Expression.read base text with
  | error error =>
      rw [hread] at hevaluator
      have hnone : Expression.complete? base text = none := by
        rw [Option.eq_none_iff_forall_ne_some]
        intro e he
        rw [Expression.complete?_eq_some_iff, hread] at he
        cases he
      simp only [hnone]
      exact ⟨error, Expression.inLine_of_readTrimmed hop hread, hevaluator⟩
  | ok e =>
      rw [hread] at hevaluator
      simp only [Expression.complete?_eq_some_iff.mpr hread]
      cases hvalue : e.value with
      | ok value =>
          rw [Expression.valueOfRead, hvalue] at hevaluator
          exact hevaluator
      | error error =>
          rw [Expression.valueOfRead, hvalue] at hevaluator
          exact hevaluator

/-- Without an operator there is nothing to evaluate. -/
theorem agreesWith_ofValues (hop : (Text.trim text).hasOperator = false) :
    (ofValues (Field.ofBase base) text).outcome.AgreesWith base text := by
  have hevaluator := Expression.valueOfRadix_of_not_hasOperator base hop
  unfold ofValues
  split
  · exact .inl hevaluator
  · exact hevaluator

/-- A text that is a number is converted, whatever white space stands around
it. -/
theorem outcome_ofValues_of_read {word : Word} (h : base.read text = .ok word) :
    (ofValues (Field.ofBase base) text).outcome = .converted := by
  have hmem := Field.mem_values_of_read h
  unfold ofValues Sheet.fill?
  split
  · rfl
  · rename_i hfill
    split at hfill
    · cases hfill
    · split at hfill
      · rename_i hnil
        rw [hnil] at hmem
        cases hmem
      · cases hfill

/-- A number with an operator in it is a decimal number with a sign, and when
it can be evaluated it has the same value as a line. -/
theorem agreesWith_of_read {word : Word} (h : base.read text = .ok word)
    (hop : (Text.trim text).hasOperator = true) :
    Outcome.converted.AgreesWith base text := by
  have hbase : base = .decimal := by
    by_contra hpattern
    rw [Base.hasOperator_trim_of_read hpattern h] at hop
    cases hop
  subst hbase
  refine .inr ⟨rfl, word, h, fun value hvalue => ?_⟩
  rw [Expression.valueOfRadix_radix] at hvalue
  cases hread : Expression.read .decimal text with
  | error error =>
      rw [hread] at hvalue
      cases hvalue
  | ok e =>
      rw [← Base.read_trim] at h
      have hspelled := (Expression.read_eq_ok_iff .decimal text e).mp hread
      have hline := hspelled.value_of_read (Text.trim_trim text) h
      rw [hread, Expression.valueOfRead, hline] at hvalue
      exact (Except.ok.inj hvalue).symm

end Entry

namespace Session

/-- A text without an equals sign is typed into a numeric field, whatever was
shown before. What it is answered with is what the evaluator says to the
text in the base of the field. -/
theorem enter_agreesWith (session : Session) (base : Base) (text : Text) (h : '=' ∉ text) :
    (session.enter (Field.ofBase base) text).1.AgreesWith base text := by
  have hequals := Text.withoutResult_eq_self h
  show (Entry.ofText (Field.ofBase base) text).outcome.AgreesWith base text
  cases hop : (Text.trim text).hasOperator with
  | false =>
      have hline : Entry.isLine base text = false := by
        rw [Entry.isLine, hequals, hop]
        rfl
      rw [Entry.ofText_of_not_isLine hline]
      exact Entry.agreesWith_ofValues hop
  | true =>
      cases hread : base.read (Text.trim text) with
      | ok word =>
          have hline : Entry.isLine base text = false := by
            rw [Entry.isLine, hequals, hread]
            exact Bool.and_false _
          rw [Base.read_trim] at hread
          rw [Entry.ofText_of_not_isLine hline, Entry.outcome_ofValues_of_read hread]
          exact Entry.agreesWith_of_read hread hop
      | error error =>
          have hline : Entry.isLine base text = true := by
            rw [Entry.isLine, hequals, hop, hread]
            rfl
          rw [Entry.ofText, Field.base?_ofBase]
          simp only [hline, if_true]
          exact Entry.agreesWith_ofLine hequals hop

/-- A decimal number with a minus is converted. As a line it has the same
value. -/
theorem enter_agreesWith_minus :
    let text : Text := " -5".toList
    '=' ∉ text ∧ (new.enter .decimal text).1 = .converted
    ∧ Outcome.converted.AgreesWith .decimal text
    ∧ Expression.valueOfRadix 10 text = .ok (-5) := by
  intro text
  have hequals : '=' ∉ text := by decide
  exact ⟨hequals, by rfl, enter_agreesWith new .decimal text hequals, by rfl⟩

end Session

end BaseConverter
