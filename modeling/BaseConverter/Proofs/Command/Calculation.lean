import BaseConverter.Command.Program
import BaseConverter.Proofs.Session.Evaluated

/-!
# `BaseConverter.Proofs.Command.Calculation`: one line with the value, or none

The command that calculates a line reads a base and a text and writes the value in
this base. Its arguments have a value (`Command.Calculates`), or there is a first
thing that is wrong with them (`Command.Refused`): they are too few, the first one
names no base, or the others are no line with a value. Nothing is written before
all of this is known, so a refusal leaves the output empty.

What is written can be read in the field of the base, which gives the value back
with its sign. In decimal the sign is written. In the other two bases it is in the
pattern of all 64 bits.

* `Command.evaluate_reads_back` is the main statement.
-/

set_option autoImplicit false

namespace BaseConverter

/-- What is written of a word in a base is read in the field of the base. -/
theorem Field.readNumber_write (base : Base) (word : Word) :
    (ofBase base).readNumber (base.write word) = .ok word := by
  rw [readNumber, base?_ofBase]
  exact base.read_write word

/-- A word is written on one line. -/
theorem Base.newline_not_mem_write (base : Base) (word : Word) : '\n' ∉ base.write word :=
  fun h => absurd (base.not_white_of_mem_write word _ h) (by decide)

/-- A text that names no base is reported as it is. -/
theorem readBase_of_not_base {text : Text} (h : ∀ base, readBase text ≠ .ok base) :
    readBase text = .error (.notBase text) := by
  cases hread : readBase text with
  | ok base => exact absurd hread (h base)
  | error failure =>
      unfold readBase at hread
      dsimp only at hread
      split at hread <;> cases hread
      rfl

namespace Command

/-- The arguments are the name of a base and a line that has a value in it. -/
inductive Calculates : List Text → Base → Word → Prop where
  | intro {name : Text} {parts : List Text} {base : Base} {value : Word}
      (hbase : readBase name = .ok base)
      (hvalue : Expression.valueOfRadix base.radix (Text.spaced parts) = .ok value) :
      Calculates (name :: parts) base value

/-- What is wrong with arguments that have no value. -/
inductive Refused : List Text → Failure → Prop where
  /-- There is no base, or no line behind it. -/
  | usage {positional : List Text} (h : positional.length < 2) :
      Refused positional (.usage "radix eval <base> <expr...>".toList)
  /-- The first argument names no base. -/
  | notBase {name : Text} {parts : List Text} (hparts : parts ≠ [])
      (h : ∀ base, readBase name ≠ .ok base) : Refused (name :: parts) (.notBase name)
  /-- The line is no expression, or an expression without a value. -/
  | evaluation {name : Text} {parts : List Text} {base : Base} {error : EvaluationError}
      (hparts : parts ≠ []) (hbase : readBase name = .ok base)
      (h : Expression.valueOfRadix base.radix (Text.spaced parts) = .error error) :
      Refused (name :: parts) (.evaluation error)

/-- There is no value in nothing. -/
theorem ne_nil_of_value {base : Base} {parts : List Text} {value : Word}
    (h : Expression.valueOfRadix base.radix (Text.spaced parts) = .ok value) : parts ≠ [] := by
  rintro rfl
  rw [Expression.valueOfRadix_of_not_hasOperator base (by decide)] at h
  cases h

/-- Behind a base, the line decides. -/
theorem evaluate_of_base (format : Format) {name : Text} {parts : List Text} {base : Base}
    (hparts : parts ≠ []) (hbase : readBase name = .ok base) :
    evaluate ⟨format, name :: parts⟩
      = ((Expression.valueOfRadix base.radix (Text.spaced parts)).mapError .evaluation).map
          (valueText format base (Text.spaced parts)) := by
  obtain ⟨first, rest, rfl⟩ := List.exists_cons_of_ne_nil hparts
  rw [Expression.valueOfRadix_radix]
  show (readBase name >>= _) = _
  rw [hbase]
  rfl

/-- Arguments with a value are answered with the value. -/
theorem Calculates.evaluate_eq {positional : List Text} {base : Base} {value : Word}
    (h : Calculates positional base value) :
    evaluate ⟨.text, positional⟩ = .ok (base.write value ++ ['\n']) := by
  cases h with
  | intro hbase hvalue =>
      rw [evaluate_of_base .text (ne_nil_of_value hvalue) hbase, hvalue]
      rfl

/-- What is wrong with the arguments is what they are refused for, in either
format. -/
theorem Refused.evaluate_eq {positional : List Text} {failure : Failure}
    (h : Refused positional failure) (format : Format) :
    evaluate ⟨format, positional⟩ = .error failure := by
  cases h with
  | usage h =>
      match positional, h with
      | [], _ => rfl
      | [_], _ => rfl
  | notBase hparts h =>
      obtain ⟨first, rest, rfl⟩ := List.exists_cons_of_ne_nil hparts
      show (readBase _ >>= _) = _
      rw [readBase_of_not_base h]
      rfl
  | evaluation hparts hbase h =>
      rw [evaluate_of_base format hparts hbase, h]
      rfl

/-- Arguments without a value have something wrong with them. -/
theorem exists_refused {positional : List Text}
    (h : ∀ base value, ¬Calculates positional base value) : ∃ failure, Refused positional failure := by
  -- The cases are in the order in which the command looks at its arguments.
  cases positional with
  | nil => exact ⟨_, .usage Nat.zero_lt_two⟩
  | cons name parts =>
      by_cases hparts : parts = []
      · subst hparts
        exact ⟨_, .usage Nat.one_lt_two⟩
      by_cases hname : ∀ base, readBase name ≠ .ok base
      · exact ⟨_, .notBase hparts hname⟩
      obtain ⟨base, hbase⟩ := not_forall_not.mp hname
      cases hvalue : Expression.valueOfRadix base.radix (Text.spaced parts) with
      | ok value => exact absurd (.intro hbase hvalue) (h base value)
      | error error => exact ⟨_, .evaluation hparts hbase hvalue⟩

/-- The command writes one line that can be read back, or nothing.

* When the first argument names a base and the others, joined by single spaces, are a
  line with a value in this base, the output for people is one line, and the field
  of the base reads it as the value.
* In every other case, and in either format, the command fails for what is wrong with
  its arguments, and its output is empty. -/
theorem evaluate_reads_back (positional : List Text) :
    (∀ base value, Calculates positional base value →
      ∃ line, '\n' ∉ line ∧ (Field.ofBase base).readNumber line = .ok value
        ∧ evaluate ⟨.text, positional⟩ = .ok (line ++ ['\n'])
        ∧ Program.exitOnce (evaluate ⟨.text, positional⟩)
            = { status := 0, out := line ++ ['\n'], err := [] })
    ∧ ((∀ base value, ¬Calculates positional base value) →
      ∃ failure, Refused positional failure ∧ ∀ format,
        evaluate ⟨format, positional⟩ = .error failure
        ∧ Program.exitOnce (evaluate ⟨format, positional⟩)
            = { status := 1, out := [], err := failure.line }) := by
  constructor
  · intro base value h
    refine ⟨base.write value, base.newline_not_mem_write value, Field.readNumber_write base value,
      h.evaluate_eq, ?_⟩
    rw [h.evaluate_eq]
    rfl
  · intro h
    obtain ⟨failure, hrefused⟩ := exists_refused h
    refine ⟨failure, hrefused, fun format => ⟨hrefused.evaluate_eq format, ?_⟩⟩
    rw [hrefused.evaluate_eq format]
    rfl

/-- A negative value as a pattern, and a line that is not finished. -/
theorem evaluate_reads_back_negative :
    let finished := ["Hex".toList, "1".toList, "-".toList, "3".toList]
    let unfinished := ["+2".toList, "1".toList, "-".toList]
    Calculates finished .hex (-2)
    ∧ (∃ line, '\n' ∉ line ∧ Field.hex.readNumber line = .ok (-2)
      ∧ evaluate ⟨.text, finished⟩ = .ok (line ++ ['\n']))
    ∧ (∀ base value, ¬Calculates unfinished base value)
    ∧ ∃ failure, ∀ format, evaluate ⟨format, unfinished⟩ = .error failure := by
  intro finished unfinished
  have hfinished : Calculates finished .hex (-2) := by
    refine .intro ?_ ?_ <;> rfl
  have hunfinished : ∀ base value, ¬Calculates unfinished base value := by
    intro base value h
    have hcons : Calculates ("+2".toList :: ["1".toList, "-".toList]) base value := h
    cases hcons with
    | intro hbase hvalue =>
        cases hbase
        cases hvalue
  obtain ⟨line, hline, hread, heval, -⟩ := (evaluate_reads_back finished).1 _ _ hfinished
  obtain ⟨failure, -, hfailure⟩ := (evaluate_reads_back unfinished).2 hunfinished
  exact ⟨hfinished, ⟨line, hline, hread, heval⟩, hunfinished, failure,
    fun format => (hfailure format).1⟩

end Command

end BaseConverter
