import BaseConverter.Command.Single
import BaseConverter.Proofs.Conversation.Asked
import BaseConverter.Proofs.Conversation.Lines

/-!
# `BaseConverter.Proofs.Conversation.Assignment`: one line and one command

The command that shows a text in all four fields gets the field and the
text as two arguments. A conversation gets them in one line, with a colon
and a space between them, and has to find them there again. It does, for
every text without a line feed: colons, commands and white space in the
text do not matter, because only the first colon counts and the name in
front of it keeps the line from being a command (`Line.asks_input_of_read`).

The two differ in one thing. An error of the calculation is no failure of
the command, which does not mention it. The conversation writes it in a
line behind the sheet.

* `Conversation.run_assignment`: the conversation writes what the command
  writes, and then the error if there is one.
-/

set_option autoImplicit false

namespace BaseConverter

/-- The line that reports the error of an outcome. Every outcome but a
failed one goes without. -/
def Outcome.errorLine : Outcome → Text
  | failed error => "error: ".toList ++ error.message ++ ['\n']
  | _ => []

/-- With one text, the command types that text. -/
theorem Command.convert_single (format : Format) {name : Text} {field : Field}
    (h : Field.read name = .ok field) (text : Text) :
    convert ⟨format, [name, text]⟩
      = .ok (Layout.sheet format (Session.new.input field text).sheet) := by
  have htext : Text.spaced [text] = text := by simp [Text.spaced, List.intercalate]
  simp only [convert, readField_of_read h, htext]
  rfl

namespace Conversation

/-- All that is written to answer a typed text: the sheet, and the error
behind it. -/
theorem text_respondInput (format : Format) (session : Session) (field : Field) (text : Text) :
    (respondInput format session field text).text
      = Layout.sheet format (session.input field text).sheet
        ++ (session.enter field text).1.errorLine := by
  have hout : (respondInput format session field text).out
      = Layout.sheet format (session.input field text).sheet := rfl
  have hfailure : (respondInput format session field text).failure?
      = failureOf? (session.enter field text).1 := rfl
  rw [Reply.text, hout, hfailure]
  cases (session.enter field text).1 with
  | failed error => rfl
  | _ => exact (List.append_nil _).symm

/-- The turn of an input with the name of a field is the answer to its
text. -/
theorem turn_input (format : Format) (session : Session) {line name text : Text} {field : Field}
    (hline : Line.Asks line (.input name text)) (hfield : Field.read name = .ok field) :
    turn format session (some line) = .answered (respondInput format session field text) := by
  simp only [turn, hline.ofText_eq, respond, readField_of_read hfield]

/-- A conversation of one line that types a text into a field writes what
the command with the same field and text writes, and behind it the error
of a failed calculation. -/
theorem run_assignment (format : Format) {name text : Text} {field : Field}
    (hname : '\n' ∉ name) (hfield : Field.read name = .ok field)
    (htext : '\n' ∉ text) (hreturn : text.getLast? ≠ some '\r') :
    ∃ out, Command.convert ⟨format, [name, text]⟩ = .ok out
      ∧ ∀ ending ∈ endings,
        run format ((name ++ ": ".toList ++ text).encode ++ ending)
          = ⟨out ++ (Session.new.enter field text).1.errorLine, none⟩ := by
  refine ⟨_, Command.convert_single format hfield text, fun ending hending => ?_⟩
  have hne : name ++ ": ".toList ++ text ≠ [] := by simp
  have hnewline : '\n' ∉ name ++ ": ".toList ++ text := by simp [hname, htext]
  -- The space in front of the text is the last character when there is no text.
  have hlast : (name ++ ": ".toList ++ text).getLast? ≠ some '\r' := by
    rw [List.getLast?_append]
    cases hcase : text.getLast? with
    | none => simp
    | some c => simpa [hcase] using hreturn
  have hlines := lines_single hne hnewline hlast hending
  have hturn := turn_input format Session.new (Line.asks_input_of_read hfield text) hfield
  simp only [run, transcript, hlines, transcriptFrom, hturn, List.append_nil, text_respondInput]

/-- A division by zero is shown by both, and only the conversation tells
about it. -/
theorem run_assignment_division :
    ∃ out, Command.convert ⟨.text, ["Hex ".toList, "7/0".toList]⟩ = .ok out
      ∧ ∀ ending ∈ endings,
        run .text (Text.encode ("Hex ".toList ++ ": ".toList ++ "7/0".toList) ++ ending)
          = ⟨out ++ (Session.new.enter .hex "7/0".toList).1.errorLine, none⟩ :=
  have hname : Field.read "Hex ".toList = .ok .hex := rfl
  run_assignment .text (by decide) hname (by decide) (by decide)

end Conversation

end BaseConverter
