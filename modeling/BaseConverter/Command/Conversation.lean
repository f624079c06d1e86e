import BaseConverter.Command.Layout
import BaseConverter.Session
import BaseConverter.Text.Stretch

/-!
# `BaseConverter.Command.Conversation`: a session driven line by line

A person types lines and gets an answer to each. A line sets a field,
moves the pointer, wipes the fields or ends the conversation. A line
that is none of these is answered with an error, and the conversation
goes on.

* `Line.ofText` tells what a line asks for.
* `Conversation.respond` is the answer to one line, and
  `Conversation.turn` tells when there is none.
* `Conversation.transcript` is the answer to a list of lines.
* `Conversation.lines` cuts the bytes of the input into lines.
-/

set_option autoImplicit false

namespace BaseConverter

/-- What a line asks for. -/
inductive Line where
  /-- Nothing: there is only white space. -/
  | empty
  | quit
  | clear
  | leave
  /-- The pointer comes to a position of a field. -/
  | hover (field position : Text)
  /-- A hover without exactly one field and one position. -/
  | badHover
  /-- A text is typed into a field. -/
  | input (field text : Text)
  | unknown
deriving DecidableEq

namespace Line

/-- The words of a text, separated by white space. -/
def words (text : Text) : List Text :=
  (Text.stretches (fun c => !Text.isWhite c) 0 text).map Text.Stretch.text

/-- The hover that the words behind the command ask for. -/
def ofHoverWords : List Text → Line
  | [field, position] => hover field position
  | _ => badHover

/-- The field in front of the first colon and the text behind it. One
space behind the colon does not belong to the text. -/
def ofAssignment (line : Text) : Line :=
  match line.dropWhile (· ≠ ':') with
  | [] => unknown
  | _ :: ' ' :: text => input (line.takeWhile (· ≠ ':')) text
  | _ :: text => input (line.takeWhile (· ≠ ':')) text

/-- The command that opens a line with a hover. -/
def hoverCommand : Text := "hover ".toList

/-- What a line asks for. -/
def ofText (line : Text) : Line :=
  let trimmed := Text.trim line
  if trimmed = [] then empty
  else if trimmed = "quit".toList ∨ trimmed = "exit".toList then quit
  else if trimmed = "clear".toList then clear
  else if trimmed = "leave".toList then leave
  else if hoverCommand.isPrefixOf trimmed then
    ofHoverWords (words (trimmed.drop hoverCommand.length))
  else ofAssignment line

end Line

/-- What a command has written, and why it failed if it did. -/
structure Report where
  out : Text
  failure? : Option Failure
deriving DecidableEq

/-- The answer to a line: the session behind it, what is written, and
the error if there is one. -/
structure Reply where
  session : Session
  out : Text
  failure? : Option Failure := none
deriving DecidableEq

/-- Everything that a line makes appear: what it writes, and the line of
its error. -/
def Reply.text (reply : Reply) : Text :=
  match reply.failure? with
  | some failure => reply.out ++ failure.line
  | none => reply.out

namespace Conversation

/-- The failure of a line that was calculated without success. -/
def failureOf? : Outcome → Option Failure
  | .failed error => some (.evaluation (.arithmetic error))
  | _ => none

/-- The answer to a text that is typed into a field. -/
def respondInput (format : Format) (session : Session) (field : Field) (text : Text) : Reply :=
  let (outcome, next) := session.enter field text
  ⟨next, Layout.sheet format next.sheet, failureOf? outcome⟩

/-- The answer to a pointer that comes to a character. -/
def respondHover (format : Format) (session : Session) (pointer : Pointer) : Reply :=
  let next := session.point pointer
  ⟨next, Layout.marks format next.sheet next.span?, none⟩

/-- The pointer that the two words of a hover name. -/
def readPointer (field position : Text) : Except Failure Pointer := do
  let field ← readField field
  let position ← readPosition position
  return ⟨field, position⟩

/-- The answer to a line. A line that cannot be understood changes
nothing; a calculation that fails still leaves its text in its field. -/
def respond (format : Format) (session : Session) : Line → Reply
  | .empty | .quit => ⟨session, [], none⟩
  | .clear => ⟨session.clear, Layout.sheet format session.clear.sheet, none⟩
  | .leave => ⟨session.leave, [], none⟩
  | .hover field position =>
    match readPointer field position with
    | .ok pointer => respondHover format session pointer
    | .error failure => ⟨session, [], some failure⟩
  | .badHover => ⟨session, [], some (.usage "hover <field> <position>".toList)⟩
  | .input field text =>
    match readField field with
    | .ok field => respondInput format session field text
    | .error failure => ⟨session, [], some failure⟩
  | .unknown => ⟨session, [], some (.usage "<field>: <text>".toList)⟩

/-- What becomes of a conversation at a line. -/
inductive Turn where
  /-- It has ended, with a failure or without. -/
  | ended (failure? : Option Failure)
  /-- It goes on with an answer. -/
  | answered (reply : Reply)
deriving DecidableEq

/-- What becomes of a conversation at a line. A line that could not be
read as text ends it with a failure. -/
def turn (format : Format) (session : Session) : Option Text → Turn
  | none => .ended (some .notUtf8)
  | some text =>
    match Line.ofText text with
    | .quit => .ended none
    | line => .answered (respond format session line)

/-- The answers to a list of lines, from a session on. -/
def transcriptFrom (format : Format) (session : Session) : List (Option Text) → Report
  | [] => ⟨[], none⟩
  | line :: rest =>
    match turn format session line with
    | .ended failure? => ⟨[], failure?⟩
    | .answered reply =>
      let report := transcriptFrom format reply.session rest
      { report with out := reply.text ++ report.out }

/-- The answers to a list of lines, from a new session on. -/
def transcript (format : Format) (lines : List (Option Text)) : Report :=
  transcriptFrom format Session.new lines

/-- The text of bytes in UTF-8. -/
def decode? (bytes : List UInt8) : Option Text :=
  (String.fromUTF8? ⟨bytes.toArray⟩).map String.toList

/-- The text of a line, when its bytes are UTF-8. In a line that was
ended by a line feed, a carriage return in front of it belongs to the
end of the line. -/
def lineText? (ended : Bool) (bytes : List UInt8) : Option Text :=
  decode? (if ended && bytes.getLast? == some 13 then bytes.dropLast else bytes)

/-- The lines of the input. A last line without a line feed counts when
there is something in it. -/
def lines (bytes : List UInt8) : List (Option Text) :=
  let pieces := bytes.splitOn 10
  let last := pieces.getLast?.toList.filter fun piece => !piece.isEmpty
  pieces.dropLast.map (lineText? true) ++ last.map (lineText? false)

/-- The answers to the lines of an input. -/
def run (format : Format) (bytes : List UInt8) : Report :=
  transcript format (lines bytes)

end Conversation

end BaseConverter
