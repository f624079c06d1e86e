import BaseConverter.Expression.Value
import BaseConverter.Pointer
import BaseConverter.Sheet.Filling

/-!
# `BaseConverter.Session`: editing the fields one after another

A session is the sheet that is shown and the place of the pointer. A
text typed into a field is a list of values or a line to calculate:
a line when it has an operator and is not a number as it stands. What
follows an equals sign in it is an earlier result and does not count.

What a text does is decided by the field and the text alone. That is an
`Entry`; the session only applies it.

* `Entry.ofText` decides what a text does.
* `Session.input` applies it: a new sheet replaces the old one, and
  without a new sheet only the field that was typed into changes.
* `Session.run` applies a list of events, and `Session.answers` lists
  what they are answered with.
-/

set_option autoImplicit false

namespace BaseConverter

/-- The text up to its first equals sign. -/
def Text.withoutResult (text : Text) : Text :=
  text.takeWhile (· ≠ '=')

/-- What a text does that is typed into a field. -/
inductive Entry where
  /-- Values, or white space, that fill every field. -/
  | converted (sheet : Sheet)
  /-- No value can be read. -/
  | unparsed
  /-- A line with its value, and the sheet that shows both. -/
  | calculated (value : Word) (sheet : Sheet)
  /-- A line that is not finished. -/
  | pending
  /-- A finished line that has no value. -/
  | failed (error : ArithmeticError)
deriving DecidableEq

namespace Entry

/-- Whether a text in a field of the base `base` is a line to
calculate. -/
def isLine (base : Base) (text : Text) : Bool :=
  let line := Text.trim text.withoutResult
  line.hasOperator && (base.read line).toOption.isNone

/-- The sheet of a calculated line: the line in every base, with the
text as it was typed in the base that it was typed in, and the value. -/
def lineSheet (base : Base) (line : Text) (expression : Expression) (value : Word) : Sheet :=
  let lines : Sheet := {
    decimal := expression.render Base.decimal.write
    hex := expression.render Base.hex.write
    binary := expression.render Base.binary.write }
  (lines.set (Field.ofBase base) line).withResult (Sheet.ofWord value)

/-- What a line does. -/
def ofLine (base : Base) (text : Text) : Entry :=
  let line := text.withoutResult
  match Expression.complete? base line with
  | none => pending
  | some expression =>
    match expression.value with
    | .ok value => calculated value (lineSheet base line expression value)
    | .error error => failed error

/-- What a list of values does. -/
def ofValues (field : Field) (text : Text) : Entry :=
  match Sheet.fill? field text with
  | some sheet => converted sheet
  | none => unparsed

/-- What a text does that is typed into a field. -/
def ofText (field : Field) (text : Text) : Entry :=
  match field.base? with
  | some base => if isLine base text then ofLine base text else ofValues field text
  | none => ofValues field text

/-- The sheet that replaces the old one, when there is one. -/
def sheet? : Entry → Option Sheet
  | converted sheet => some sheet
  | calculated _ sheet => some sheet
  | _ => none

end Entry

/-- What an entry did, without the sheet. -/
inductive Outcome where
  | converted
  | unparsed
  | calculated (value : Word)
  | pending
  | failed (error : ArithmeticError)
deriving DecidableEq

/-- What an entry did. -/
def Entry.outcome : Entry → Outcome
  | converted _ => .converted
  | unparsed => .unparsed
  | calculated value _ => .calculated value
  | pending => .pending
  | failed error => .failed error

/-- The sheet that is shown, and the place of the pointer. -/
structure Session where
  sheet : Sheet := Sheet.empty
  hover : Hover := Hover.idle
deriving DecidableEq

/-- What can happen in a session. -/
inductive Event where
  | input (field : Field) (text : Text)
  | clear
  | hover (pointer : Pointer)
  | leave
deriving DecidableEq

namespace Session

/-- A session in which nothing has happened. -/
def new : Session := {}

/-- A text is typed into a field. The pointer goes away. Tells what the
text did. -/
def enter (session : Session) (field : Field) (text : Text) : Outcome × Session :=
  let entry := Entry.ofText field text
  (entry.outcome, {
    sheet := entry.sheet?.getD (session.sheet.set field text)
    hover := session.hover.edited })

/-- The session after a text is typed into a field. -/
def input (session : Session) (field : Field) (text : Text) : Session :=
  (session.enter field text).2

/-- Every field is wiped, and the pointer goes away. -/
def clear (session : Session) : Session where
  sheet := Sheet.empty
  hover := session.hover.left

/-- The pointer comes to a character. -/
def point (session : Session) (pointer : Pointer) : Session :=
  { session with hover := session.hover.moved pointer }

/-- The pointer leaves the fields. -/
def leave (session : Session) : Session :=
  { session with hover := session.hover.left }

/-- The span of a field that is marked. -/
def span? (session : Session) (target : Field) : Option Span :=
  session.hover.span? session.sheet target

/-- The session after an event. -/
def step (session : Session) : Event → Session
  | .input field text => session.input field text
  | .clear => session.clear
  | .hover pointer => session.point pointer
  | .leave => session.leave

/-- The session after a list of events. -/
def run (session : Session) (events : List Event) : Session :=
  events.foldl step session

/-- What an event is answered with: an input tells what it did, and the
other events tell nothing. -/
def answer? (session : Session) : Event → Option Outcome
  | .input field text => some (session.enter field text).1
  | _ => none

/-- The answers to a list of events, each in the session that the events
in front of it have led to. -/
def answers (session : Session) : List Event → List (Option Outcome)
  | [] => []
  | event :: events => session.answer? event :: (session.step event).answers events

@[simp]
theorem hover_input (session : Session) (field : Field) (text : Text) :
    (session.input field text).hover = Hover.idle := rfl

@[simp]
theorem sheet_clear (session : Session) : session.clear.sheet = Sheet.empty := rfl

@[simp]
theorem hover_clear (session : Session) : session.clear.hover = Hover.idle := rfl

@[simp]
theorem sheet_point (session : Session) (pointer : Pointer) :
    (session.point pointer).sheet = session.sheet := rfl

@[simp]
theorem hover_point (session : Session) (pointer : Pointer) :
    (session.point pointer).hover = Hover.on pointer := rfl

@[simp]
theorem sheet_leave (session : Session) : session.leave.sheet = session.sheet := rfl

@[simp]
theorem hover_leave (session : Session) : session.leave.hover = Hover.idle := rfl

/-- A run goes on from where its first part ended. -/
theorem run_append (session : Session) (first second : List Event) :
    session.run (first ++ second) = (session.run first).run second :=
  List.foldl_append

end Session

end BaseConverter
