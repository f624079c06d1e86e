import BaseConverter.Session
import Mathlib.Data.List.DropRight

/-!
# `BaseConverter.Proofs.Session.History`: what a session shows after any events

A session is told its events one after another and keeps no history.
What it shows is nevertheless a function of the list of events, and this
module writes that function down without a session that changes:

* `lastReplacing?` is the last event that replaces all four texts: a
  wipe, or an input that was converted or calculated.
* `sinceReplaced` are the events behind it.
* `lastTyped?` is the last text typed into a field.

`get_sheet_run` says that a field shows the text typed last into it since
the last replacement, and else what that replacement alone shows. The
induction is on the events from the last one backwards, because only the
newest event decides whether older ones still count. The step is one of
two lemmas: `sheet_step_of_replaces` (the old sheet does not matter) and
`get_sheet_step` (only the field that is typed into changes).

* `run_new` is the main statement.
-/

set_option autoImplicit false

namespace BaseConverter

/-- Whether an input with this outcome gives all four fields new
texts. -/
def Outcome.replaces : Outcome → Bool
  | converted | calculated _ => true
  | unparsed | pending | failed _ => false

/-- Whether an event gives all four fields new texts. -/
def Event.replaces : Event → Bool
  | input field text => (Session.new.enter field text).1.replaces
  | clear => true
  | hover _ | leave => false

/-- The text that an event types into a field. -/
def Event.typed? (field : Field) : Event → Option Text
  | input other text => if other = field then some text else none
  | _ => none

/-- The pointer that an event brings over a field. -/
def Event.pointer? : Event → Option Pointer
  | hover pointer => some pointer
  | _ => none

/-- An outcome replaces the sheet exactly when its entry has one. -/
theorem Entry.isSome_sheet? (entry : Entry) : entry.sheet?.isSome = entry.outcome.replaces := by
  cases entry <;> rfl

namespace Session

/-- The last of the events that replaces the sheet. -/
def lastReplacing? (events : List Event) : Option Event :=
  events.reverse.find? Event.replaces

/-- The events behind the last one that replaces the sheet; all events
when none does. -/
def sinceReplaced (events : List Event) : List Event :=
  events.rtakeWhile (!·.replaces)

/-- The text of the last of the events that types into a field. -/
def lastTyped? (field : Field) (events : List Event) : Option Text :=
  events.reverse.findSome? (·.typed? field)

/-! ### One more event -/

theorem lastReplacing?_append_singleton (events : List Event) (event : Event) :
    lastReplacing? (events ++ [event])
      = if event.replaces then some event else lastReplacing? events := by
  rw [lastReplacing?, List.reverse_append, List.reverse_singleton, List.singleton_append,
    List.find?_cons]
  cases event.replaces <;> rfl

theorem sinceReplaced_append_singleton (events : List Event) (event : Event) :
    sinceReplaced (events ++ [event])
      = if event.replaces then [] else sinceReplaced events ++ [event] := by
  rw [sinceReplaced, List.rtakeWhile_concat]
  cases event.replaces <;> rfl

theorem lastTyped?_append_singleton (field : Field) (events : List Event) (event : Event) :
    lastTyped? field (events ++ [event]) = (event.typed? field).or (lastTyped? field events) := by
  rw [lastTyped?, List.reverse_append, List.reverse_singleton, List.singleton_append,
    List.findSome?_cons]
  cases event.typed? field <;> rfl

theorem run_append_singleton (session : Session) (events : List Event) (event : Event) :
    session.run (events ++ [event]) = (session.run events).step event :=
  session.run_append events [event]

/-! ### One step -/

/-- A text that gives no new sheet is shown in its field, and the other
fields stay. -/
theorem sheet_input_of_not_replaces (session : Session) {field : Field} {text : Text}
    (h : (session.enter field text).1.replaces = false) :
    (session.input field text).sheet = session.sheet.set field text := by
  have hnone : (Entry.ofText field text).sheet? = none := by
    rw [← Option.isSome_eq_false_iff.trans Option.isNone_iff_eq_none, Entry.isSome_sheet?]
    exact h
  simp only [input, enter, hnone, Option.getD_none]

/-- An event that replaces the sheet leads to the same sheet from every
session. -/
theorem sheet_step_of_replaces (session other : Session) {event : Event}
    (h : event.replaces = true) : (session.step event).sheet = (other.step event).sheet := by
  cases event with
  | input field text =>
      have hsome : (Entry.ofText field text).sheet?.isSome = true := by
        rw [Entry.isSome_sheet?]
        exact h
      -- The sheet of the entry is shown, and nothing of the old one is left.
      obtain ⟨sheet, hsheet⟩ := Option.isSome_iff_exists.mp hsome
      simp only [step, input, enter, hsheet, Option.getD_some]
  | clear => rfl
  | hover pointer => cases h
  | leave => cases h

/-- Any other event changes a field only by typing into it. -/
theorem get_sheet_step (session : Session) {event : Event} (h : event.replaces = false)
    (field : Field) :
    (session.step event).sheet.get field
      = (event.typed? field).getD (session.sheet.get field) := by
  cases event with
  | input other text =>
      have hsheet : (session.input other text).sheet = session.sheet.set other text :=
        sheet_input_of_not_replaces session h
      rw [step, hsheet, Event.typed?]
      by_cases hfield : other = field
      · subst hfield
        simp
      · rw [if_neg hfield, Sheet.get_set_of_ne _ _ (Ne.symm hfield)]
        rfl
  | clear => cases h
  | hover pointer => rfl
  | leave => rfl

/-- Only the event of a moved pointer leaves a pointer over a field. -/
theorem pointer?_step (session : Session) (event : Event) :
    (session.step event).hover.pointer? = event.pointer? := by
  cases event <;> rfl

/-! ### A whole run -/

/-- An answer depends on its event alone. -/
theorem answers_eq_map (session : Session) (events : List Event) :
    session.answers events = events.map new.answer? := by
  -- The answers are given from the front, where each event meets another session.
  induction events generalizing session with
  | nil => rfl
  | cons event events ih =>
      rw [answers, ih, List.map_cons]
      cases event <;> rfl

/-- What a field shows after a run: the text typed into it since the last
replacement, or what that replacement alone shows. -/
theorem get_sheet_run (events : List Event) (field : Field) :
    (new.run events).sheet.get field
      = (lastTyped? field (sinceReplaced events)).getD
          ((new.run (lastReplacing? events).toList).sheet.get field) := by
  -- Both what was replaced last and what was typed last are told from the
  -- end of the run, so the last event is taken off.
  induction events using List.reverseRecOn with
  | nil => rfl
  | append_singleton events event ih =>
      rw [run_append_singleton, lastReplacing?_append_singleton, sinceReplaced_append_singleton]
      cases hevent : event.replaces with
      | true =>
          -- Nothing that happened before is left.
          rw [sheet_step_of_replaces _ new hevent]
          rfl
      | false =>
          rw [get_sheet_step _ hevent, ih, if_neg Bool.false_ne_true, if_neg Bool.false_ne_true,
            lastTyped?_append_singleton]
          cases event.typed? field <;> rfl

/-- The pointer is where the last event brought it. -/
theorem pointer?_run (events : List Event) :
    (new.run events).hover.pointer? = events.getLast?.bind Event.pointer? := by
  induction events using List.reverseRecOn with
  | nil => rfl
  | append_singleton events event _ =>
      rw [run_append_singleton, pointer?_step, List.getLast?_concat]
      rfl

/-- Any events, applied to a new session one after another.

Each is answered as a new session answers it. A field then shows the text
typed last into it behind the last event that replaced the sheet; where
nothing was typed, it shows what that event alone shows in a new session,
and nothing when there was no such event. The pointer is over a field
exactly when the last event brought it there, and otherwise no field is
marked. An input that is not converted or calculated leaves every other
field as it was. -/
theorem run_new (events : List Event) :
    new.answers events = events.map new.answer?
    ∧ (∀ field, (new.run events).sheet.get field
        = (lastTyped? field (sinceReplaced events)).getD
            ((new.run (lastReplacing? events).toList).sheet.get field))
    ∧ (∀ pointer, (new.run events).hover.pointer? = some pointer
        ↔ events.getLast? = some (.hover pointer))
    ∧ ((∀ pointer, events.getLast? ≠ some (.hover pointer)) →
        ∀ target, (new.run events).span? target = none)
    ∧ (∀ field text, ((new.run events).enter field text).1.replaces = false →
        ∀ other, other ≠ field → ((new.run events).input field text).sheet.get other
          = (new.run events).sheet.get other) := by
  have hpointer : ∀ pointer, (new.run events).hover.pointer? = some pointer
      ↔ events.getLast? = some (.hover pointer) := by
    intro pointer
    rw [pointer?_run, Option.bind_eq_some_iff]
    constructor
    · rintro ⟨event, hlast, hevent⟩
      cases event <;> cases hevent
      exact hlast
    · exact fun hlast => ⟨.hover pointer, hlast, rfl⟩
  -- The last two say what does not happen: nothing is marked, nothing else changes.
  refine ⟨answers_eq_map new events, get_sheet_run events, hpointer, ?_, ?_⟩
  · intro hlast target
    have hnone : (new.run events).hover.pointer? = none :=
      Option.eq_none_iff_forall_ne_some.mpr fun pointer h => hlast pointer ((hpointer pointer).mp h)
    rw [span?, Hover.span?, hnone]
    rfl
  · intro field text houtcome other hother
    rw [sheet_input_of_not_replaces _ houtcome, Sheet.get_set_of_ne _ _ hother]

end Session

end BaseConverter
