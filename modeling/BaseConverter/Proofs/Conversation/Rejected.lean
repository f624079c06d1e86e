import BaseConverter.Proofs.Conversation.Asked
import BaseConverter.Proofs.Conversation.Lines
import BaseConverter.Proofs.Text.Stretch

/-!
# `BaseConverter.Proofs.Conversation.Rejected`: lines that cannot be used

A line is rejected when it names no field, no position or no form of a
line at all. `Line.Rejected` lists the five ways. Such a line reaches
neither the sheet nor the pointer (`turn_of_rejected`), in contrast to a
calculation that fails, which leaves its text in its field and has its
sheet written (`rejected_iff`). So a rejected line makes one line of output
appear, and everything behind it is answered as if it had not been typed.

The output grows with the input. A list of lines that all go on leads to a
session, and what follows them is answered from there
(`exists_transcriptFrom_append`). A line that does not go on is the last
one with an effect (`transcriptFrom_append_of_not_goesOn`).

* `Conversation.run_rejected`: what is written for an input with a
  rejected line, with lines behind its end, and with lines put behind it.
-/

set_option autoImplicit false

namespace BaseConverter

/-! ### Rejected lines -/

/-- A word of a line has no white space in it. -/
theorem Line.not_white_of_mem_words {text word : Text} (h : word ∈ words text) :
    ∀ c ∈ word, Text.isWhite c = false := by
  obtain ⟨stretch, hstretch, rfl⟩ := List.mem_map.mp h
  intro c hc
  simpa using (Text.maximalRun_of_mem_stretches hstretch).allInside c hc

/-- A line that cannot be used, and the failure that it is answered
with. -/
inductive Line.Rejected (line : Text) : Failure → Prop where
  /-- There is neither a command nor a colon. -/
  | unknown (h : Asks line .unknown) : Rejected line (.usage "<field>: <text>".toList)
  /-- There are not exactly two words behind a hover. -/
  | badHover (h : Asks line .badHover) : Rejected line (.usage "hover <field> <position>".toList)
  /-- What stands in front of the colon is no field. -/
  | inputField {name text : Text} (h : Asks line (.input name text))
      (hname : ∀ field, Field.read name ≠ .ok field) : Rejected line (.unknownField ⟨name⟩)
  /-- The first word behind a hover is no field. -/
  | hoverField {name position : Text} (h : Asks line (.hover name position))
      (hname : ∀ field, Field.read name ≠ .ok field) : Rejected line (.unknownField ⟨name⟩)
  /-- The second word behind a hover is no position. -/
  | hoverPosition {name position : Text} {field : Field} (h : Asks line (.hover name position))
      (hname : Field.read name = .ok field)
      (hposition : ∀ index, readPosition position ≠ .ok index) :
      Rejected line (.notPosition position)

/-- A text that names no field is reported as it is. -/
theorem readField_of_unknown {name : Text} (h : ∀ field, Field.read name ≠ .ok field) :
    readField name = .error (.unknownField ⟨name⟩) := by
  unfold readField
  unfold Field.read at h ⊢
  split
  · next field hfield =>
      rw [hfield] at h
      exact absurd rfl (h field)
  · rfl

/-- A text that is no position is reported as it is. -/
theorem readPosition_of_not_position {text : Text} (h : ∀ index, readPosition text ≠ .ok index) :
    readPosition text = .error (.notPosition text) := by
  unfold readPosition at h ⊢
  split
  · next index hindex =>
      rw [hindex] at h
      dsimp only at h
      split
      · next hlt => exact absurd (if_pos hlt) (h index)
      · rfl
  · rfl

/-! ### Pointers that are named -/

section
variable {name position : Text}

/-- The name of the field is looked at first. -/
theorem Conversation.readPointer_of_unknown (h : ∀ field, Field.read name ≠ .ok field) :
    readPointer name position = .error (.unknownField ⟨name⟩) := by
  rw [readPointer, readField_of_unknown h]
  rfl

/-- In a field there has to be a position. -/
theorem Conversation.readPointer_of_not_position {field : Field}
    (hname : Field.read name = .ok field) (h : ∀ index, readPosition position ≠ .ok index) :
    readPointer name position = .error (.notPosition position) := by
  rw [readPointer, readField_of_read hname, readPosition_of_not_position h]
  rfl

/-- A field and a position make a pointer. -/
theorem Conversation.readPointer_of_read {field : Field} {index : Nat}
    (hname : Field.read name = .ok field) (hposition : readPosition position = .ok index) :
    readPointer name position = .ok ⟨field, index⟩ := by
  rw [readPointer, readField_of_read hname, hposition]
  rfl

/-- A hover is rejected when its words name no pointer. -/
theorem Line.Rejected.of_readPointer {line : Text} {failure : Failure}
    (hasks : Asks line (.hover name position))
    (h : Conversation.readPointer name position = .error failure) : Rejected line failure := by
  by_cases hname : ∀ field, Field.read name ≠ .ok field
  · rw [Conversation.readPointer_of_unknown hname] at h
    cases h
    exact .hoverField hasks hname
  obtain ⟨field, hfield⟩ := not_forall_not.mp hname
  by_cases hposition : ∀ index, readPosition position ≠ .ok index
  · rw [Conversation.readPointer_of_not_position hfield hposition] at h
    cases h
    exact .hoverPosition hasks hfield hposition
  obtain ⟨index, hindex⟩ := not_forall_not.mp hposition
  rw [Conversation.readPointer_of_read hfield hindex] at h
  cases h

/-- An input is rejected when it names no field. -/
theorem Line.Rejected.of_readField {line text : Text} {failure : Failure}
    (hasks : Asks line (.input name text)) (h : readField name = .error failure) :
    Rejected line failure := by
  by_cases hname : ∀ field, Field.read name ≠ .ok field
  · rw [readField_of_unknown hname] at h
    cases h
    exact .inputField hasks hname
  obtain ⟨field, hfield⟩ := not_forall_not.mp hname
  rw [readField_of_read hfield] at h
  cases h

end

/-! ### Answers to rejected lines -/

/-- The report of a rejected line is one line. -/
theorem Line.Rejected.newline_not_mem {line : Text} {failure : Failure} (h : Rejected line failure)
    (hline : '\n' ∉ line) : '\n' ∉ failure.message := by
  -- What a message tells of the line is a word of it, or what stands in front of its colon.
  have hword : ∀ {rest word : Text}, word ∈ words rest → '\n' ∉ word := by
    intro rest word hmem hnewline
    exact absurd (not_white_of_mem_words hmem _ hnewline) (by decide)
  have hname : ∀ {name : Text}, '\n' ∉ name → '\n' ∉ (UnknownField.mk name).message := by
    intro name hname
    unfold UnknownField.message
    simp [hname]
  cases h with
  | unknown => decide
  | badHover => decide
  | inputField hasks =>
      cases hasks with
      | input _ _ hcut =>
          refine hname fun hmem => hline ?_
          rw [hcut]
          exact List.mem_append_left _ hmem
  | hoverField hasks =>
      cases hasks with
      | hover _ hwords => exact hname (hword (by rw [hwords]; exact List.mem_cons_self))
  | hoverPosition hasks =>
      cases hasks with
      | hover _ hwords =>
          have hposition := hword (by rw [hwords]; exact List.mem_cons_of_mem _ List.mem_cons_self)
          unfold Failure.message
          simp [hposition]

/-- A report with something written in front of it. -/
def Report.behind (out : Text) (report : Report) : Report :=
  { report with out := out ++ report.out }

namespace Conversation

/-- A rejected line is answered with its failure alone, and the session
stays as it is. -/
theorem turn_of_rejected (format : Format) (session : Session) {line : Text} {failure : Failure}
    (h : Line.Rejected line failure) :
    turn format session (some line) = .answered ⟨session, [], some failure⟩ := by
  cases h with
  | unknown h => simp only [turn, h.ofText_eq, respond]
  | badHover h => simp only [turn, h.ofText_eq, respond]
  | inputField h hname => simp only [turn, h.ofText_eq, respond, readField_of_unknown hname]
  | hoverField h hname => simp only [turn, h.ofText_eq, respond, readPointer_of_unknown hname]
  | hoverPosition h hname hposition =>
      simp only [turn, h.ofText_eq, respond, readPointer_of_not_position hname hposition]

/-- Something is written for every sheet. -/
theorem sheet_ne_nil (format : Format) (values : Sheet) : Layout.sheet format values ≠ [] := by
  cases format with
  | text =>
      refine List.append_ne_nil_of_left_ne_nil ?_ _
      exact List.append_ne_nil_of_right_ne_nil _ (List.cons_ne_nil _ _)
  | json => exact List.append_ne_nil_of_right_ne_nil _ (List.cons_ne_nil _ _)

/-- A line that is answered with a failure alone is rejected. So a
calculation that fails is not: its sheet is written. -/
theorem rejected_iff (format : Format) (session : Session) (line : Text) (failure : Failure) :
    Line.Rejected line failure
      ↔ turn format session (some line) = .answered ⟨session, [], some failure⟩ := by
  refine ⟨turn_of_rejected format session, fun hturn => ?_⟩
  obtain ⟨asked, hasks⟩ := Line.exists_asks line
  -- What the line asks for is not an end, so the answer is that of `respond`.
  have hreply : respond format session asked = ⟨session, [], some failure⟩ := by
    rw [turn, hasks.ofText_eq] at hturn
    split at hturn
    · cases hturn
    · exact Turn.answered.inj hturn
  have hfailure : (respond format session asked).failure? = some failure := by rw [hreply]
  have hout : (respond format session asked).out = [] := by rw [hreply]
  have hform := hasks
  cases hasks with
  | @hover rest name position =>
      rw [respond] at hfailure
      cases hpointer : readPointer name position with
      | error other =>
          rw [hpointer] at hfailure
          cases hfailure
          exact .of_readPointer hform hpointer
      | ok pointer =>
          rw [hpointer] at hfailure
          cases hfailure
  | @input name =>
      -- With a field, a failure comes from the calculation and a sheet is written.
      rw [respond] at hfailure hout
      cases hfield : readField name with
      | error other =>
          rw [hfield] at hfailure
          cases hfailure
          exact .of_readField hform hfield
      | ok field =>
          rw [hfield] at hout
          exact absurd hout (sheet_ne_nil format _)
  | badHover =>
      cases hfailure
      exact .badHover hform
  | unknown =>
      cases hfailure
      exact .unknown hform
  | _ => cases hfailure

/-! ### Lines that go on -/

/-- A line behind which a conversation goes on: a text, and no command to
end. -/
def GoesOn (line : Option Text) : Prop :=
  ∃ text, line = some text ∧ ¬Line.Ends text

/-- A line behind which a conversation goes on is answered. -/
theorem GoesOn.exists_reply {line : Option Text} (h : GoesOn line) (format : Format)
    (session : Session) : ∃ reply, turn format session line = .answered reply := by
  obtain ⟨text, rfl, hends⟩ := h
  have hquit : Line.ofText text ≠ .quit := fun hquit => by
    cases (Line.ofText_eq_iff text .quit).mp hquit with
    | quit h => exact hends h
  exact ⟨respond format session (Line.ofText text), by simp only [turn]⟩

/-- Every other line ends the conversation. -/
theorem exists_ended_of_not_goesOn {line : Option Text} (h : ¬GoesOn line) (format : Format)
    (session : Session) : ∃ failure?, turn format session line = .ended failure? := by
  cases line with
  | none => exact ⟨_, rfl⟩
  | some text =>
      have hends : Line.Ends text := by
        by_contra hends
        exact h ⟨text, rfl, hends⟩
      have hquit : Line.ofText text = .quit := (Line.Asks.quit hends).ofText_eq
      exact ⟨none, by simp only [turn, hquit]⟩

/-! ### Conversations in two parts -/

/-- What is answered to a line stands in front of the answers to the
lines behind it. -/
theorem transcriptFrom_cons {format : Format} {session : Session} {line : Option Text}
    {reply : Reply} (h : turn format session line = .answered reply) (rest : List (Option Text)) :
    transcriptFrom format session (line :: rest)
      = (transcriptFrom format reply.session rest).behind reply.text := by
  simp only [transcriptFrom, h]
  rfl

/-- Lines that all go on lead to a session, from which every line behind
them is answered. -/
theorem exists_transcriptFrom_append (format : Format) (session : Session)
    {first : List (Option Text)} (h : ∀ line ∈ first, GoesOn line) :
    ∃ next, ∀ second, transcriptFrom format session (first ++ second)
      = (transcriptFrom format next second).behind (transcriptFrom format session first).out := by
  induction first generalizing session with
  | nil => exact ⟨session, fun second => rfl⟩
  | cons line first ih =>
      obtain ⟨hline, hfirst⟩ := List.forall_mem_cons.mp h
      obtain ⟨reply, hreply⟩ := hline.exists_reply format session
      -- The other lines are answered from the session behind the first one.
      obtain ⟨next, hnext⟩ := ih reply.session hfirst
      refine ⟨next, fun second => ?_⟩
      rw [List.cons_append, transcriptFrom_cons hreply, transcriptFrom_cons hreply, hnext]
      simp only [Report.behind, List.append_assoc]

/-- What stands behind a line that does not go on has no effect. -/
theorem transcriptFrom_append_of_not_goesOn (format : Format) (session : Session)
    {first : List (Option Text)} (h : ∃ line ∈ first, ¬GoesOn line) (second : List (Option Text)) :
    transcriptFrom format session (first ++ second) = transcriptFrom format session first := by
  induction first generalizing session with
  | nil => simp at h
  | cons line first ih =>
      by_cases hline : GoesOn line
      · obtain ⟨reply, hreply⟩ := hline.exists_reply format session
        have hfirst : ∃ line ∈ first, ¬GoesOn line := by
          obtain ⟨other, hmem, hother⟩ := h
          rcases List.mem_cons.mp hmem with rfl | hmem
          · exact absurd hline hother
          · exact ⟨other, hmem, hother⟩
        rw [List.cons_append, transcriptFrom_cons hreply, transcriptFrom_cons hreply, ih _ hfirst]
      · obtain ⟨failure?, hended⟩ := exists_ended_of_not_goesOn hline format session
        simp only [List.cons_append, transcriptFrom, hended]

/-- More lines only add to what is written. -/
theorem out_prefix_of_append (format : Format) (session : Session)
    (first second : List (Option Text)) :
    (transcriptFrom format session first).out
      <+: (transcriptFrom format session (first ++ second)).out := by
  by_cases h : ∀ line ∈ first, GoesOn line
  · obtain ⟨next, hnext⟩ := exists_transcriptFrom_append format session h
    rw [hnext]
    exact List.prefix_append ..
  · have hsome : ∃ line ∈ first, ¬GoesOn line := by simpa using h
    have hsame := transcriptFrom_append_of_not_goesOn format session hsome second
    exact ⟨[], by rw [hsame, List.append_nil]⟩

/-- A rejected line puts its report in front of the answers to the lines
behind it, and changes none of them. -/
theorem transcriptFrom_rejected (format : Format) (session : Session) {bad : Text}
    {failure : Failure} (h : Line.Rejected bad failure) (rest : List (Option Text)) :
    transcriptFrom format session (some bad :: rest)
      = (transcriptFrom format session rest).behind failure.line :=
  transcriptFrom_cons (turn_of_rejected format session h) rest

/-- When the lines of `head` all go on, what follows them in an input is
answered from one and the same session, behind what is written for
`head`. -/
theorem exists_run_eq_behind (format : Format) {head : List UInt8}
    (h : ∀ line ∈ lines head, GoesOn line) :
    ∃ next, ∀ input after, lines input = lines head ++ after →
      run format input = (transcriptFrom format next after).behind (run format head).out := by
  obtain ⟨next, hnext⟩ := exists_transcriptFrom_append format Session.new h
  refine ⟨next, fun input after hinput => ?_⟩
  rw [run, transcript, hinput, hnext]
  rfl

/-- A conversation keeps to itself what goes wrong in a line.

* Put a rejected line behind the lines of `head`. Then its report, which is
  one line, appears behind what is written for `head`, and the rest of the
  output stays the same.
* Behind a line that ends the conversation, more lines change nothing.
* More lines only add to the output.

The lines are those that an input is cut into. By `lines_typed` every list
of texts without line feeds is the list of lines of an input. -/
theorem run_rejected (format : Format) :
    (∀ (head shorter whole : List UInt8) (after : List (Option Text)) (bad : Text)
        (failure : Failure),
      (∀ line ∈ lines head, GoesOn line) →
      lines shorter = lines head ++ after →
      lines whole = lines head ++ some bad :: after →
      Line.Rejected bad failure →
        '\n' ∉ failure.message
          ∧ (run format whole).failure? = (run format shorter).failure?
          ∧ ∃ more, (run format shorter).out = (run format head).out ++ more
            ∧ (run format whole).out
                = (run format head).out ++ ("error: ".toList ++ failure.message ++ ['\n']) ++ more)
      ∧ (∀ short long : List UInt8, lines short <+: lines long →
          (∃ text, some text ∈ lines short ∧ Line.Ends text) → run format long = run format short)
      ∧ ∀ short long : List UInt8, lines short <+: lines long →
          (run format short).out <+: (run format long).out := by
  refine ⟨?rejected, ?ended, ?extended⟩
  case rejected =>
    intro head shorter whole after bad failure hhead hshorter hwhole hbad
    have hmem : some bad ∈ lines whole := by simp [hwhole]
    refine ⟨hbad.newline_not_mem (newline_not_mem_of_mem_lines hmem), ?_⟩
    obtain ⟨next, hnext⟩ := exists_run_eq_behind format hhead
    rw [hnext shorter after hshorter, hnext whole _ hwhole,
      transcriptFrom_rejected format next hbad]
    exact ⟨rfl, (transcriptFrom format next after).out, rfl, (List.append_assoc ..).symm⟩
  case ended =>
    rintro short long ⟨rest, hlong⟩ ⟨text, hmem, hends⟩
    have hlast : ∃ line ∈ lines short, ¬GoesOn line := by
      refine ⟨some text, hmem, ?_⟩
      rintro ⟨other, heq, hother⟩
      exact hother (Option.some.inj heq ▸ hends)
    rw [run, run, transcript, transcript, ← hlong]
    exact transcriptFrom_append_of_not_goesOn format Session.new hlast rest
  case extended =>
    rintro short long ⟨rest, hlong⟩
    rw [run, run, transcript, transcript, ← hlong]
    exact out_prefix_of_append format Session.new (lines short) rest

/-- A position that is no number, between a typed text and a pointer that
leaves. -/
theorem run_rejected_position :
    (∃ more, (run .text (typed ["hex: f".toList, "leave".toList])).out
        = (run .text (typed ["hex: f".toList])).out ++ more
      ∧ (run .text (typed ["hex: f".toList, "hover hex x".toList, "leave".toList])).out
        = (run .text (typed ["hex: f".toList])).out
          ++ ("error: ".toList ++ (Failure.notPosition "x".toList).message ++ ['\n']) ++ more)
      ∧ run .text (typed [" quit".toList, "clear".toList]) = run .text (typed [" quit".toList])
      ∧ (run .text (typed ["hex: f".toList])).out
        <+: (run .text (typed ["hex: f".toList, "leave".toList])).out := by
  obtain ⟨hrejected, hended, hextended⟩ := run_rejected .text
  have hhead : lines (typed ["hex: f".toList]) = [some "hex: f".toList] := lines_typed (by decide)
  have hshorter : lines (typed ["hex: f".toList, "leave".toList])
      = [some "hex: f".toList, some "leave".toList] := lines_typed (by decide)
  have hwhole : lines (typed ["hex: f".toList, "hover hex x".toList, "leave".toList])
      = [some "hex: f".toList, some "hover hex x".toList, some "leave".toList] :=
    lines_typed (by decide)
  have hquit : lines (typed [" quit".toList]) = [some " quit".toList] := lines_typed (by decide)
  have hlong : lines (typed [" quit".toList, "clear".toList])
      = [some " quit".toList, some "clear".toList] := lines_typed (by decide)
  have hasks : Line.Asks "hover hex x".toList (.hover "hex".toList "x".toList) :=
    (Line.ofText_eq_iff ..).mp (by decide)
  have hposition : ∀ index, readPosition "x".toList ≠ .ok index := by
    intro index h
    cases h
  have hfield : Field.read "hex".toList = .ok .hex := by decide
  have hgoes : ∀ line ∈ lines (typed ["hex: f".toList]), GoesOn line := by
    rw [hhead, List.forall_mem_singleton]
    exact ⟨_, rfl, show ¬(_ ∨ _) by decide⟩
  have hends : Line.Ends " quit".toList := .inl (by decide)
  refine ⟨?_, ?_, ?_⟩
  · exact (hrejected _ _ _ [some "leave".toList] _ _ hgoes (by rw [hshorter, hhead]; rfl)
      (by rw [hwhole, hhead]; rfl) (.hoverPosition hasks hfield hposition)).2.2
  · exact hended _ _ ⟨[some "clear".toList], by rw [hlong, hquit]; rfl⟩
      ⟨_, by rw [hquit]; exact List.mem_singleton_self _, hends⟩
  · exact hextended _ _ ⟨[some "leave".toList], by rw [hshorter, hhead]; rfl⟩

end Conversation

end BaseConverter
