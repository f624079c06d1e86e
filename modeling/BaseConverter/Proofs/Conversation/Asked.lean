import BaseConverter.Command.Conversation
import BaseConverter.Proofs.Text.Trim
import Mathlib.Data.List.Basic

/-!
# `BaseConverter.Proofs.Conversation.Asked`: what a line asks for

`Line.ofText` tries the forms of a line one after the other. `Line.Asks`
describes each form on its own: white space around a command does not
count, a hover has two words behind it, and everything else is cut at
its first colon as it was typed, white space included.

* `Line.ofText_eq_iff`: the forms exclude each other, and together they
  are all that `Line.ofText` tells.
* `Line.asks_input_of_read`: a colon behind the name of a field always
  makes an input, whatever is typed behind the colon.
-/

set_option autoImplicit false

namespace BaseConverter

/-! ### White space and names -/

/-- A text that is not all white space still begins as it did, trimmed,
when a character that is no white space follows it. -/
theorem Text.exists_trim_append_cons {front : Text} (hfront : trim front ≠ []) {c : Char}
    (hc : isWhite c = false) (rest : Text) :
    ∃ back, c ∈ back ∧ trim (front ++ c :: rest) = trim front ++ back := by
  obtain ⟨after, -, hafter⟩ := exists_eq_trimEnd_append (trimStart front)
  have hne : trimStart front ≠ [] := fun hnil => hfront (by rw [trim, hnil]; rfl)
  have hstart : trimStart (front ++ c :: rest) = trimStart front ++ c :: rest := by
    have hsome : ¬(front.dropWhile isWhite).isEmpty = true := fun hempty =>
      hne (List.isEmpty_iff.mp hempty)
    rw [trimStart, List.dropWhile_append, if_neg hsome, trimStart]
  refine ⟨after ++ c :: trimEnd rest, by simp, ?_⟩
  calc trim (front ++ c :: rest) = trimStart front ++ c :: trimEnd rest := by
        rw [trim, hstart, trimEnd_append_cons _ rest hc]
    _ = trim front ++ after ++ c :: trimEnd rest := by rw [trim, ← hafter]
    _ = trim front ++ (after ++ c :: trimEnd rest) := List.append_assoc ..

/-- Trimming keeps every character that is no white space. -/
theorem Text.mem_trim {text : Text} {c : Char} (hc : isWhite c = false) (h : c ∈ text) :
    c ∈ trim text := by
  obtain ⟨before, after, hbefore, hafter, htext⟩ := padded_trim text
  have hkept : ∀ {white : Text}, allWhite white = true → c ∉ white := by
    intro white hwhite hmem
    rw [List.all_eq_true.mp hwhite c hmem] at hc
    exact absurd hc (by decide)
  rw [htext, List.mem_append, List.mem_append] at h
  rcases h with (h | h) | h
  · exact absurd h (hkept hbefore)
  · exact h
  · exact absurd h (hkept hafter)

/-- A field is found by one of its names. -/
theorem Field.mem_names_of_read {text : Text} {field : Field} (h : Field.read text = .ok field) :
    ((Text.trim text).toLower, field) ∈ Field.names := by
  unfold Field.read at h
  split at h
  · next found hfound =>
      obtain ⟨front, back, hnames, -⟩ := List.lookup_eq_some_iff.mp hfound
      rw [hnames, ← Except.ok.inj h]
      exact List.mem_append_right front List.mem_cons_self
  · cases h

/-- The field that a text names is the field that a command finds. -/
theorem readField_of_read {name : Text} {field : Field} (h : Field.read name = .ok field) :
    readField name = .ok field := by
  rw [readField, h]
  rfl

namespace Line

/-- The commands that are one word. -/
def commands : List Text := ["quit".toList, "exit".toList, "clear".toList, "leave".toList]

/-- A line that ends the conversation. -/
def Ends (line : Text) : Prop :=
  Text.trim line = "quit".toList ∨ Text.trim line = "exit".toList

/-- A line with something in it, and no command. -/
structure NoCommand (line : Text) : Prop where
  not_white : Text.trim line ≠ []
  not_command : Text.trim line ∉ commands
  not_hover : ¬hoverCommand <+: Text.trim line

/-- What stands behind a colon, without the one space that belongs to the
colon. -/
def behindColon : Text → Text
  | ' ' :: text => text
  | text => text

/-- What a line asks for, form by form. -/
inductive Asks (line : Text) : Line → Prop where
  | empty (h : Text.trim line = []) : Asks line .empty
  | quit (h : Ends line) : Asks line .quit
  | clear (h : Text.trim line = "clear".toList) : Asks line .clear
  | leave (h : Text.trim line = "leave".toList) : Asks line .leave
  /-- Exactly two words stand behind the command. -/
  | hover {rest field position : Text} (hcommand : Text.trim line = hoverCommand ++ rest)
      (hwords : words rest = [field, position]) : Asks line (.hover field position)
  | badHover {rest : Text} (hcommand : Text.trim line = hoverCommand ++ rest)
      (hwords : (words rest).length ≠ 2) : Asks line .badHover
  /-- The first colon is the one that counts. -/
  | input {field rest : Text} (hcommand : NoCommand line) (hcolon : ':' ∉ field)
      (hline : line = field ++ ':' :: rest) : Asks line (.input field (behindColon rest))
  | unknown (hcommand : NoCommand line) (hcolon : ':' ∉ line) : Asks line .unknown

/-! ### One form at a time -/

/-- Exactly two words make a hover. -/
theorem ofHoverWords_of_length_ne {texts : List Text} (h : texts.length ≠ 2) :
    ofHoverWords texts = badHover := by
  unfold ofHoverWords
  split
  · exact absurd rfl h
  · rfl

/-- A line that begins with the command asks for a hover. -/
theorem ofText_hover {line rest : Text} (h : Text.trim line = hoverCommand ++ rest) :
    ofText line = ofHoverWords (words rest) := by
  have hbegins : hoverCommand <+: Text.trim line := ⟨rest, h.symm⟩
  have hwhite : Text.trim line ≠ [] := by
    rw [h]
    exact List.append_ne_nil_of_left_ne_nil (by decide) rest
  -- The other commands do not begin with this one.
  have hcommands : ∀ command ∈ commands, ¬hoverCommand <+: command := by decide
  have hcommand : Text.trim line ∉ commands := fun hmem => hcommands _ hmem hbegins
  simp only [commands, List.mem_cons, List.not_mem_nil, or_false, not_or] at hcommand
  rw [← List.isPrefixOf_iff_prefix] at hbegins
  simp only [ofText, hwhite, hcommand, hbegins, or_self, if_false, if_true]
  rw [h, List.drop_left]

/-- A line without a command is cut at its colon. -/
theorem NoCommand.ofText_eq {line : Text} (h : NoCommand line) :
    ofText line = ofAssignment line := by
  have hcommand := h.not_command
  have hhover := h.not_hover
  simp only [commands, List.mem_cons, List.not_mem_nil, or_false, not_or] at hcommand
  rw [← List.isPrefixOf_iff_prefix] at hhover
  simp only [ofText, h.not_white, hcommand, hhover, or_self, if_false]
  rfl

/-- Without a colon there is no assignment. -/
theorem ofAssignment_of_not_mem {line : Text} (h : ':' ∉ line) : ofAssignment line = unknown := by
  have hall : line.dropWhile (· ≠ ':') = [] := by
    rw [List.dropWhile_eq_nil_iff]
    intro c hc
    simpa using fun heq : c = ':' => h (heq ▸ hc)
  rw [ofAssignment, hall]

/-- The first colon ends the name of the field. -/
theorem ofAssignment_colon {field : Text} (h : ':' ∉ field) (rest : Text) :
    ofAssignment (field ++ ':' :: rest) = input field (behindColon rest) := by
  have hall : ∀ c ∈ field, decide (c ≠ ':') = true := by
    intro c hc
    simpa using fun heq : c = ':' => h (heq ▸ hc)
  have hdrop : (field ++ ':' :: rest).dropWhile (· ≠ ':') = ':' :: rest := by
    rw [List.dropWhile_append_of_pos hall]
    rfl
  have htake : (field ++ ':' :: rest).takeWhile (· ≠ ':') = field := by
    rw [List.takeWhile_append_of_pos hall]
    simp
  rw [ofAssignment, hdrop]
  unfold behindColon
  split <;> simp_all

/-! ### All forms together -/

/-- The forms exclude each other. -/
theorem Asks.ofText_eq {line : Text} {asked : Line} (h : Asks line asked) :
    ofText line = asked := by
  cases h with
  | empty h => simp [ofText, h]
  | quit h => rcases h with h | h <;> simp [ofText, h]
  | clear h => simp [ofText, h]
  | leave h => simp [ofText, h]
  | hover hcommand hwords =>
      rw [ofText_hover hcommand, hwords]
      rfl
  | badHover hcommand hwords => rw [ofText_hover hcommand, ofHoverWords_of_length_ne hwords]
  | input hcommand hcolon hline =>
      rw [hcommand.ofText_eq, hline, ofAssignment_colon hcolon]
  | unknown hcommand hcolon => rw [hcommand.ofText_eq, ofAssignment_of_not_mem hcolon]

/-- Every line has one of the forms. -/
theorem exists_asks (line : Text) : ∃ asked, Asks line asked := by
  -- The forms are tried in the order in which `ofText` tries them.
  by_cases hwhite : Text.trim line = []
  · exact ⟨_, .empty hwhite⟩
  by_cases hcommand : Text.trim line ∈ commands
  · simp only [commands, List.mem_cons, List.not_mem_nil, or_false] at hcommand
    rcases hcommand with h | h | h | h
    · exact ⟨_, .quit (.inl h)⟩
    · exact ⟨_, .quit (.inr h)⟩
    · exact ⟨_, .clear h⟩
    · exact ⟨_, .leave h⟩
  by_cases hhover : hoverCommand <+: Text.trim line
  · obtain ⟨rest, hrest⟩ := hhover
    by_cases hwords : (words rest).length = 2
    · obtain ⟨field, position, hpair⟩ := List.length_eq_two.mp hwords
      exact ⟨_, .hover hrest.symm hpair⟩
    · exact ⟨_, .badHover hrest.symm hwords⟩
  have hnone : NoCommand line := ⟨hwhite, hcommand, hhover⟩
  by_cases hcolon : ':' ∈ line
  · obtain ⟨field, rest, hline, hfield⟩ := List.eq_append_cons_of_mem hcolon
    exact ⟨_, .input hnone hfield hline⟩
  · exact ⟨_, .unknown hnone hcolon⟩

/-- What a line is taken for is the form that it has. -/
theorem ofText_eq_iff (line : Text) (asked : Line) : ofText line = asked ↔ Asks line asked := by
  refine ⟨?_, Asks.ofText_eq⟩
  rintro rfl
  obtain ⟨asked, h⟩ := exists_asks line
  rwa [h.ofText_eq]

/-! ### The name of a field -/

/-- The name of a field has no colon, and a hover does not begin with it. -/
theorem hoverCommand_of_mem_names :
    ∀ name ∈ Field.names, ':' ∉ name.1
      ∧ ¬name.1 <+: hoverCommand ∧ ¬hoverCommand <+: name.1 := by
  decide

/-- The name of a field does not have a colon, in whatever way it is typed. -/
theorem colon_not_mem_of_read {name : Text} {field : Field} (h : Field.read name = .ok field) :
    ':' ∉ name := by
  intro hmem
  have hlower : ':' ∈ (Text.trim name).toLower :=
    List.mem_map_of_mem (f := Char.toLower) (Text.mem_trim (by decide) hmem)
  exact (hoverCommand_of_mem_names _ (Field.mem_names_of_read h)).1 hlower

/-- Behind the name of a field and a colon, nothing makes a line a
command. -/
theorem noCommand_of_read {name : Text} {field : Field} (h : Field.read name = .ok field)
    (rest : Text) : NoCommand (name ++ ':' :: rest) := by
  obtain ⟨-, hshort, hlong⟩ := hoverCommand_of_mem_names _ (Field.mem_names_of_read h)
  have hname : Text.trim name ≠ [] := by
    intro hnil
    rw [hnil] at hshort
    exact hshort List.nil_prefix
  obtain ⟨back, hcolon, htrim⟩ := Text.exists_trim_append_cons hname (c := ':') (by decide) rest
  have hmem : ':' ∈ Text.trim (name ++ ':' :: rest) := by
    rw [htrim]
    exact List.mem_append_right _ hcolon
  have hcommands : ∀ command ∈ commands, ':' ∉ command := by decide
  refine ⟨List.ne_nil_of_mem hmem, fun hcommand => hcommands _ hcommand hmem, fun hhover => ?_⟩
  -- The command and the name would both begin the line, so one of them begins the other.
  have hbegin : Text.trim name <+: Text.trim (name ++ ':' :: rest) := ⟨back, htrim.symm⟩
  rcases List.prefix_or_prefix_of_prefix hbegin hhover with hbegins | hbegins
  · exact hshort (hbegins.map Char.toLower)
  · exact hlong (hbegins.map Char.toLower)

/-- A colon and a space behind the name of a field make an input of all
that follows, whatever it is. -/
theorem asks_input_of_read {name : Text} {field : Field} (h : Field.read name = .ok field)
    (text : Text) : Asks (name ++ ": ".toList ++ text) (.input name text) := by
  have hline : name ++ ": ".toList ++ text = name ++ ':' :: ' ' :: text := by simp
  rw [hline]
  exact .input (noCommand_of_read h _) (colon_not_mem_of_read h) rfl

end Line

end BaseConverter
