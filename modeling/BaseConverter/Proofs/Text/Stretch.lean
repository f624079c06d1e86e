import BaseConverter.Text.Stretch
import Mathlib.Data.List.Basic
import Mathlib.Data.List.DropRight

/-!
# `BaseConverter.Proofs.Text.Stretch`: where the stretches of a text lie

`Text.stretches` builds its list from the end of the text, one character
at a time. For proofs a text is better cut at its first character outside
the class: what stands in front of it is one stretch or nothing
(`stretches_cut`), and what stands behind it is a shorter text.
`cut_induction` is the induction that follows this cut.

* `mem_stretches_iff`: the stretches of a text are its maximal runs, which
  `MaximalRun` describes without following the text.
* `pairwise_stretches`: the stretches lie in order, with a gap between
  neighbours.
* `exists_stretch_of_append`: what stands behind a position does not move
  the stretch over it.
* `parts_spaced`: the parts of texts joined by single spaces are these
  texts.
-/

set_option autoImplicit false

namespace BaseConverter.Text

/-- A text without a character lies in the class of all others. -/
theorem decide_ne_of_not_mem {text : Text} {c : Char} (h : c ∉ text) :
    ∀ d ∈ text, decide (d ≠ c) = true := by
  intro d hd
  rw [decide_eq_true_eq]
  rintro rfl
  exact h hd

/-! ### Following a text from cut to cut -/

/-- What holds of the texts inside a class, and of a text that is cut at
its first character outside when it holds of what stands behind the cut,
holds of all texts. -/
@[elab_as_elim]
theorem cut_induction (inside : Char → Bool) {motive : Text → Prop}
    (run : ∀ text, (∀ c ∈ text, inside c = true) → motive text)
    (cut : ∀ before c after, (∀ d ∈ before, inside d = true) → inside c = false →
      motive after → motive (before ++ c :: after)) (text : Text) : motive text := by
  -- The text in front of the cut grows while the rest is walked through.
  have hwalk : ∀ rest before : Text, (∀ d ∈ before, inside d = true) →
      (∀ suffix, suffix.length < rest.length → motive suffix) → motive (before ++ rest) := by
    intro rest
    induction rest with
    | nil =>
        intro before hbefore _
        rw [List.append_nil]
        exact run before hbefore
    | cons c rest ih =>
        intro before hbefore hshorter
        cases hc : inside c with
        | false => exact cut before c rest hbefore hc (hshorter rest (Nat.lt_succ_self _))
        | true =>
            have hgrown : ∀ d ∈ before ++ [c], inside d = true := by
              intro d hd
              rcases List.mem_append.mp hd with hd | hd
              · exact hbefore d hd
              · rw [List.mem_singleton.mp hd, hc]
            have hmotive := ih (before ++ [c]) hgrown fun suffix hlt =>
              hshorter suffix (Nat.lt_succ_of_lt hlt)
            rwa [List.append_assoc, List.singleton_append] at hmotive
  induction hlength : text.length using Nat.strongRecOn generalizing text with
  | ind n ih =>
      exact hwalk text [] (List.forall_mem_nil _) fun suffix hlt =>
        ih suffix.length (hlength ▸ hlt) suffix rfl

/-- The stretches of a text inside the class: the text itself, unless it
is empty. -/
def ofRun (start : Nat) (text : Text) : List Stretch :=
  if text = [] then [] else [⟨start, text⟩]

theorem stretches_run {inside : Char → Bool} (start : Nat) {text : Text}
    (h : ∀ c ∈ text, inside c = true) : stretches inside start text = ofRun start text := by
  cases text with
  | nil => rfl
  | cons c rest => exact stretches_of_forall inside start c rest h

/-- The stretches of a text that is cut at its first character outside
the class. -/
theorem stretches_cut {inside : Char → Bool} (start : Nat) {before : Text} {c : Char}
    (after : Text) (hbefore : ∀ d ∈ before, inside d = true) (hc : inside c = false) :
    stretches inside start (before ++ c :: after)
      = ofRun start before ++ stretches inside (start + before.length + 1) after := by
  rw [stretches_append_cons inside start before after hc, stretches_run start hbefore]

theorem mem_ofRun {start : Nat} {text : Text} {stretch : Stretch}
    (h : stretch ∈ ofRun start text) : stretch = ⟨start, text⟩ ∧ text ≠ [] := by
  unfold ofRun at h
  split at h
  · cases h
  · rename_i hne
    exact ⟨List.mem_singleton.mp h, hne⟩

/-! ### Stretches in their text -/

/-- A maximal run of a class of characters, in a text whose first character
has the position `start`: not empty, inside the class, and with an end of
the text or a character outside the class on either side. -/
structure MaximalRun (inside : Char → Bool) (start : Nat) (text : Text) (run : Stretch) : Prop where
  nonempty : run.text ≠ []
  allInside : ∀ c ∈ run.text, inside c = true
  neighbours : ∃ before after, text = before ++ run.text ++ after
    ∧ run.start = start + before.length
    ∧ (∀ c ∈ before.getLast?, inside c = false) ∧ ∀ c ∈ after.head?, inside c = false

/-- Every stretch is a maximal run. -/
theorem maximalRun_of_mem_stretches {inside : Char → Bool} {text : Text} :
    ∀ {start : Nat} {run : Stretch}, run ∈ stretches inside start text →
      MaximalRun inside start text run := by
  induction text using cut_induction inside with
  | run text hrun =>
      intro start run hmem
      rw [stretches_run start hrun] at hmem
      obtain ⟨rfl, hne⟩ := mem_ofRun hmem
      exact ⟨hne, hrun, [], [], by simp, rfl, by simp, by simp⟩
  | cut before c after hbefore hc ih =>
      intro start run hmem
      rw [stretches_cut start after hbefore hc] at hmem
      rcases List.mem_append.mp hmem with hmem | hmem
      · obtain ⟨rfl, hne⟩ := mem_ofRun hmem
        exact ⟨hne, hbefore, [], c :: after, by simp, rfl, by simp, by simpa using hc⟩
      · obtain ⟨hne, hinside, front, back, rfl, hstart, hlast, hhead⟩ := ih hmem
        refine ⟨hne, hinside, before ++ c :: front, back, by simp, ?_, ?_, hhead⟩
        · rw [hstart, List.length_append, List.length_cons]
          omega
        · -- In front of the run stands the cut, or what stands there behind it.
          intro d hd
          rw [List.getLast?_append_of_ne_nil before (List.cons_ne_nil c front)] at hd
          cases front with
          | nil =>
              obtain rfl : c = d := by simpa using hd
              exact hc
          | cons e front =>
              rw [List.getLast?_cons_cons] at hd
              exact hlast d hd

/-- The stretches of a text are its maximal runs. -/
theorem mem_stretches_iff (inside : Char → Bool) (start : Nat) (text : Text) (run : Stretch) :
    run ∈ stretches inside start text ↔ MaximalRun inside start text run := by
  constructor
  · exact maximalRun_of_mem_stretches
  · rintro ⟨hne, hinside, before, after, rfl, hstart, hlast, hhead⟩
    -- The run is a stretch of what begins with it, and then of the whole text.
    have hfront : run ∈ stretches inside run.start (run.text ++ after) := by
      have hrun : ofRun run.start run.text = [run] := if_neg hne
      cases after with
      | nil =>
          rw [List.append_nil, stretches_run run.start hinside, hrun]
          exact List.mem_singleton_self run
      | cons c after =>
          rw [stretches_cut run.start after hinside (hhead c rfl), hrun]
          exact List.mem_cons_self
    rcases List.eq_nil_or_concat before with rfl | ⟨front, c, rfl⟩
    · rw [List.nil_append]
      rw [List.length_nil, Nat.add_zero] at hstart
      rwa [hstart] at hfront
    · have hc : inside c = false := hlast c (by simp)
      have hstart' : run.start = start + front.length + 1 := by simpa [Nat.add_assoc] using hstart
      rw [List.append_assoc, List.concat_eq_append, List.append_assoc, List.singleton_append,
        stretches_append_cons inside start front _ hc, ← hstart']
      exact List.mem_append_right _ hfront

/-- A stretch is a piece of the text at the position that it tells. -/
theorem exists_eq_append_of_mem_stretches {inside : Char → Bool} {text : Text} {start : Nat}
    {stretch : Stretch} (h : stretch ∈ stretches inside start text) :
    stretch.text ≠ [] ∧ (∀ c ∈ stretch.text, inside c = true)
      ∧ ∃ before after, text = before ++ stretch.text ++ after
        ∧ stretch.start = start + before.length := by
  obtain ⟨hne, hinside, before, after, htext, hstart, -, -⟩ := maximalRun_of_mem_stretches h
  exact ⟨hne, hinside, before, after, htext, hstart⟩

/-- At every position of a stretch the text has a character of the
class. -/
theorem exists_inside_of_mem_stretches {inside : Char → Bool} {text : Text} {stretch : Stretch}
    (h : stretch ∈ stretches inside 0 text) {position : Nat} (hlo : stretch.start ≤ position)
    (hhi : position < stretch.stop) : ∃ c, text[position]? = some c ∧ inside c = true := by
  obtain ⟨-, hinside, before, after, rfl, hstart⟩ := exists_eq_append_of_mem_stretches h
  rw [Stretch.stop] at hhi
  have hoffset : position - before.length < stretch.text.length := by omega
  refine ⟨stretch.text[position - before.length], ?_, hinside _ (List.getElem_mem hoffset)⟩
  rw [List.append_assoc, List.getElem?_append_right (by omega), List.getElem?_append_left hoffset,
    List.getElem?_eq_getElem hoffset]

/-- What stands in a text without a character outside the class lies in one
of the stretches, with what stretches further on either side. -/
theorem exists_stretch_around {inside : Char → Bool} (start : Nat) (before after : Text)
    {core : Text} (hne : core ≠ []) (hcore : ∀ c ∈ core, inside c = true) :
    ∃ stretch ∈ stretches inside start (before ++ core ++ after), ∃ front back,
      stretch.text = front ++ core ++ back ∧ front <:+ before ∧ back <+: after
        ∧ stretch.start + front.length = start + before.length := by
  have hbefore := List.rdropWhile_append_rtakeWhile (p := inside) (l := before)
  have hafter := List.takeWhile_append_dropWhile (p := inside) (l := after)
  have hlength := congrArg List.length hbefore
  rw [List.length_append] at hlength
  refine ⟨⟨start + (before.rdropWhile inside).length,
      before.rtakeWhile inside ++ core ++ after.takeWhile inside⟩, ?_, _, _, rfl,
    List.rtakeWhile_suffix inside before, List.takeWhile_prefix inside, by simp only; omega⟩
  rw [mem_stretches_iff]
  refine ⟨?_, ?_, before.rdropWhile inside, after.dropWhile inside, ?_, rfl, ?_, ?_⟩
  · simp [hne]
  · intro c hc
    rcases List.mem_append.mp hc with hc | hc
    · rcases List.mem_append.mp hc with hc | hc
      · exact List.mem_rtakeWhile_imp hc
      · exact hcore c hc
    · exact List.mem_takeWhile_imp hc
  · calc before ++ core ++ after
      _ = before.rdropWhile inside ++ before.rtakeWhile inside ++ core
            ++ (after.takeWhile inside ++ after.dropWhile inside) := by rw [hbefore, hafter]
      _ = before.rdropWhile inside ++ (before.rtakeWhile inside ++ core ++ after.takeWhile inside)
            ++ after.dropWhile inside := by simp only [List.append_assoc]
  · intro c hc
    obtain ⟨hdrop, rfl⟩ := List.mem_getLast?_eq_getLast hc
    simpa using List.rdropWhile_last_not inside before hdrop
  · intro c hc
    have hstop := List.head?_dropWhile_not inside after
    rw [Option.mem_def.mp hc] at hstop
    simpa using hstop

/-- A character of the class is in one of the stretches. -/
theorem exists_stretch_of_mem {inside : Char → Bool} {text : Text} {c : Char}
    (hc : inside c = true) {start : Nat} (hmem : c ∈ text) :
    ∃ stretch ∈ stretches inside start text, c ∈ stretch.text := by
  obtain ⟨before, after, rfl⟩ := List.append_of_mem hmem
  obtain ⟨stretch, hstretch, front, back, htext, -⟩ :=
    exists_stretch_around start before after (List.cons_ne_nil c []) (List.forall_mem_singleton.mpr hc)
  rw [List.append_assoc] at hstretch
  refine ⟨stretch, hstretch, ?_⟩
  rw [htext]
  simp

/-- A character that is no space is in one of the parts. -/
theorem exists_part_of_mem {text : Text} {c : Char} (hmem : c ∈ text) (hc : c ≠ ' ') :
    ∃ part ∈ parts text, c ∈ part.text := by
  exact @exists_stretch_of_mem (· ≠ ' ') text c (decide_eq_true hc) 0 hmem

/-- A stretch is not empty and ends with the text at the latest. -/
theorem bounds_of_mem_stretches {inside : Char → Bool} {start : Nat} {text : Text}
    {stretch : Stretch} (h : stretch ∈ stretches inside start text) :
    stretch.start < stretch.stop ∧ stretch.stop ≤ start + text.length := by
  obtain ⟨hne, -, before, after, rfl, hstart⟩ := exists_eq_append_of_mem_stretches h
  have hpos : 0 < stretch.text.length := List.length_pos_iff.mpr hne
  simp only [Stretch.stop, List.length_append]
  omega

/-- The stretches lie in order, and there is a gap between neighbours. -/
theorem pairwise_stretches (inside : Char → Bool) (start : Nat) (text : Text) :
    (stretches inside start text).Pairwise fun first second => first.stop < second.start := by
  induction text using cut_induction inside generalizing start with
  | run text hrun =>
      rw [stretches_run start hrun, ofRun]
      split
      · exact .nil
      · exact List.pairwise_singleton _ _
  | cut before c after hbefore hc ih =>
      rw [stretches_cut start after hbefore hc, List.pairwise_append]
      refine ⟨?_, ih _, ?_⟩
      · unfold ofRun
        split
        · exact .nil
        · exact List.pairwise_singleton _ _
      · intro first hfirst second hsecond
        obtain ⟨rfl, -⟩ := mem_ofRun hfirst
        have hstart := start_le_of_mem_stretches inside _ after second hsecond
        simp only [Stretch.stop]
        omega

/-- The numbers of the stretches do not move them. -/
theorem pairwise_zipIdx_stretches (inside : Char → Bool) (start : Nat) (text : Text) :
    (stretches inside start text).zipIdx.Pairwise fun first second =>
      first.1.stop < second.1.start := by
  have hordered := pairwise_stretches inside start text
  rwa [← List.zipIdx_map_fst 0 (stretches inside start text), List.pairwise_map] at hordered

/-- In front of the first stretch there is no character of the class. -/
theorem exists_eq_append_of_first {inside : Char → Bool} {text : Text} {start : Nat}
    {stretch : Stretch} (h : (stretches inside start text)[0]? = some stretch) :
    ∃ before after, text = before ++ stretch.text ++ after
      ∧ stretch.start = start + before.length ∧ ∀ c ∈ before, inside c = false := by
  induction text using cut_induction inside generalizing start with
  | run text hrun =>
      rw [stretches_run start hrun] at h
      obtain ⟨rfl, -⟩ := mem_ofRun (List.mem_of_getElem? h)
      exact ⟨[], [], (List.append_nil text).symm, rfl, List.forall_mem_nil _⟩
  | cut before c after hbefore hc ih =>
      rw [stretches_cut start after hbefore hc] at h
      by_cases hnil : before = []
      · subst hnil
        obtain ⟨front, back, htext, hstart, hfront⟩ := ih h
        refine ⟨c :: front, back, congrArg (List.cons c) htext, ?_,
          List.forall_mem_cons.mpr ⟨hc, hfront⟩⟩
        rw [hstart, List.length_nil, List.length_cons]
        omega
      · rw [ofRun, if_neg hnil] at h
        obtain rfl := Option.some.inj h
        exact ⟨[], c :: after, rfl, rfl, List.forall_mem_nil _⟩

/-! ### Moving and cutting a text -/

/-- The stretches of a text move with it. -/
theorem stretches_add (inside : Char → Bool) (shift start : Nat) (text : Text) :
    stretches inside (shift + start) text
      = (stretches inside start text).map fun stretch => ⟨shift + stretch.start, stretch.text⟩ := by
  induction text using cut_induction inside generalizing start with
  | run text hrun =>
      rw [stretches_run _ hrun, stretches_run _ hrun, ofRun, ofRun]
      split <;> rfl
  | cut before c after hbefore hc ih =>
      have hmoved := ih (start + before.length + 1)
      rw [stretches_cut _ after hbefore hc, stretches_cut _ after hbefore hc, List.map_append,
        ← hmoved, ofRun, ofRun]
      simp only [Nat.add_assoc]
      split <;> rfl

/-- A text that begins inside the class has all of this beginning in its first
stretch. -/
theorem exists_stretches_eq_cons {inside : Char → Bool} (start : Nat) {front : Text}
    (hne : front ≠ []) (hfront : ∀ c ∈ front, inside c = true) (back : Text) :
    ∃ kept others, stretches inside start (front ++ back) = ⟨start, front ++ kept⟩ :: others
      ∧ ∀ stretch ∈ others, start + front.length < stretch.start := by
  have hfirst : ∀ kept : Text, ofRun start (front ++ kept) = [⟨start, front ++ kept⟩] := by
    intro kept
    exact if_neg (List.append_ne_nil_of_left_ne_nil hne kept)
  induction back using cut_induction inside with
  | run back hback =>
      refine ⟨back, [], ?_, List.forall_mem_nil _⟩
      rw [stretches_run start (List.forall_mem_append.mpr ⟨hfront, hback⟩), hfirst]
  | cut before c after hbefore hc _ =>
      refine ⟨before, stretches inside (start + (front ++ before).length + 1) after, ?_, ?_⟩
      · rw [← List.append_assoc,
          stretches_cut start after (List.forall_mem_append.mpr ⟨hfront, hbefore⟩) hc, hfirst]
        rfl
      · intro stretch hmem
        have hstart := start_le_of_mem_stretches inside _ after stretch hmem
        rw [List.length_append] at hstart
        omega

/-- The stretch over a position has the same number and begins at the same
place when the text is cut off behind the position. Only its end may go
missing. -/
theorem exists_stretch_of_append {inside : Char → Bool} {front back : Text} {start index : Nat}
    {stretch : Stretch} (h : (stretches inside start (front ++ back))[index]? = some stretch)
    {position : Nat} (hlo : stretch.start ≤ position) (hhi : position < stretch.stop)
    (hfront : position < start + front.length) :
    ∃ text, text <+: stretch.text ∧ position < stretch.start + text.length
      ∧ (stretches inside start front)[index]? = some ⟨stretch.start, text⟩ := by
  induction front using cut_induction inside generalizing start index with
  | run front hrun =>
      have hle := start_le_of_mem_stretches inside start _ stretch (List.mem_of_getElem? h)
      have hne : front ≠ [] := by
        rintro rfl
        rw [List.length_nil] at hfront
        omega
      obtain ⟨kept, others, hlist, hothers⟩ := exists_stretches_eq_cons start hne hrun back
      rw [hlist] at h
      cases index with
      | zero =>
          obtain rfl := Option.some.inj h
          refine ⟨front, List.prefix_append front kept, hfront, ?_⟩
          rw [stretches_run start hrun, ofRun, if_neg hne]
          rfl
      | succ index =>
          have hgap := hothers stretch (List.mem_of_getElem? h)
          omega
  | cut before c after hbefore hc ih =>
      rw [List.append_assoc, List.cons_append, stretches_cut start _ hbefore hc] at h
      rw [stretches_cut start after hbefore hc]
      rcases Nat.lt_or_ge index (ofRun start before).length with hindex | hindex
      · rw [List.getElem?_append_left hindex] at h ⊢
        exact ⟨stretch.text, List.prefix_refl _, hhi, h⟩
      · rw [List.getElem?_append_right hindex] at h ⊢
        refine ih h ?_
        rw [List.length_append, List.length_cons] at hfront
        omega

/-! ### The texts of the stretches -/

/-- The stretches of a text without their positions. -/
def pieces (inside : Char → Bool) (text : Text) : List Text :=
  (stretches inside 0 text).map Stretch.text

theorem map_text_ofRun (start : Nat) (text : Text) :
    (ofRun start text).map Stretch.text = if text = [] then [] else [text] := by
  unfold ofRun
  split <;> rfl

/-- Where a text begins has no part in the texts of its stretches. -/
theorem map_text_stretches (inside : Char → Bool) (start : Nat) (text : Text) :
    (stretches inside start text).map Stretch.text = pieces inside text := by
  have hany : ∀ other, (stretches inside start text).map Stretch.text
      = (stretches inside other text).map Stretch.text := by
    induction text using cut_induction inside generalizing start with
    | run text hrun =>
        intro other
        rw [stretches_run start hrun, stretches_run other hrun, map_text_ofRun, map_text_ofRun]
    | cut before c after hbefore hc ih =>
        intro other
        rw [stretches_cut start after hbefore hc, stretches_cut other after hbefore hc,
          List.map_append, List.map_append, map_text_ofRun, map_text_ofRun, ih]
  exact hany 0

/-- A text inside the class, if not empty, is its own only piece. -/
theorem pieces_of_forall {inside : Char → Bool} {text : Text} (hne : text ≠ [])
    (h : ∀ c ∈ text, inside c = true) : pieces inside text = [text] := by
  rw [pieces, stretches_run 0 h, map_text_ofRun, if_neg hne]

/-- A character outside the class at the head belongs to no piece. -/
theorem pieces_cons {inside : Char → Bool} {c : Char} (after : Text) (hc : inside c = false) :
    pieces inside (c :: after) = pieces inside after := by
  have hcut := stretches_cut 0 after (List.forall_mem_nil _) hc
  rw [List.nil_append] at hcut
  rw [pieces, hcut, List.map_append, map_text_stretches, map_text_ofRun]
  rfl

/-- What stands in front of the first character outside the class is the
first piece. -/
theorem pieces_append_cons {inside : Char → Bool} {before : Text} {c : Char} (after : Text)
    (hne : before ≠ []) (hbefore : ∀ d ∈ before, inside d = true) (hc : inside c = false) :
    pieces inside (before ++ c :: after) = before :: pieces inside after := by
  rw [pieces, stretches_cut 0 after hbefore hc, List.map_append, map_text_stretches,
    map_text_ofRun, if_neg hne]
  rfl

/-! ### Texts joined by spaces -/

/-- The stretches that texts take up when they are written from a
position on with one space between neighbours. -/
def placed (start : Nat) : List Text → List Stretch
  | [] => []
  | text :: texts => ⟨start, text⟩ :: placed (start + text.length + 1) texts

/-- The position of the text with `index` texts in front of it, when texts
are joined by single spaces. -/
def spacedStart : List Text → Nat → Nat
  | text :: texts, index + 1 => text.length + 1 + spacedStart texts index
  | _, _ => 0

theorem spaced_cons_cons (first second : Text) (texts : List Text) :
    spaced (first :: second :: texts) = first ++ ' ' :: spaced (second :: texts) := by
  simp [spaced, List.intercalate_cons_cons]

/-- The characters of joined texts are those of the texts, and spaces. -/
theorem eq_or_exists_of_mem_spaced {texts : List Text} {c : Char} (h : c ∈ spaced texts) :
    c = ' ' ∨ ∃ text ∈ texts, c ∈ text := by
  induction texts with
  | nil => cases h
  | cons first texts ih =>
      cases texts with
      | nil => exact .inr ⟨first, List.mem_cons_self, by simpa [spaced] using h⟩
      | cons second texts =>
          rw [spaced_cons_cons, List.mem_append, List.mem_cons] at h
          rcases h with h | h | h
          · exact .inr ⟨first, List.mem_cons_self, h⟩
          · exact .inl h
          · refine (ih h).imp_right ?_
            rintro ⟨text, hmem, hc⟩
            exact ⟨text, List.mem_cons_of_mem first hmem, hc⟩

/-- No character of the texts is lost. -/
theorem mem_spaced_of_mem {texts : List Text} {text : Text} {c : Char} (hc : c ∈ text)
    (h : text ∈ texts) : c ∈ spaced texts := by
  induction texts with
  | nil => cases h
  | cons first texts ih =>
      cases texts with
      | nil =>
          rw [List.mem_singleton] at h
          simpa [spaced, h] using hc
      | cons second texts =>
          rw [spaced_cons_cons, List.mem_append]
          rcases List.mem_cons.mp h with rfl | h
          · exact .inl hc
          · exact .inr (List.mem_cons_of_mem ' ' (ih h))

theorem getElem?_placed (start : Nat) (texts : List Text) (index : Nat) :
    (placed start texts)[index]?
      = texts[index]?.map fun text => ⟨start + spacedStart texts index, text⟩ := by
  induction texts generalizing start index with
  | nil => rfl
  | cons text texts ih =>
      cases index with
      | zero => rfl
      | succ index =>
          rw [placed, List.getElem?_cons_succ, List.getElem?_cons_succ, ih, spacedStart]
          simp only [Nat.add_assoc]

/-- Texts without spaces, none of them empty, are the parts of the text
that they give when joined by single spaces. -/
theorem stretches_spaced (start : Nat) {texts : List Text}
    (h : ∀ text ∈ texts, text ≠ [] ∧ ' ' ∉ text) :
    stretches (· ≠ ' ') start (spaced texts) = placed start texts := by
  induction texts generalizing start with
  | nil => rfl
  | cons first texts ih =>
      obtain ⟨hne, hspace⟩ := h first List.mem_cons_self
      have hinside := decide_ne_of_not_mem hspace
      have hrun : ofRun start first = [⟨start, first⟩] := if_neg hne
      cases texts with
      | nil => rw [spaced, List.intercalate_singleton, stretches_run start hinside, hrun]; rfl
      | cons second texts =>
          have hrest := ih (start + first.length + 1) fun text hmem =>
            h text (List.mem_cons_of_mem first hmem)
          rw [spaced_cons_cons, stretches_cut start _ hinside (by rfl), hrun, hrest]
          rfl

theorem parts_spaced {texts : List Text} (h : ∀ text ∈ texts, text ≠ [] ∧ ' ' ∉ text) :
    parts (spaced texts) = placed 0 texts :=
  stretches_spaced 0 h

end BaseConverter.Text
