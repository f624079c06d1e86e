import BaseConverter.Command.Arguments

/-!
# `BaseConverter.Proofs.Command.Flags`: flags may stand anywhere

An argument with two hyphens in front is a flag, and the others are positional.
There are three kinds of arguments, and the reader treats each in one way: a flag
that is known sets the format, one that is unknown ends the reading, and every
other argument is kept (`readFrom_flag`, `readFrom_of_isUnknown`,
`readFrom_of_not_flag`). A number with a minus has one hyphen only, so it is kept.

What is read is described for the list as a whole. `FirstUnknown` tells which
flag a list is refused for, and `LastFlag` tells the format.

* `Arguments.read_separates` is the main statement.
-/

set_option autoImplicit false

namespace BaseConverter.Arguments

/-! ### Three kinds of arguments -/

/-- The flag that asks for a format. -/
def flag : Format → Text
  | .text => "--text".toList
  | .json => "--json".toList

/-- An argument is written like a flag. -/
def WrittenAsFlag (argument : Text) : Prop :=
  "--".toList <+: argument

instance (argument : Text) : Decidable (WrittenAsFlag argument) :=
  inferInstanceAs (Decidable (_ <+: _))

/-- An argument is written like a flag and asks for no format. -/
structure IsUnknown (argument : Text) : Prop where
  written : WrittenAsFlag argument
  unknown : ∀ format, argument ≠ flag format

theorem writtenAsFlag_flag (format : Format) : WrittenAsFlag (flag format) := by
  cases format <;> decide

theorem not_isUnknown_flag (format : Format) : ¬IsUnknown (flag format) :=
  fun h => h.unknown format rfl

/-- The flags of the formats are different. -/
theorem flag_injective {format other : Format} (h : flag format = flag other) : format = other := by
  cases format <;> cases other <;> first | rfl | exact absurd h (by decide)

theorem isFlag_iff (argument : Text) : isFlag argument = true ↔ WrittenAsFlag argument :=
  List.isPrefixOf_iff_prefix

theorem formatOf?_flag (format : Format) : formatOf? (flag format) = some format := by
  cases format <;> rfl

/-- Only its flag asks for a format. -/
theorem eq_flag_of_formatOf? {argument : Text} {format : Format}
    (h : formatOf? argument = some format) : argument = flag format := by
  unfold formatOf? at h
  split at h
  · rename_i hjson
    cases h
    exact hjson
  · split at h
    · rename_i htext
      cases h
      exact htext
    · cases h

/-- An argument is a known flag, an unknown one, or no flag. -/
theorem flag_or_isUnknown_or_not_flag (argument : Text) :
    (∃ format, argument = flag format) ∨ IsUnknown argument ∨ ¬WrittenAsFlag argument := by
  by_cases hwritten : WrittenAsFlag argument
  · by_cases hknown : ∃ format, argument = flag format
    · exact .inl hknown
    · exact .inr (.inl ⟨hwritten, not_exists.mp hknown⟩)
  · exact .inr (.inr hwritten)

/-! ### One step of the reader -/

section
variable (start : Format) {argument : Text} (rest : List Text)

/-- A known flag sets the format for what follows it. -/
theorem readFrom_flag (format : Format) :
    readFrom start (flag format :: rest) = readFrom format rest := by
  simp only [readFrom, (isFlag_iff _).mpr (writtenAsFlag_flag format), formatOf?_flag, if_true]

/-- An unknown flag ends the reading, whatever follows it. -/
theorem readFrom_of_isUnknown (h : IsUnknown argument) :
    readFrom start (argument :: rest) = .error (.unknownFlag argument) := by
  have hnone : formatOf? argument = none := by
    rw [Option.eq_none_iff_forall_ne_some]
    exact fun format hformat => h.unknown format (eq_flag_of_formatOf? hformat)
  simp only [readFrom, (isFlag_iff _).mpr h.written, hnone, if_true]

/-- Any other argument is put in front of the positional ones. -/
theorem readFrom_of_not_flag (h : ¬WrittenAsFlag argument) :
    readFrom start (argument :: rest)
      = (readFrom start rest).map fun arguments =>
          { arguments with positional := argument :: arguments.positional } := by
  rw [readFrom, if_neg (mt (isFlag_iff argument).mp h)]

end

/-! ### Lists that are refused -/

/-- An unknown flag stands in a list, and none stands in front of it. -/
def FirstUnknown (list : List Text) (argument : Text) : Prop :=
  IsUnknown argument
    ∧ ∃ before after, list = before ++ argument :: after ∧ ∀ other ∈ before, ¬IsUnknown other

section
variable {argument unknown : Text} {rest : List Text}

/-- Nothing behind an unknown flag is looked at. -/
theorem firstUnknown_cons_of_isUnknown (h : IsUnknown argument) :
    FirstUnknown (argument :: rest) unknown ↔ unknown = argument := by
  constructor
  · rintro ⟨-, before, after, hlist, hbefore⟩
    cases before with
    | nil => exact (List.cons.inj hlist).1.symm
    | cons other before =>
        obtain ⟨rfl, -⟩ := List.cons.inj hlist
        exact absurd h (hbefore argument List.mem_cons_self)
  · rintro rfl
    exact ⟨h, [], rest, rfl, List.forall_mem_nil _⟩

/-- In front of the other arguments, one that is not unknown does not count. -/
theorem firstUnknown_cons_of_not_isUnknown (h : ¬IsUnknown argument) :
    FirstUnknown (argument :: rest) unknown ↔ FirstUnknown rest unknown := by
  constructor
  · rintro ⟨hunknown, before, after, hlist, hbefore⟩
    cases before with
    | nil =>
        obtain ⟨rfl, -⟩ := List.cons.inj hlist
        exact absurd hunknown h
    | cons other before =>
        obtain ⟨-, hrest⟩ := List.cons.inj hlist
        exact ⟨hunknown, before, after, hrest, (List.forall_mem_cons.mp hbefore).2⟩
  · rintro ⟨hunknown, before, after, rfl, hbefore⟩
    exact ⟨hunknown, argument :: before, after, rfl, List.forall_mem_cons.mpr ⟨h, hbefore⟩⟩

end

/-- A list with an unknown flag has a first one. -/
theorem exists_firstUnknown_iff (list : List Text) :
    (∃ argument, FirstUnknown list argument) ↔ ∃ argument ∈ list, IsUnknown argument := by
  induction list with
  | nil => simp [FirstUnknown]
  | cons argument rest ih =>
      by_cases h : IsUnknown argument
      · simp [firstUnknown_cons_of_isUnknown h, h]
      · simp [firstUnknown_cons_of_not_isUnknown h, h, ih]

/-- A list is refused for its first unknown flag. -/
theorem readFrom_eq_error_iff (start : Format) (list : List Text) (failure : Failure) :
    readFrom start list = .error failure
      ↔ ∃ argument, FirstUnknown list argument ∧ failure = .unknownFlag argument := by
  induction list generalizing start with
  | nil => simp [readFrom, FirstUnknown]
  | cons argument rest ih =>
      rcases flag_or_isUnknown_or_not_flag argument with ⟨format, rfl⟩ | hunknown | hkept
      · simp only [readFrom_flag, ih, firstUnknown_cons_of_not_isUnknown (not_isUnknown_flag format)]
      · simp [readFrom_of_isUnknown start rest hunknown, firstUnknown_cons_of_isUnknown hunknown,
          eq_comm]
      · have hknown : ¬IsUnknown argument := fun h => hkept h.written
        rw [readFrom_of_not_flag start rest hkept]
        simp only [firstUnknown_cons_of_not_isUnknown hknown, ← ih start]
        cases readFrom start rest <;> simp [Except.map]

/-! ### Lists that are read -/

/-- The format that the last flag of a list asks for, behind flags that asked for
`start`. -/
inductive LastFlag (start : Format) (list : List Text) : Format → Prop where
  /-- There is no flag. -/
  | absent (h : ∀ argument ∈ list, ¬WrittenAsFlag argument) : LastFlag start list start
  /-- The flag of the format, and no flag behind it. -/
  | last (before after : List Text) {format : Format} (hlist : list = before ++ flag format :: after)
      (h : ∀ argument ∈ after, ¬WrittenAsFlag argument) : LastFlag start list format

section
variable {start format : Format} {argument : Text} {list rest : List Text}

/-- What follows a flag is looked at behind this flag. -/
theorem lastFlag_flag_cons_iff {first : Format} :
    LastFlag start (flag first :: rest) format ↔ LastFlag first rest format := by
  constructor
  · intro h
    cases h with
    | absent h => exact absurd (writtenAsFlag_flag first) (h _ List.mem_cons_self)
    | last before after hlist h =>
        cases before with
        | nil =>
            obtain ⟨hflag, rfl⟩ := List.cons.inj hlist
            obtain rfl := flag_injective hflag
            exact .absent h
        | cons other before => exact .last before after (List.cons.inj hlist).2 h
  · intro h
    cases h with
    | absent h => exact .last [] rest rfl h
    | last before after hlist h =>
        exact .last (flag first :: before) after (congrArg (flag first :: ·) hlist) h

/-- An argument that is no flag does not count. -/
theorem lastFlag_cons_iff (hkept : ¬WrittenAsFlag argument) :
    LastFlag start (argument :: rest) format ↔ LastFlag start rest format := by
  constructor
  · intro h
    cases h with
    | absent h => exact .absent (List.forall_mem_cons.mp h).2
    | last before after hlist h =>
        cases before with
        | nil =>
            obtain ⟨rfl, -⟩ := List.cons.inj hlist
            exact absurd (writtenAsFlag_flag format) hkept
        | cons other before => exact .last before after (List.cons.inj hlist).2 h
  · intro h
    cases h with
    | absent h => exact .absent (List.forall_mem_cons.mpr ⟨hkept, h⟩)
    | last before after hlist h =>
        exact .last (argument :: before) after (congrArg (argument :: ·) hlist) h

end

/-- A known flag is not among what is kept. -/
theorem filter_flag_cons (format : Format) (rest : List Text) :
    (flag format :: rest).filter (fun argument => ¬WrittenAsFlag argument)
      = rest.filter fun argument => ¬WrittenAsFlag argument :=
  List.filter_cons_of_neg (by simpa using writtenAsFlag_flag format)

/-- What is read from a list behind flags that asked for `start`. -/
structure Separates (start : Format) (list : List Text) (arguments : Arguments) : Prop where
  /-- Every flag is known. -/
  known : ∀ argument ∈ list, ¬IsUnknown argument
  /-- The other arguments are kept as they are, in their order. -/
  positional : arguments.positional = list.filter fun argument => ¬WrittenAsFlag argument
  /-- The last flag counts. -/
  format : LastFlag start list arguments.format

section
variable {start : Format} {argument : Text} {rest : List Text} {arguments : Arguments}

theorem separates_nil_iff : Separates start [] arguments ↔ arguments = ⟨start, []⟩ := by
  constructor
  · rintro ⟨-, hpositional, hformat⟩
    cases hformat with
    | absent h =>
        obtain ⟨format, positional⟩ := arguments
        exact congrArg (mk format) hpositional
    | last before after hlist h => cases before <;> cases hlist
  · rintro rfl
    exact ⟨List.forall_mem_nil _, rfl, .absent (List.forall_mem_nil _)⟩

/-- A known flag is dropped, and what follows it stands behind it. -/
theorem separates_flag_cons_iff {format : Format} :
    Separates start (flag format :: rest) arguments ↔ Separates format rest arguments := by
  constructor
  · rintro ⟨hknown, hpositional, hformat⟩
    exact ⟨(List.forall_mem_cons.mp hknown).2, hpositional.trans (filter_flag_cons format rest),
      lastFlag_flag_cons_iff.mp hformat⟩
  · rintro ⟨hknown, hpositional, hformat⟩
    exact ⟨List.forall_mem_cons.mpr ⟨not_isUnknown_flag format, hknown⟩,
      hpositional.trans (filter_flag_cons format rest).symm, lastFlag_flag_cons_iff.mpr hformat⟩

/-- An argument that is no flag is the first positional one. -/
theorem separates_cons_iff (hkept : ¬WrittenAsFlag argument) :
    Separates start (argument :: rest) arguments
      ↔ ∃ others, Separates start rest others
        ∧ { others with positional := argument :: others.positional } = arguments := by
  have hfilter : (argument :: rest).filter (fun argument => ¬WrittenAsFlag argument)
      = argument :: rest.filter fun argument => ¬WrittenAsFlag argument :=
    List.filter_cons_of_pos (by simpa using hkept)
  constructor
  · rintro ⟨hknown, hpositional, hformat⟩
    refine ⟨⟨arguments.format, rest.filter fun argument => ¬WrittenAsFlag argument⟩,
      ⟨(List.forall_mem_cons.mp hknown).2, rfl, (lastFlag_cons_iff hkept).mp hformat⟩, ?_⟩
    rw [← hfilter, ← hpositional]
  · rintro ⟨others, ⟨hknown, hpositional, hformat⟩, rfl⟩
    refine ⟨List.forall_mem_cons.mpr ⟨fun h => hkept h.written, hknown⟩, ?_,
      (lastFlag_cons_iff hkept).mpr hformat⟩
    rw [hfilter, ← hpositional]

end

/-- A list is read when all its flags are known, and then only its last flag and
what is no flag count. -/
theorem readFrom_eq_ok_iff (start : Format) (list : List Text) (arguments : Arguments) :
    readFrom start list = .ok arguments ↔ Separates start list arguments := by
  -- A known flag is where the rest of the list gets another `start`.
  induction list generalizing start arguments with
  | nil => rw [readFrom, Except.ok.injEq, separates_nil_iff, eq_comm]
  | cons argument rest ih =>
      rcases flag_or_isUnknown_or_not_flag argument with ⟨format, rfl⟩ | hunknown | hkept
      · rw [readFrom_flag, ih, separates_flag_cons_iff]
      · rw [readFrom_of_isUnknown start rest hunknown]
        refine iff_of_false (fun h => by cases h) fun h => ?_
        exact h.known argument List.mem_cons_self hunknown
      · rw [readFrom_of_not_flag start rest hkept, separates_cons_iff hkept]
        simp only [← ih]
        cases readFrom start rest <;> simp [Except.map]

/-! ### Flags that are put in -/

/-- The second list is the first one with known flags put in, any number of them
and anywhere. -/
inductive WithFlags : List Text → List Text → Prop where
  | nil : WithFlags [] []
  | keep {short long : List Text} (argument : Text) (h : WithFlags short long) :
      WithFlags (argument :: short) (argument :: long)
  | put {short long : List Text} (format : Format) (h : WithFlags short long) :
      WithFlags short (flag format :: long)

/-- What holds of every argument of a list holds of every argument of a list with
flags put in, when it holds of the flags. -/
theorem WithFlags.forall_mem {p : Text → Prop} {short long : List Text} (h : WithFlags short long)
    (hflag : ∀ format, p (flag format)) (hshort : ∀ argument ∈ short, p argument) :
    ∀ argument ∈ long, p argument := by
  induction h with
  | nil => exact List.forall_mem_nil _
  | keep argument h ih =>
      obtain ⟨hfirst, hrest⟩ := List.forall_mem_cons.mp hshort
      exact List.forall_mem_cons.mpr ⟨hfirst, ih hrest⟩
  | put format h ih => exact List.forall_mem_cons.mpr ⟨hflag format, ih hshort⟩

/-- Flags that are put in are not among what is kept. -/
theorem WithFlags.filter_eq {short long : List Text} (h : WithFlags short long) :
    long.filter (fun argument => ¬WrittenAsFlag argument)
      = short.filter fun argument => ¬WrittenAsFlag argument := by
  induction h with
  | nil => rfl
  | keep argument h ih => rw [List.filter_cons, List.filter_cons, ih]
  | put format h ih =>
      rw [filter_flag_cons, ih]

/-- A list without unknown flags is read. -/
theorem exists_read_of_known {list : List Text} (h : ∀ argument ∈ list, ¬IsUnknown argument) :
    ∃ arguments, read list = .ok arguments := by
  cases hread : read list with
  | ok arguments => exact ⟨arguments, rfl⟩
  | error failure =>
      obtain ⟨argument, hfirst, -⟩ := (readFrom_eq_error_iff .text list failure).mp hread
      obtain ⟨other, hmem, hunknown⟩ := (exists_firstUnknown_iff list).mp ⟨argument, hfirst⟩
      exact absurd hunknown (h other hmem)

/-- Flags are separated from the other arguments, wherever they stand.

* A list is refused when it has an unknown flag, and for the first one.
* Any other list is read: what is no flag is kept as it is and in order, and the
  format is the one of the last flag. Without a flag it is the format for people.
* So known flags that are put into a list that is read change none of the arguments
  that are kept, and these, read again, are kept as they are. -/
theorem read_separates (list : List Text) :
    ((∃ failure, read list = .error failure) ↔ ∃ argument ∈ list, IsUnknown argument)
    ∧ (∀ failure, read list = .error failure
        ↔ ∃ argument, FirstUnknown list argument ∧ failure = .unknownFlag argument)
    ∧ (∀ arguments, read list = .ok arguments ↔ Separates .text list arguments)
    ∧ ∀ arguments, read list = .ok arguments →
        (∀ long, WithFlags list long →
          ∃ format, read long = .ok ⟨format, arguments.positional⟩)
        ∧ read arguments.positional = .ok ⟨.text, arguments.positional⟩ := by
  have herror := readFrom_eq_error_iff .text list
  refine ⟨?refused, herror, readFrom_eq_ok_iff .text list, fun arguments hread => ⟨?put, ?again⟩⟩
  case refused =>
    rw [← exists_firstUnknown_iff]
    constructor
    · rintro ⟨failure, hfailure⟩
      obtain ⟨argument, hfirst, -⟩ := (herror failure).mp hfailure
      exact ⟨argument, hfirst⟩
    · rintro ⟨argument, hfirst⟩
      exact ⟨.unknownFlag argument, (herror _).mpr ⟨argument, hfirst, rfl⟩⟩
  case put =>
    intro long hlong
    obtain ⟨hknown, hpositional, -⟩ := (readFrom_eq_ok_iff .text list arguments).mp hread
    obtain ⟨⟨format, positional⟩, hread'⟩ :=
      exists_read_of_known (hlong.forall_mem not_isUnknown_flag hknown)
    have hpositional' := ((readFrom_eq_ok_iff .text long _).mp hread').positional
    refine ⟨format, ?_⟩
    rw [hread', hpositional, ← hlong.filter_eq, ← hpositional']
  case again =>
    obtain ⟨-, hpositional, -⟩ := (readFrom_eq_ok_iff .text list arguments).mp hread
    -- What was kept is no flag, so it is all kept again.
    have hkept : ∀ argument ∈ arguments.positional, ¬WrittenAsFlag argument := by
      rw [hpositional]
      exact fun argument hmem => by simpa using (List.mem_filter.mp hmem).2
    refine (readFrom_eq_ok_iff .text _ _).mpr ⟨fun argument hmem h => hkept argument hmem h.written,
      ?_, .absent hkept⟩
    exact (List.filter_eq_self.mpr fun argument hmem => by simpa using hkept argument hmem).symm

/-- Two flags around a minus, and a third one put in front of all. -/
theorem read_separates_minus :
    let list := ["16".toList, "--json".toList, "-".toList, "--text".toList, "5".toList]
    read list = .ok ⟨.text, ["16".toList, "-".toList, "5".toList]⟩
    ∧ ∃ format, read ("--json".toList :: list)
        = .ok ⟨format, ["16".toList, "-".toList, "5".toList]⟩ := by
  intro list
  have hread : read list = .ok ⟨.text, ["16".toList, "-".toList, "5".toList]⟩ := by rfl
  have hlong : WithFlags list ("--json".toList :: list) := by
    refine .put .json ?_
    exact .keep _ (.keep _ (.keep _ (.keep _ (.keep _ .nil))))
  exact ⟨hread, ((read_separates list).2.2.2 _ hread).1 _ hlong⟩

end BaseConverter.Arguments
