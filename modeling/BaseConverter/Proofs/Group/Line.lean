import BaseConverter.Proofs.Group.Lookup

/-!
# `BaseConverter.Proofs.Group.Line`: the operands under a position in a line

A text without spaces that has a character between operands is a line. It
is a single group, `Group.line`, whose operands are the runs of the text
between such characters. A position in a run has this run under it
(`Text.IsLine.groupAt?_run`). A position on a character between operands
has the line as a whole under it (`Text.IsLine.groupAt?_separator`), which
is how a pointer tells the two apart.

The run of one line belongs to the run of another line with as many runs in
front of it, whatever else is different in the two texts
(`Text.IsLine.alignedIn?_run`).
-/

set_option autoImplicit false

namespace BaseConverter

/-- The runs of a text between the characters that separate operands, in
order. -/
def Text.operandRuns (text : Text) : List Text.Stretch :=
  stretches (fun c => !separatesOperands c) 0 text

/-- A text that has operands and no spaces. -/
structure Text.IsLine (text : Text) : Prop where
  noSpace : ' ' ∉ text
  separated : ∃ c ∈ text, separatesOperands c = true

/-- A text as its own only group. -/
def Group.line (text : Text) : Group :=
  ofPart ⟨0, text⟩ 0

namespace Group

/-- The operands of a line are its runs. -/
theorem getElem?_operands_line (text : Text) (index : Nat) :
    (line text).operands[index]?
      = text.operandRuns[index]?.map fun run => (line text).narrow run index :=
  (line text).getElem?_operands index

theorem covers_line {text : Text} {position : Nat} (h : position < text.length) :
    (line text).covers position = true := by
  rw [covers_iff]
  show 0 ≤ position ∧ position < 0 + text.length
  omega

end Group

namespace Text.IsLine

variable {text : Text}

theorem ne_nil (h : text.IsLine) : text ≠ [] := by
  obtain ⟨c, hc, -⟩ := h.separated
  exact List.ne_nil_of_mem hc

theorem isLine_line (h : text.IsLine) : (Group.line text).isLine = true :=
  List.any_eq_true.mpr h.separated

theorem isWholeLine_line (h : text.IsLine) : (Group.line text).isWholeLine = true :=
  h.isLine_line

/-- Without a space there is one group. -/
theorem groups_eq (h : text.IsLine) : text.groups = [Group.line text] := by
  have hinside := decide_ne_of_not_mem h.noSpace
  have hparts : text.parts = [⟨0, text⟩] := by
    rw [parts, stretches_run 0 hinside, ofRun, if_neg h.ne_nil]
  rw [groups, hparts]
  rfl

theorem groupAt?_eq (h : text.IsLine) {position : Nat} (hposition : position < text.length) :
    text.groupAt? position = some ((Group.line text).narrowAt position) := by
  refine groupAt?_of_covers ?_ (Group.covers_line hposition)
  rw [h.groups_eq]
  exact List.mem_singleton_self _

/-- The operand under a position in a run is the run. -/
theorem groupAt?_run (h : text.IsLine) {index : Nat} {run : Stretch}
    (hrun : text.operandRuns[index]? = some run) {position : Nat} (hlo : run.start ≤ position)
    (hhi : position < run.stop) :
    text.groupAt? position = some ((Group.line text).narrow run index) := by
  have hstop := (bounds_of_mem_stretches (List.mem_of_getElem? hrun)).2
  rw [h.groupAt?_eq (by omega), Group.narrowAt_of_operand h.isLine_line hrun hlo hhi]

/-- On a character between operands the line stays whole. -/
theorem groupAt?_separator (h : text.IsLine) {position : Nat} {c : Char}
    (hc : text[position]? = some c) (hseparates : separatesOperands c = true) :
    text.groupAt? position = some (Group.line text) := by
  have hposition : position < text.length := (List.getElem?_eq_some_iff.mp hc).1
  rw [h.groupAt?_eq hposition, Group.narrowAt_of_separator hc hseparates]

/-- A run belongs to the run of another line at the same place. -/
theorem alignedIn?_run {other : Text} (h : other.IsLine) (run : Stretch) {index : Nat}
    {same : Stretch} (hsame : other.operandRuns[index]? = some same) :
    ((Group.line text).narrow run index).alignedIn? other
      = some ((Group.line other).narrow same index) := by
  have hgroup : other.group? 0 = some (Group.line other) := by
    rw [group?, h.groups_eq]
    rfl
  show (other.group? 0).bind (·.operands[index]?) = _
  rw [hgroup, Option.bind_some, Group.getElem?_operands_line, hsame, Option.map_some]

end Text.IsLine

end BaseConverter
