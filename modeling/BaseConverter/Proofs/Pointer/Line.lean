import BaseConverter.Proofs.Group.Line
import BaseConverter.Proofs.Pointer.Bounds
import BaseConverter.Proofs.Pointer.HalfByte

/-!
# `BaseConverter.Proofs.Pointer.Line`: pointing at the operands of lines

On a sheet of lines a pointer on an operand marks the operand at the same
place in the other lines. Only the number of operands has to be the same in
all lines (`Sheet.ShowsLines`); nothing is asked of their texts.

Everything follows from the aim. Inside a run it is the run, with a half
byte in hexadecimal and binary (`Pointer.aim?_run`); between hexadecimal or
binary runs there is none (`Pointer.aim?_separator`). What an aim at a run
marks is looked up in the run at the same place (`Pointer.numericSpan?_run`).
A half byte is counted from the head of its run, so that in a run of
another width it may be missing, but never lies outside.

`Sheet.MarksRuns` says what pointers over such a sheet mark, and
`Sheet.ShowsLines.marksRuns` that they do.
-/

set_option autoImplicit false

namespace BaseConverter

/-- The span of a stretch. -/
def Text.Stretch.span (stretch : Text.Stretch) : Span :=
  ⟨stretch.start, stretch.stop⟩

/-- The number of characters at the head of an operand that are its
mark. -/
def Base.markLength : Base → Text → Nat
  | hex, text => hexMarkLength text
  | _, _ => 0

namespace Sheet

/-- The run of a line with `index` runs in front of it. -/
def run? (sheet : Sheet) (base : Base) (index : Nat) : Option Text.Stretch :=
  (sheet.get (Field.ofBase base)).operandRuns[index]?

/-- Every numeric field of a sheet shows a line, and each line has `count`
runs. -/
structure ShowsLines (sheet : Sheet) (count : Nat) : Prop where
  isLine : ∀ base, (sheet.get (Field.ofBase base)).IsLine
  length_runs : ∀ base, (sheet.get (Field.ofBase base)).operandRuns.length = count

/-- What pointers mark that are over the lines of a sheet. -/
structure MarksRuns (sheet : Sheet) : Prop where
  /-- A pointer on any character of a decimal run marks the run at the same
  place in every base. -/
  fromDecimal : ∀ index run, sheet.run? .decimal index = some run →
    ∀ position, run.start ≤ position → position < run.stop →
    ∀ base, ∃ same, sheet.run? base index = some same
      ∧ Pointer.span? ⟨.decimal, position⟩ sheet (Field.ofBase base) = some same.span
  /-- A pointer on a run, behind the mark of a hexadecimal one, marks the
  decimal run at the same place, and in no base a character outside of the
  run at the same place. -/
  fromDigit : ∀ base index run, sheet.run? base index = some run →
    ∀ position, run.start + base.markLength run.text ≤ position → position < run.stop →
    (∃ same, sheet.run? .decimal index = some same
      ∧ Pointer.span? ⟨Field.ofBase base, position⟩ sheet .decimal = some same.span)
    ∧ ∀ other, ∃ same, sheet.run? other index = some same
      ∧ ∀ span, Pointer.span? ⟨Field.ofBase base, position⟩ sheet (Field.ofBase other)
            = some span →
          same.start ≤ span.start ∧ span.start < span.stop ∧ span.stop ≤ same.stop
  /-- A pointer on a hexadecimal or binary character that separates
  operands marks nothing. -/
  fromSeparator : ∀ base, base ≠ .decimal → ∀ position c,
    (sheet.get (Field.ofBase base))[position]? = some c → separatesOperands c = true →
    ∀ target, Pointer.span? ⟨Field.ofBase base, position⟩ sheet target = none

/-- A run of one line has a run at its place in every other. -/
theorem ShowsLines.exists_run {sheet : Sheet} {count : Nat} (h : sheet.ShowsLines count)
    {base : Base} {index : Nat} {run : Text.Stretch} (hrun : sheet.run? base index = some run)
    (other : Base) : ∃ same, sheet.run? other index = some same := by
  have hindex := (List.getElem?_eq_some_iff.mp hrun).1
  rw [h.length_runs base, ← h.length_runs other] at hindex
  exact ⟨_, List.getElem?_eq_getElem hindex⟩

end Sheet

/-! ### Aims -/

namespace Pointer

/-- An aim in a run is at the run. It is at the whole of it in decimal. -/
theorem aim?_run (base : Base) {text : Text} (h : text.IsLine) {index : Nat} {run : Text.Stretch}
    (hrun : text.operandRuns[index]? = some run) {position : Nat}
    (hlo : run.start + base.markLength run.text ≤ position) (hhi : position < run.stop) :
    ∃ halfByte?, aim? base text position
        = some ⟨(Group.line text).narrow run index, halfByte?⟩
      ∧ (base = .decimal → halfByte? = none) := by
  have hgroup := h.groupAt?_run hrun (by omega) hhi
  have haim := aim?_of_groupAt? base hgroup
  have hnarrow : ((Group.line text).narrow run index).isWholeLine = false := rfl
  cases base with
  | decimal => exact ⟨none, haim, fun _ => rfl⟩
  | hex =>
      have hmark : ¬ position - run.start < hexMarkLength run.text := by
        simp only [Base.markLength] at hlo
        omega
      refine ⟨_, haim.trans (if_neg ?_), nofun⟩
      rw [hnarrow, Bool.false_or, decide_eq_true_eq]
      exact hmark
  | binary => exact ⟨_, haim.trans (if_neg (by rw [hnarrow]; exact Bool.false_ne_true)), nofun⟩

/-- There is no aim between hexadecimal or binary runs. -/
theorem aim?_separator {base : Base} (hbase : base ≠ .decimal) {text : Text} (h : text.IsLine)
    {position : Nat} {c : Char} (hc : text[position]? = some c)
    (hseparates : separatesOperands c = true) : aim? base text position = none := by
  have haim := aim?_of_groupAt? base (h.groupAt?_separator hc hseparates)
  cases base with
  | decimal => contradiction
  | hex => exact haim.trans (if_pos (by rw [h.isWholeLine_line, Bool.true_or]))
  | binary => exact haim.trans (if_pos h.isWholeLine_line)

/-! ### What is marked -/

theorem span?_ofBase (base : Base) (position : Nat) (sheet : Sheet) (target : Field) :
    span? ⟨Field.ofBase base, position⟩ sheet target
      = numericSpan? sheet base position target := by
  rw [span?, Field.base?_ofBase]

/-- What an aim at a run marks is found in the run at the same place. -/
theorem numericSpan?_run {sheet : Sheet} {count : Nat} (h : sheet.ShowsLines count)
    {source target : Base} {index position : Nat} {run same : Text.Stretch} {halfByte? : Option Nat}
    (hrun : sheet.run? source index = some run) (hsame : sheet.run? target index = some same)
    (haim : aim? source (sheet.get (Field.ofBase source)) position
      = some ⟨(Group.line (sheet.get (Field.ofBase source))).narrow run index, halfByte?⟩) :
    numericSpan? sheet source position (Field.ofBase target)
      = Aim.spanOf? ⟨(Group.line (sheet.get (Field.ofBase source))).narrow run index, halfByte?⟩
          target ((Group.line (sheet.get (Field.ofBase target))).narrow same index) := by
  rw [numericSpan?_of_aim haim]
  split
  · rename_i hbase
    subst hbase
    rw [hrun, Option.some.injEq] at hsame
    rw [hsame]
  · rw [(h.isLine target).alignedIn?_run run hsame, Option.bind_some]

end Pointer

/-- An aim without a half byte marks the whole of a group. -/
theorem Aim.spanOf?_whole (base : Base) (aimed group : Group) :
    spanOf? ⟨aimed, none⟩ base group = some group.span := by
  cases base <;> rfl

/-- Pointers over lines with as many operands each mark the operands at the
same place. -/
theorem Sheet.ShowsLines.marksRuns {sheet : Sheet} {count : Nat} (h : sheet.ShowsLines count) :
    sheet.MarksRuns where
  fromDecimal := by
    intro index run hrun position hlo hhi base
    obtain ⟨halfByte?, haim, hwhole⟩ := Pointer.aim?_run .decimal (h.isLine .decimal) hrun hlo hhi
    obtain ⟨same, hsame⟩ := h.exists_run hrun base
    refine ⟨same, hsame, ?_⟩
    rw [hwhole rfl] at haim
    show Pointer.numericSpan? sheet .decimal position (Field.ofBase base) = _
    rw [Pointer.numericSpan?_run h hrun hsame haim, Aim.spanOf?_whole]
    rfl
  fromDigit := by
    intro base index run hrun position hlo hhi
    obtain ⟨halfByte?, haim, -⟩ := Pointer.aim?_run base (h.isLine base) hrun hlo hhi
    constructor
    · obtain ⟨same, hsame⟩ := h.exists_run hrun .decimal
      refine ⟨same, hsame, ?_⟩
      rw [Pointer.span?_ofBase]
      exact Pointer.numericSpan?_run h hrun hsame haim
    · intro other
      obtain ⟨same, hsame⟩ := h.exists_run hrun other
      refine ⟨same, hsame, ?_⟩
      intro span hmarked
      rw [Pointer.span?_ofBase, Pointer.numericSpan?_run h hrun hsame haim] at hmarked
      have hlength : same.start < same.stop :=
        (Text.bounds_of_mem_stretches (List.mem_of_getElem? hsame)).1
      obtain ⟨hstart, hlt, hstop⟩ := Aim.inGroup_of_spanOf? (Group.span_inGroup_self hlength) hmarked
      exact ⟨hstart, hlt, hstop⟩
  fromSeparator := by
    intro base hbase position c hc hseparates target
    have haim := Pointer.aim?_separator hbase (h.isLine base) hc hseparates
    rw [Pointer.span?_ofBase]
    exact Pointer.numericSpan?_of_no_aim base haim target

end BaseConverter
