import BaseConverter.Group.Alignment
import BaseConverter.Sheet.Basic
import BaseConverter.Span

/-!
# `BaseConverter.Pointer`: what shows the same as the pointed character

A pointer over one field marks the characters of every field that show
the same. The rows are the fields pointed at, the columns the fields
marked:

|         | decimal     | hex         | binary      | ascii         |
|---------|-------------|-------------|-------------|---------------|
| decimal | the value   | the value   | the value   | all           |
| hex     | the value   | the digit   | four bits   | all           |
| binary  | the value   | the digit   | four bits   | all           |
| ascii   | all         | all         | all         | the character |

* `Pointer.aim?` is the value, and the half byte of it, that a pointer
  over a numeric field points at. There is none on a space, on the mark
  `0x`, and on an operator between hexadecimal or binary operands. Where
  there is no aim, nothing is marked in any field.
* `Pointer.span?` is the span of a field that a pointer marks.
* `Hover` is the place of the pointer, which may be nowhere. An edit of
  any field sends it away, because positions in the old text mean
  nothing in the new one.
-/

set_option autoImplicit false

namespace BaseConverter

/-- The character of a field that is pointed at. -/
structure Pointer where
  field : Field
  position : Nat
deriving DecidableEq

/-- What a pointer over a numeric field points at. -/
structure Aim where
  /-- The value. -/
  group : Group
  /-- The half byte of the value, when a single one is pointed at. -/
  halfByte? : Option Nat
deriving DecidableEq

/-- The span of `group`, in a field of the base `base`, that shows what
is aimed at: the half byte where the base has digits for it, and the
whole value elsewhere. -/
def Aim.spanOf? (aim : Aim) (base : Base) (group : Group) : Option Span :=
  match base, aim.halfByte? with
  | .hex, some n => group.hexDigit? n
  | .binary, some n => group.bits? n
  | _, _ => some group.span

namespace Pointer

/-- What a position in a numeric text points at. -/
def aim? (base : Base) (text : Text) (position : Nat) : Option Aim := do
  let group ← text.groupAt? position
  let offset := position - group.start
  match base with
  | .decimal => some ⟨group, none⟩
  | .hex =>
    let mark := hexMarkLength group.text
    if group.isWholeLine || offset < mark then none else some ⟨group, some (offset - mark)⟩
  | .binary => if group.isWholeLine then none else some ⟨group, some (offset / 4)⟩

/-- The span of the field `target` that a pointer over a numeric field
marks. -/
def numericSpan? (sheet : Sheet) (source : Base) (position : Nat) (target : Field) :
    Option Span := do
  let aim ← aim? source (sheet.get (Field.ofBase source)) position
  match target.base? with
  | none => Span.whole? sheet.ascii
  | some base =>
    if base = source then
      aim.spanOf? base aim.group
    else
      (aim.group.alignedIn? (sheet.get target)).bind (aim.spanOf? base)

/-- The span of the field `target` that a pointer over the characters
marks. Which digits a single character comes from cannot be told, so the
numeric fields are marked whole. -/
def asciiSpan? (sheet : Sheet) (position : Nat) (target : Field) : Option Span :=
  match target with
  | .ascii => if position < sheet.ascii.length then some (Span.single position) else none
  | _ => Span.whole? (sheet.get target)

/-- The span of the field `target` that a pointer marks. -/
def span? (pointer : Pointer) (sheet : Sheet) (target : Field) : Option Span :=
  match pointer.field.base? with
  | some source => numericSpan? sheet source pointer.position target
  | none => asciiSpan? sheet pointer.position target

end Pointer

/-- Where the pointer is, if it is over a field. -/
structure Hover where
  pointer? : Option Pointer := none
deriving DecidableEq

namespace Hover

/-- The pointer is nowhere. -/
def idle : Hover := {}

/-- The pointer is over a character. -/
def on (pointer : Pointer) : Hover := ⟨some pointer⟩

/-- The pointer comes to a character, wherever it was. -/
def moved (_ : Hover) (pointer : Pointer) : Hover := on pointer

/-- The pointer leaves the fields. -/
def left (_ : Hover) : Hover := idle

/-- The text of a field changes. -/
def edited (_ : Hover) : Hover := idle

/-- Whether the pointer is over a field. -/
def isActive (hover : Hover) : Bool :=
  hover.pointer?.isSome

/-- The span of a field that is marked. Without a pointer there is
none. -/
def span? (hover : Hover) (sheet : Sheet) (target : Field) : Option Span :=
  hover.pointer?.bind fun pointer => pointer.span? sheet target

end Hover

end BaseConverter
