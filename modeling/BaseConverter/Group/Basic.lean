import BaseConverter.Expression.Operator
import BaseConverter.Text.Stretch

/-!
# `BaseConverter.Group.Basic`: the groups of a field

The text of a field falls into groups, the parts between its spaces. A
group is one value, or a calculated line that has operators in it and
ends in `=` and its result. The operands of such a line, the result
among them, are the stretches between its operators.

* `Text.groups` lists the groups of a text.
* `Group.operands` lists the operands of a group.
* `Group.isWholeLine` tells a line taken whole from a single value.
-/

set_option autoImplicit false

namespace BaseConverter

/-- Whether a character separates the operands of a calculated line: it
belongs to an operator, or is the equals sign before the result. -/
def separatesOperands (c : Char) : Bool :=
  isOperatorChar c || c == '='

/-- A value in the text of a field. -/
structure Group where
  /-- The characters of the value. -/
  text : Text
  /-- The position of the first character in the text of the field. -/
  start : Nat
  /-- The position behind the last character. -/
  stop : Nat
  /-- How many groups of the field stand in front of this one. -/
  index : Nat
  /-- When the value is one operand of a line, how many operands of the
  line stand in front of it. -/
  operand? : Option Nat
deriving DecidableEq

namespace Group

/-- The number of positions of a group. -/
def length (group : Group) : Nat :=
  group.stop - group.start

/-- Whether a group has no positions. -/
def isEmpty (group : Group) : Bool :=
  group.start == group.stop

/-- Whether a position lies in a group. -/
def covers (group : Group) (position : Nat) : Bool :=
  group.start ≤ position && position < group.stop

/-- Whether a character separates operands in the text of a group. -/
def isLine (group : Group) : Bool :=
  group.text.any separatesOperands

/-- Whether a group is a line that was not narrowed to one operand. -/
def isWholeLine (group : Group) : Bool :=
  group.operand?.isNone && group.isLine

/-- The group of a part of a text behind `index` other parts. -/
def ofPart (part : Text.Stretch) (index : Nat) : Group where
  text := part.text
  start := part.start
  stop := part.stop
  index := index
  operand? := none

/-- The group narrowed to a stretch of it, its operand `ordinal`. -/
def narrow (group : Group) (stretch : Text.Stretch) (ordinal : Nat) : Group where
  text := stretch.text
  start := stretch.start
  stop := stretch.stop
  index := group.index
  operand? := some ordinal

/-- The operands of a group, in order. A group without an operator is
its own only operand. -/
def operands (group : Group) : List Group :=
  (Text.stretches (fun c => !separatesOperands c) group.start group.text).zipIdx.map
    fun (stretch, ordinal) => group.narrow stretch ordinal

end Group

/-- The groups of a text, in order. -/
def Text.groups (text : Text) : List Group :=
  text.parts.zipIdx.map fun (part, index) => Group.ofPart part index

end BaseConverter
