import BaseConverter.Group.Basic

/-!
# `BaseConverter.Group.Alignment`: groups of different fields that belong together

The same values stand in the same order in every field. A group
therefore belongs to the group of another field that has as many groups
in front of it, and an operand to the operand of that group with as many
operands in front of it.

* `Text.groupAt?` is the group under a position.
* `Group.alignedIn?` is the group of another text that a group belongs
  to.
-/

set_option autoImplicit false

namespace BaseConverter

/-- The group with `index` groups in front of it. -/
def Text.group? (text : Text) (index : Nat) : Option Group :=
  text.groups[index]?

/-- The operand of a line under a position. On an operator, and in a
group that is no line, it is the whole group. -/
def Group.narrowAt (group : Group) (position : Nat) : Group :=
  if group.isLine then
    (group.operands.find? (·.covers position)).getD group
  else
    group

/-- The group under a position, narrowed to an operand. There is none on
a space and behind the end of the text. -/
def Text.groupAt? (text : Text) (position : Nat) : Option Group :=
  (text.groups.find? (·.covers position)).map (·.narrowAt position)

/-- The group of `text` that `group`, found in another text, belongs to.
There is none when `text` has too few groups or operands. -/
def Group.alignedIn? (group : Group) (text : Text) : Option Group :=
  match group.operand? with
  | none => text.group? group.index
  | some ordinal => (text.group? group.index).bind (·.operands[ordinal]?)

end BaseConverter
