import BaseConverter.Group.Basic
import BaseConverter.Numeral.Digit

/-!
# `BaseConverter.Span`: stretches of characters to mark

A span is a stretch of neighbouring characters of a text. Marked spans
are never empty and never reach past the end of their text.

A hexadecimal digit and the four bits that it stands for are one half
byte. The half bytes of a number are counted from its first digit.

* `Group.span` marks a whole group.
* `Group.hexDigit?` and `Group.bits?` mark a half byte of a group.
-/

set_option autoImplicit false

namespace BaseConverter

/-- The characters of a text from `start` up to, and not with, `stop`. -/
structure Span where
  start : Nat
  stop : Nat
deriving DecidableEq

namespace Span

/-- The color that marks a span. -/
def color : Text := "#ff3399".toList

/-- The span of one character. -/
def single (position : Nat) : Span :=
  ⟨position, position + 1⟩

/-- The span of all characters of a text. The empty text has none. -/
def whole? (text : Text) : Option Span :=
  if text.isEmpty then none else some ⟨0, text.length⟩

end Span

namespace Group

/-- The span of a group. -/
def span (group : Group) : Span :=
  ⟨group.start, group.stop⟩

/-- The digit of a hexadecimal group that is its half byte `n`. -/
def hexDigit? (group : Group) (n : Nat) : Option Span :=
  let mark := hexMarkLength group.text
  if n < group.length - mark then some (Span.single (group.start + mark + n)) else none

/-- The bits of a binary group that are its half byte `n`. The last half
byte may have fewer than four. -/
def bits? (group : Group) (n : Nat) : Option Span :=
  let first := 4 * n
  if first < group.length then
    some ⟨group.start + first, group.start + min (first + 4) group.length⟩
  else
    none

end Group

end BaseConverter
