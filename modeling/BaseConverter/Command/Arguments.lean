import BaseConverter.Command.Failure

/-!
# `BaseConverter.Command.Arguments`: flags and positional arguments

Flags begin with two hyphens and may stand anywhere. A single hyphen
begins a negative number, so such an argument is positional.

* `Arguments.read` separates the flags from the rest.
* `readField`, `readPosition` and `readBase` read single arguments.
-/

set_option autoImplicit false

namespace BaseConverter

/-- How results are written. -/
inductive Format where
  /-- Lines for people. -/
  | text
  /-- JSON documents. -/
  | json
deriving DecidableEq

/-- The arguments of a command without their flags. -/
structure Arguments where
  format : Format
  positional : List Text
deriving DecidableEq

namespace Arguments

/-- Whether an argument is written like a flag. -/
def isFlag (argument : Text) : Bool :=
  "--".toList.isPrefixOf argument

/-- The format that a flag asks for. -/
def formatOf? (flag : Text) : Option Format :=
  if flag = "--json".toList then some .json
  else if flag = "--text".toList then some .text
  else none

/-- Reads arguments behind flags that asked for `format`. The last flag
counts, and the first unknown one is refused. -/
def readFrom (format : Format) : List Text → Except Failure Arguments
  | [] => .ok ⟨format, []⟩
  | argument :: rest =>
    if isFlag argument then
      match formatOf? argument with
      | some asked => readFrom asked rest
      | none => .error (.unknownFlag argument)
    else
      (readFrom format rest).map fun arguments =>
        { arguments with positional := argument :: arguments.positional }

/-- Reads the arguments of a command. Without a flag the results are
written for people. -/
def read (arguments : List Text) : Except Failure Arguments :=
  readFrom .text arguments

end Arguments

/-- Reads the name of a field. -/
def readField (text : Text) : Except Failure Field :=
  (Field.read text).mapError .unknownField

/-- Reads the number of a position. It has to fit in a word. -/
def readPosition (text : Text) : Except Failure Nat :=
  match count? text with
  | some position =>
    if position < Word.patternCount then .ok position else .error (.notPosition text)
  | none => .error (.notPosition text)

/-- Reads a base, given by its number of digits or by the name of its
field. -/
def readBase (text : Text) : Except Failure Base :=
  let base? := match count? text with
    | some radix => Base.ofRadix? radix
    | none => (Field.read text).toOption.bind Field.base?
  match base? with
  | some base => .ok base
  | none => .error (.notBase text)

end BaseConverter
