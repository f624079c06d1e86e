import BaseConverter.Expression.Value
import BaseConverter.Field

/-!
# `BaseConverter.Command.Failure`: why a command fails

Every failure is a cause with what it is about. `Failure.message` is the
one place where causes become sentences.
-/

set_option autoImplicit false

namespace BaseConverter

/-- Why a command, or a line of a conversation, fails. -/
inductive Failure where
  /-- The arguments do not have the form of the command. -/
  | usage (form : Text)
  /-- An argument looks like a flag and is none. -/
  | unknownFlag (argument : Text)
  | unknownField (error : UnknownField)
  /-- A text is not the number of a position. -/
  | notPosition (text : Text)
  /-- A text names no base. -/
  | notBase (text : Text)
  | evaluation (error : EvaluationError)
  /-- A line of input is not UTF-8. -/
  | notUtf8
deriving DecidableEq

/-- The sentence that tells why a command fails. -/
def Failure.message : Failure → Text
  | usage form => "usage: ".toList ++ form
  | unknownFlag argument => "unknown flag `".toList ++ argument ++ "`".toList
  | unknownField error => error.message
  | notPosition text => "`".toList ++ text ++ "` is not a character position".toList
  | notBase text =>
    "`".toList ++ text ++ "` is not a base (expected 2, 10, 16, decimal, hex or binary)".toList
  | evaluation error => error.message
  | notUtf8 => "stream did not contain valid UTF-8".toList

/-- The line that reports a failure. -/
def Failure.line (failure : Failure) : Text :=
  "error: ".toList ++ failure.message ++ ['\n']

end BaseConverter
