import BaseConverter.Command.Conversation
import BaseConverter.Command.Single

/-!
# `BaseConverter.Command.Program`: from arguments to an exit

The first argument is a command, and the others are its arguments. Every
command but the conversation is over at once.

* `Program.start` is what a command line does before any input is read.
* `Program.run` is what a command line does with a given input.
-/

set_option autoImplicit false

namespace BaseConverter

/-- How a program ends: its status and what it has written. -/
structure Exit where
  status : Nat
  out : Text := []
  err : Text := []
deriving DecidableEq

namespace Program

/-- The lines of the help text. -/
def helpLines : List Text :=
  ["Radix number converter".toList,
    [],
    "Usage: radix <command> [options]".toList,
    [],
    "Commands:".toList,
    "  convert <field> <text...>              Convert a field's text into all four fields".toList,
    "  eval <base> <expr...>                  Evaluate an expression in base 2, 10 or 16".toList,
    "  highlight <field> <position> <text...> Show the ranges linked to a hovered position".toList,
    "  repl                                   Edit and hover fields line by line".toList,
    "  help                                   Show this help message".toList,
    "  version                                Show version information".toList,
    [],
    "Fields: decimal (dec), hex, binary (bin), ascii".toList,
    [],
    "Options:".toList,
    "  --json    Print results as JSON".toList,
    [],
    "Environment:".toList,
    "  RUST_LOG=radix_eval=trace   Log why expressions are rejected".toList,
    "  RADIX_LOG_TREE=1            Log as an indented span tree".toList]

/-- The help text. -/
def help : Text :=
  helpLines.flatMap fun line => line ++ ['\n']

/-- The line that tells the version. -/
def version : Text := "radix 0.1.0\n".toList

/-- The exit with a report. -/
def exitWith (report : Report) : Exit :=
  match report.failure? with
  | none => { status := 0, out := report.out }
  | some failure => { status := 1, out := report.out, err := failure.line }

/-- The exit with the answer of a command that answers once. -/
def exitOnce : Except Failure Text → Exit
  | .ok out => { status := 0, out := out }
  | .error failure => { status := 1, err := failure.line }

/-- What a command line does before any input is read. -/
inductive Start where
  /-- The program is done. -/
  | done (exit : Exit)
  /-- A conversation begins. -/
  | conversation (format : Format)
deriving DecidableEq

/-- What a command does with its arguments. -/
def startCommand (command : Text) (arguments : Arguments) : Start :=
  if command = "convert".toList then .done (exitOnce (Command.convert arguments))
  else if command = "eval".toList then .done (exitOnce (Command.evaluate arguments))
  else if command = "highlight".toList then .done (exitOnce (Command.highlight arguments))
  else if command = "repl".toList then .conversation arguments.format
  else if ["help".toList, "--help".toList, "-h".toList].contains command then
    .done { status := 0, out := help }
  else if ["version".toList, "--version".toList, "-v".toList].contains command then
    .done { status := 0, out := version }
  else
    .done {
      status := 1
      out := help
      err := "Unknown command: ".toList ++ command ++ "\n\n".toList }

/-- What a command line does before any input is read. The flags are
looked at before the command is. -/
def start : List Text → Start
  | [] => .done { status := 0, out := help }
  | command :: rest =>
    match Arguments.read rest with
    | .ok arguments => startCommand command arguments
    | .error failure => .done (exitOnce (.error failure))

/-- What a command line does with a given input. -/
def run (arguments : List Text) (input : List UInt8) : Exit :=
  match start arguments with
  | .done exit => exit
  | .conversation format => exitWith (Conversation.run format input)

end Program

end BaseConverter
