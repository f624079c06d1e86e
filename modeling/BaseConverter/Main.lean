import BaseConverter.Command.Program

/-!
# `BaseConverter.Main`: the program

Reads the command line and the input, and writes what the library
answers. In a conversation every line is answered before the next one is
read.
-/

set_option autoImplicit false

namespace BaseConverter.Main

/-- Writes a text and does not hold it back. -/
def put (stream : IO.FS.Stream) (text : Text) : IO Unit := do
  stream.putStr (String.ofList text)
  stream.flush

/-- Reads the bytes up to the next line feed, which is dropped, or to the
end of the input. Tells whether there was a line feed. -/
partial def readLine (input : IO.FS.Stream) (bytes : Array UInt8) : IO (Bool × List UInt8) := do
  match (← input.read 1).toList with
  | [] => return (false, bytes.toList)
  | byte :: _ =>
    if byte == 10 then
      return (true, bytes.toList)
    else
      readLine input (bytes.push byte)

/-- Answers the lines of the input one after another. -/
partial def converse (format : Format) (session : Session) : IO UInt32 := do
  let (ended, bytes) ← readLine (← IO.getStdin) #[]
  if bytes.isEmpty && !ended then
    return 0
  match Conversation.turn format session (Conversation.lineText? ended bytes) with
  | .ended none => return 0
  | .ended (some failure) =>
    put (← IO.getStderr) failure.line
    return 1
  | .answered reply =>
    put (← IO.getStdout) reply.text
    converse format reply.session

end BaseConverter.Main

open BaseConverter in
/-- Runs the program with its arguments and tells its status. -/
def main (arguments : List String) : IO UInt32 := do
  match Program.start (arguments.map String.toList) with
  | .done exit =>
    Main.put (← IO.getStdout) exit.out
    Main.put (← IO.getStderr) exit.err
    return exit.status.toUInt32
  | .conversation format => Main.converse format Session.new
