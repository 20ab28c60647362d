/-
**The command.**

Reads the first line of standard input if the arguments give no expression, prints the answer and
exits with its code.
-/

import Abacus.CommandLine

namespace Abacus

/-- The bytes read so far and those that follow in a stream up to the end of the line. They are read
one by one, so that an answer does not wait for a second line. -/
partial def readLineBytes (stream : IO.FS.Stream) (read : ByteArray) : IO ByteArray := do
  let next ← stream.read 1
  if next.isEmpty || next.toList == [10] then return read
  readLineBytes stream (read ++ next)

/-- Prints an answer. -/
def Response.print (response : Response) : IO UInt32 := do
  (← IO.getStdout).putStr response.output
  (← IO.getStderr).putStr response.errors
  return response.exitCode

end Abacus

/-- The command. -/
def main (arguments : List String) : IO UInt32 := do
  match Abacus.Invocation.ofArguments? arguments with
  | none => Abacus.CommandLine.usage.print
  | some invocation =>
    let input ← match invocation.expression with
      | some _ => pure ByteArray.empty
      | none => Abacus.readLineBytes (← IO.getStdin) ByteArray.empty
    (invocation.respond input.toList).print
