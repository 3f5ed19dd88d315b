import EventTree.CommandLine.Run

/-!
# The program

Runs the command line on a machine without files or a network of its own.
-/
open EventTree

def main (args : List String) : IO UInt32 := do
  let result := CommandLine.run .bare (args.map Text.encode)
  (← IO.getStdout).putStr result.output
  (← IO.getStderr).putStr result.errors
  return result.exitCode.toUInt32
