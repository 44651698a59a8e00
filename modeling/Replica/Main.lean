import Replica.CommandLine

/-!
# The program

Reads the script asked for, runs the command line, and writes its output.
-/

open Replica

/-- The contents of a file, if it can be read as text. -/
def readScript (path : String) : IO (Option String) := do
  try
    return some (← IO.FS.readFile path)
  catch _ =>
    return none

def main (arguments : List String) : IO UInt32 := do
  let contents? ←
    match CommandLine.script? arguments with
    | some script => readScript script
    | none => pure none
  let exit := CommandLine.run arguments contents?
  IO.print exit.output
  return exit.code.toUInt32
