import ReferenceSemantics.CommandLine

set_option autoImplicit false

/-!
The program: reads the files that the arguments name, and prints the outcome.
-/

open ReferenceSemantics

/-- The text of a file, if it can be read. -/
def fileText (path : String) : IO (Option String) := do
  try
    return some (← IO.FS.readFile path)
  catch _ =>
    return none

def main (args : List String) : IO UInt32 := do
  let files ← args.filterMapM fun path => do return (← fileText path).map (path, ·)
  let outcome := CommandLine.run (← IO.appPath).toString args fun path => files.lookup path
  (← IO.getStdout).putStr outcome.stdout
  (← IO.getStderr).putStr outcome.stderr
  return outcome.code.toUInt32
