import VersionedTables.CommandLine.Basic

/-!
# The program

Reads the files that the command line names and prints what it asks for, or why it cannot be had.
-/

namespace VersionedTables

namespace CommandLine

def readText? (path : String) : IO (Option String) := do
  try
    return some (← IO.FS.readFile path)
  catch _ =>
    return none

/-- The texts of the files that a command line reads. -/
def readTexts (arguments : List String) : IO Files := do
  let paths := ((Invocation.read? arguments).map paths).getD []
  let texts ← paths.mapM readText?
  return fun path => ((paths.zip texts).lookup path).join

/-- Prints what a command line asks for, or why it cannot be had, and answers the exit code. -/
def print (arguments : List String) : IO UInt32 := do
  let outcome := run (← readTexts arguments) arguments
  match outcome with
  | .ok text => IO.print text
  | .error failure => IO.eprintln s!"Error: {failure.message}"
  return exitCode outcome

end CommandLine

end VersionedTables

def main (arguments : List String) : IO UInt32 :=
  VersionedTables.CommandLine.print arguments
