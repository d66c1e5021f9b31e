import Correlation.CommandLine

/-!
# The program

Reads the files of a command, performs it, and prints what it leaves behind.
-/

/-- The text of a file, if it can be read. -/
def Correlation.readText (file : String) : IO (Option String) := do
  try return some (← IO.FS.readFile file) catch _ => return none

/-- Performs the command that the arguments ask for. -/
def main (args : List String) : IO UInt32 := do
  let files := (Correlation.Command.ofArguments? args).elim [] Correlation.Command.files
  let texts ← files.mapM fun file => return (file, ← Correlation.readText file)
  let result := Correlation.Command.performArguments (fun file => (texts.lookup file).join) args
  IO.print result.output
  for remark in result.remarks do
    IO.eprintln remark
  return result.exitCode
