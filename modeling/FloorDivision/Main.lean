import FloorDivision.CommandLine.Run

/-!
# The program

Reads the configuration file that the arguments name, if they name one, and prints what running
them comes to.
-/

namespace FloorDivision.CommandLine

/-- What an attempt to read a file failed for. -/
def fileProblem : IO.Error → FileProblem
  | .noFileOrDirectory .. => .missing
  | .permissionDenied .. => .denied
  | .inappropriateType .. => .directory
  | problem => .other (toString problem)

/-- The contents of a file, or why it cannot be read. -/
def readContents (path : String) : IO (Except FileProblem String) := do
  try
    return .ok (← IO.FS.readFile path)
  catch problem =>
    return .error (fileProblem problem)

end FloorDivision.CommandLine

open FloorDivision.CommandLine in
def main (arguments : List String) : IO UInt32 := do
  let path? := (Options.ofArguments arguments).toOption.bind (·.configPath)
  let contents ← match path? with
    | some path => readContents path
    | none => pure (.ok "")
  let outcome := run (fun _ => contents) arguments
  IO.print outcome.output
  IO.eprint outcome.errors
  return outcome.exitCode
