import LiveTemplate.Cli.Run

/-!
# The program

Reads the files that the command line names, runs it, and writes what comes of it.
-/

namespace LiveTemplate

open Cli

/-- Reads a file. -/
def readFile (path : String) : IO (Except ReadFailure String) := do
  try
    let bytes ← IO.FS.readBinFile path
    pure (decodeText bytes)
  catch e =>
    match e with
    | .noFileOrDirectory _ _ _ => pure (.error .missing)
    | .inappropriateType path _ _ =>
      pure (.error (if path.isSome then .notADirectory else .aDirectory))
    | other => pure (.error (.other (toString other)))

end LiveTemplate

open LiveTemplate Cli in
/-- Runs the command line. -/
def main (args : List String) : IO UInt32 := do
  let paths := match parseArguments args with
    | .ok i => i.inputs
    | .error _ => []
  let contents ← paths.mapM fun path => do pure (path, ← readFile path)
  let outcome := Cli.run args fun path => (contents.lookup path).getD (.error .missing)
  (← IO.getStdout).putStr outcome.stdout
  (← IO.getStderr).putStr outcome.stderr
  pure outcome.code.toUInt32
