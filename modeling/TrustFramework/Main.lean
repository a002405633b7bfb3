import Std.Time.DateTime.Timestamp
import TrustFramework.Command.Run

/-!
# The program

* `main` — runs the command line in the world as it is.
-/

namespace TrustFramework

/-- The variable that names the settings where the command line does not. -/
def configVariable : String := "B2C_POLICY_TRACE_CONFIG"

/-- What the file at a path holds. -/
def readPath (path : String) : IO (Except ReadFault String) := do
  try
    pure (.ok (← IO.FS.readFile path))
  catch
    | .noFileOrDirectory .. => pure (.error .missing)
    | .inappropriateType .. => pure (.error .directory)
    | e => pure (.error (.other (toString e)))

/-- The days before the first of January 1970, from which on the clock counts. -/
def clockStart : Nat := Time.Date.toDays ⟨1970, 1, 1⟩

/-- The present time, in whole seconds. -/
def presentTime : IO String := do
  let now ← Std.Time.Timestamp.now
  let seconds := now.toSecondsSinceUnixEpoch.val.toNat
  pure (Timestamp.renderInstant (clockStart * Timestamp.day + seconds * Timestamp.second))

/-- The world as far as a command line goes into it: what stands at the paths it names. -/
def worldFor (arguments : List String) : IO Command.World := do
  let config := (← IO.getEnv configVariable).getD ""
  let paths := match Command.Invocation.read arguments with
    | .ok i => i.config :: config :: i.task.inputs
    | .error _ => []
  let known ← paths.mapM fun path => do pure (path, ← readPath path)
  pure
    { read := fun path => (known.lookup path).getD (.error .missing)
      config
      now := ← presentTime }

/-- Writes a file, and the directories that it stands in. -/
def writePath (path text : String) : IO Unit := do
  IO.FS.createDirAll (Path.parent path)
  IO.FS.writeFile path text

end TrustFramework

open TrustFramework in
/-- Runs the command line, and ends with the status of the run. -/
def main (arguments : List String) : IO UInt32 := do
  match Command.run (← worldFor arguments) arguments with
  | .error _ =>
    IO.eprintln "the input cannot be worked with"
    pure 1
  | .ok report =>
    for (path, text) in report.outputs do
      writePath path text
    for line in report.lines do
      IO.println line
    pure (UInt32.ofNat report.status.code)
