import Cueflow.Player.Show
/-!
# The command line

With a path, the settings are read from that file; without one the defaults are used.
Settings that name no seed get one from the operating system.
-/

namespace Cueflow

/-- The bytes of a file, if it can be read. -/
def readFile? (path : String) : IO (Option ByteArray) := do
  try
    return some (← IO.FS.readBinFile path)
  catch _ => return none

/-- A seed from the operating system. -/
def freshSeed : IO UInt64 := do
  return (← IO.getRandomBytes 8).foldl (fun n b => (n <<< 8) ||| b.toUInt64) 0

end Cueflow

def main (args : List String) : IO UInt32 := do
  let settings ← match args with
    | [] => pure (.ok {})
    | path :: _ => pure (Cueflow.Settings.load (← Cueflow.readFile? path))
  let seed ← Cueflow.freshSeed
  let result := Cueflow.Show.command (settings.map fun s => s.seededBy seed)
  IO.print result.output
  return result.exitCode.toUInt32
