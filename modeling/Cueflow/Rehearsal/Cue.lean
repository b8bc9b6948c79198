import Cueflow.Rehearsal.Stage
/-!
# Cues and probes — behaviour as data

A cue is one thing a callback does to the stage; a list of cues is a callback. A probe
is a question about the stage. Cues and probes are what plans are written with.
-/

namespace Cueflow.Rehearsal

/-- One thing a callback does. The number at hand is the progress of a span, the elapsed
time of an event, or 0. -/
inductive Cue where
  /-- Journals a line. -/
  | log (line : String)
  /-- Journals a line with the number at hand. -/
  | logNumber (line : String)
  /-- Writes a number on the board. -/
  | set (key : String) (value : Float32)
  /-- Writes the number at hand on the board. -/
  | setNumber (key : String)
  /-- Adds to a number on the board and journals the sum. -/
  | add (key : String) (amount : Float32)
  /-- Adds a multiple of the delta to a number on the board. -/
  | addDelta (key : String) (factor : Float32)
  /-- Removes a number from the board. -/
  | remove (key : String)
  /-- Draws a number and writes it on the board. -/
  | draw (key : String) (min max : Float32)
  /-- Changes a flag. -/
  | flag (name : String) (running : Bool)
  /-- Raises a flag and makes it visible as a machine. -/
  | register (name : String) (running : Bool)
  /-- Takes a machine out of sight. -/
  | unregister (name : String)
  /-- Begins a tick. -/
  | tick (deltaTime : Float32)
  /-- Breaks the world. -/
  | halt

/-- Runs a cue with the number at hand. -/
def Cue.run (number : Float32) : Cue → Stage → Stage
  | .log line, s => s.log line
  | .logNumber line, s => s.log s!"{line}:{Number.singleHex number}"
  | .set key value, s => s.onBoard fun b => b.insert key value
  | .setNumber key, s => s.onBoard fun b => b.insert key number
  | .add key amount, s =>
    let (sum, board) := Board.add s.world.board key amount
    (s.onBoard fun _ => board).log s!"add:{key}={Number.singleHex sum}"
  | .addDelta key factor, s =>
    s.onBoard fun b => (Board.add b key (s.world.deltaTime * factor)).2
  | .remove key, s => s.onBoard fun b => b.erase key
  | .draw key min max, s =>
    let (x, s) := s.draw min max
    s.onBoard fun b => b.insert key x
  | .flag name running, s => s.flag name running
  | .register name running, s => s.register name running
  | .unregister name, s =>
    let (found, world) := s.world.unregister name
    { s with world }.log s!"unregister:{name}={found}"
  | .tick deltaTime, s => s.onWorld fun w => w.beginTick deltaTime
  | .halt, s => s.halt

/-- Runs cues in order. -/
def runCues (number : Float32) (cues : List Cue) (s : Stage) : Stage :=
  cues.foldl (fun s cue => cue.run number s) s

/-- How two numbers are compared. -/
inductive Comparison where
  | greater
  | atMost
  | less
  | equal
  | different
  | atLeast
deriving DecidableEq, Repr

/-- Whether the comparison holds. -/
def Comparison.holds : Comparison → Float32 → Float32 → Bool
  | .greater, x, y => y < x
  | .atMost, x, y => x ≤ y
  | .less, x, y => x < y
  | .equal, x, y => x == y
  | .different, x, y => x != y
  | .atLeast, x, y => y ≤ x

/-- A question about the stage. -/
inductive Probe where
  /-- A fixed answer. -/
  | const (answer : Bool)
  /-- Whether a name is on the board. -/
  | has (key : String)
  /-- How a number on the board compares. -/
  | compare (key : String) (comparison : Comparison) (value : Float32)

/-- The answer to a probe. -/
def Probe.answer : Probe → Stage → Bool
  | .const answer, _ => answer
  | .has key, s => s.world.board.contains key
  | .compare key comparison value, s => comparison.holds (Board.get s.world.board key) value

/-- The answer that is due from a script, or the answer to the probe if the script is
empty. -/
def Probe.answerOr (probe : Probe) (script : List Bool) (counter : Nat) (s : Stage) :
    Bool × Stage :=
  match script with
  | [] => (probe.answer s, s)
  | script =>
    let (answer, s) := s.nextAnswer script counter
    (answer.getD false, s)

end Cueflow.Rehearsal
