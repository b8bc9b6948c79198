import Cueflow.Number.Hex
import Cueflow.World.Basic
/-!
# The rehearsal stage — a world that keeps a journal

A stage is a world for trying flows out. It journals every number that is drawn and
every machine that is looked up, can be told to draw a bound of the range instead of a
number by chance, remembers the flags that were raised under a name, and keeps counters
for behaviours that answer from a script.
-/

namespace Cueflow.Rehearsal

/-- Where drawn numbers come from. -/
inductive DrawMode where
  /-- The generator of the world. -/
  | seeded
  /-- The lower bound of the range. -/
  | min
  /-- The upper bound of the range. -/
  | max
deriving DecidableEq, Repr

/-- A world that keeps a journal. -/
structure Stage where
  /-- The world itself. -/
  world : World
  /-- Where drawn numbers come from. -/
  drawMode : DrawMode
  /-- What happened, the latest last. -/
  journal : Array String
  /-- The flags that were raised last, by name. -/
  flags : Roll Handle
  /-- How often each scripted behaviour has answered. -/
  counters : Array Nat

namespace Stage

/-- A stage on which nothing has happened. -/
def ofSeed (seed : UInt64) (drawMode : DrawMode) : Stage where
  world := .ofSeed (some seed)
  drawMode
  journal := #[]
  flags := .empty
  counters := #[]

/-- Adds a line to the journal. -/
def log (line : String) (s : Stage) : Stage := { s with journal := s.journal.push line }

/-- Changes the world. -/
def onWorld (f : World → World) (s : Stage) : Stage := { s with world := f s.world }

/-- Changes the board of the world. -/
def onBoard (f : Board → Board) (s : Stage) : Stage := s.onWorld (World.onBoard f)

/-- Breaks the world. -/
def halt (s : Stage) : Stage := s.onWorld fun w => { w with broken := true }

/-- A number from a range, journalled with its bounds. -/
def draw (min max : Float32) (s : Stage) : Float32 × Stage :=
  let (x, world) := match s.drawMode with
    | .seeded => s.world.draw min max
    | .min => (min, s.world)
    | .max => (max, s.world)
  let hex := Number.singleHex
  (x, { s with world }.log s!"rand:{hex min}:{hex max}={hex x}")

/-- Looks a machine up and journals its name. -/
def lookup (name : String) (s : Stage) : Option Handle × Stage :=
  (s.world.machines.get? name, s.log s!"resolve:{name}")

/-- Raises a flag and makes it visible as a machine. -/
def register (name : String) (running : Bool) (s : Stage) : Stage :=
  let (handle, world) := s.world.newStatus running
  { s with world := world.register name handle, flags := s.flags.insert name handle }

/-- Changes the flag that was last raised under a name, if there is one. -/
def flag (name : String) (running : Bool) (s : Stage) : Stage :=
  match s.flags.get? name with
  | some handle => s.onWorld fun w => w.post handle running
  | none => s

/-- A counter that has counted nothing. -/
def newCounter (s : Stage) : Nat × Stage :=
  (s.counters.size, { s with counters := s.counters.push 0 })

/-- The answer that is due from a list of answers, the last of which repeats, by the
count of this counter; nothing from an empty list. -/
def nextAnswer {α : Type} (answers : List α) (counter : Nat) (s : Stage) :
    Option α × Stage :=
  let n := s.counters.getD counter 0
  (answers[min n (answers.length - 1)]?,
    { s with counters := s.counters.setIfInBounds counter (n + 1) })

/-- The journal, and the stage with an empty one. -/
def takeJournal (s : Stage) : Array String × Stage := (s.journal, { s with journal := #[] })

end Stage

instance : Host Stage Float32 where
  deltaTime s := s.world.deltaTime
  draw := Stage.draw
  lookup := Stage.lookup
  isRunning handle s := s.world.isRunning handle

instance : StatusBoard Stage where
  newStatus s := let (handle, world) := s.world.newStatus false; (handle, { s with world })
  post handle running := Stage.onWorld fun w => w.post handle running

end Cueflow.Rehearsal
