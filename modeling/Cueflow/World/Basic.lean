import Cueflow.Chance.Generator
import Cueflow.Flow.Host
import Cueflow.World.Board
import Cueflow.Number.Binary
/-!
# The world — the host that plays

The world holds the board that callbacks read and write, the generator behind timed
waits, and the machines that dependencies look up. Running statuses live in numbered
cells, and a handle is the number of a cell: registering a machine puts a handle under
its name, and a handle that was looked up keeps its cell when the name goes to another
machine or is removed.

A number cannot be drawn from an impossible range. A world that is asked for one is
`broken` from then on, and what it does afterwards means nothing.
-/

namespace Cueflow

/-- The state that flows act on. -/
structure World where
  /-- The length of the current tick. -/
  deltaTime : Float32
  /-- The source of chance. -/
  generator : Chance.Generator
  /-- The shared numbers. -/
  board : Board
  /-- The machines that can be looked up. -/
  machines : Roll Handle
  /-- The running statuses by number. -/
  statuses : Array Bool
  /-- The time since the world was made. -/
  elapsedTime : Float
  /-- The ticks since the world was made. -/
  tickCount : Nat
  /-- Whether a number was asked for that cannot be drawn. -/
  broken : Bool

namespace World

/-- A world in which nothing has happened. -/
def ofGenerator (generator : Chance.Generator) : World where
  deltaTime := 0
  generator
  board := .empty
  machines := .empty
  statuses := #[]
  elapsedTime := 0
  tickCount := 0
  broken := false

/-- A world in which nothing has happened; without a seed the stream of seed 0. -/
def ofSeed (seed : Option UInt64) : World := ofGenerator (.ofSeed (seed.getD 0))

/-- Begins a tick of this length. -/
def beginTick (w : World) (deltaTime : Float32) : World :=
  { w with
    deltaTime
    elapsedTime := w.elapsedTime + Number.widen deltaTime
    tickCount := w.tickCount + 1 }

/-- A number from `[min, max]`, or nothing if the range is impossible. A range of one
number, or a reversed one, gives its lower bound and leaves the generator alone. -/
def draw? (w : World) (min max : Float32) : Option (Float32 × World) :=
  if max ≤ min then some (min, w)
  else
    (w.generator.draw? min max).map fun (x, generator) => (x, { w with generator })

/-- The same for a flow, which cannot fail: an impossible range breaks the world. -/
def draw (w : World) (min max : Float32) : Float32 × World :=
  (w.draw? min max).getD (min, { w with broken := true })

/-- Makes a status visible under a name. -/
def register (w : World) (name : String) (handle : Handle) : World :=
  { w with machines := w.machines.insert name handle }

/-- Removes a name; whether there was one. -/
def unregister (w : World) (name : String) : Bool × World :=
  (w.machines.contains name, { w with machines := w.machines.erase name })

/-- A new status. -/
def newStatus (w : World) (running : Bool) : Handle × World :=
  (⟨w.statuses.size⟩, { w with statuses := w.statuses.push running })

/-- Whether the machine behind a handle is running. -/
def isRunning (w : World) (handle : Handle) : Bool := w.statuses.getD handle.index false

/-- Changes the status behind a handle. -/
def post (w : World) (handle : Handle) (running : Bool) : World :=
  { w with statuses := w.statuses.setIfInBounds handle.index running }

/-- Changes the board. -/
def onBoard (f : Board → Board) (w : World) : World := { w with board := f w.board }

/-- A status that is kept is read back as it was posted. -/
theorem isRunning_post_self {w : World} {handle : Handle}
    (hlt : handle.index < w.statuses.size) (running : Bool) :
    (w.post handle running).isRunning handle = running := by
  simp [isRunning, post, hlt]

/-- Posting under one handle leaves the others alone. -/
theorem isRunning_post_of_ne {handle other : Handle} (hne : other ≠ handle) (w : World)
    (running : Bool) : (w.post handle running).isRunning other = w.isRunning other := by
  have : handle.index ≠ other.index := by
    intro h
    exact hne (by cases handle; cases other; simp_all)
  simp [isRunning, post, this]

/-- A new status has a handle of its own, and the others are as they were. -/
theorem isRunning_newStatus (w : World) (running : Bool) :
    (w.newStatus running).2.isRunning (w.newStatus running).1 = running := by
  simp [isRunning, newStatus]

end World

instance : Host World Float32 where
  deltaTime := World.deltaTime
  draw min max w := w.draw min max
  lookup name w := (w.machines.get? name, w)
  isRunning handle w := w.isRunning handle

instance : StatusBoard World where
  newStatus w := w.newStatus false
  post handle running w := w.post handle running

end Cueflow
