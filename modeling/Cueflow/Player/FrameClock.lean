import Cueflow.Number.Scalar
import Cueflow.Number.Binary
import Cueflow.Player.Settings
/-!
# Frame clocks — frames of any length, steps of one length

Frames arrive with arbitrary lengths and flows are stepped with a constant delta. The
clock scales the length of a frame, adds it to what it owes, and pays in whole steps. In
one frame it plays no more than `maxSteps` steps; a frame that plays so many writes off
what is still owed.
-/

namespace Cueflow

/-- Turns frame time into fixed steps. -/
structure FrameClock (T : Type) where
  /-- The length of a step. -/
  fixedTimestep : T
  /-- How fast simulated time passes. -/
  timeScale : T
  /-- The most steps in one frame. -/
  maxSteps : Nat
  /-- The time that no step has paid for. -/
  owed : T
  /-- Frames since the clock started. -/
  frameCount : Nat
  /-- Scaled time since the clock started. -/
  elapsedTime : T

namespace FrameClock

variable {T : Type} [Scalar T]

/-- Pays `owed` in steps of length `fixed`, at most `budget` of them, and gives the
count, counted on from `steps`, with what is owed afterwards: nothing once the budget is
used up. -/
def pay (fixed : T) : (budget steps : Nat) → (owed : T) → Nat × T
  | 0, steps, _ => (steps, 0)
  | budget + 1, steps, owed =>
    if fixed ≤ owed then pay fixed budget (steps + 1) (owed - fixed) else (steps, owed)

/-- No more steps are paid than the budget allows. -/
theorem pay_le (fixed : T) (budget steps : Nat) (owed : T) :
    steps ≤ (pay fixed budget steps owed).1 ∧
      (pay fixed budget steps owed).1 ≤ steps + budget := by
  induction budget generalizing steps owed with
  | zero => simp [pay]
  | succ budget ih =>
    simp only [pay]
    split
    · have := ih (steps + 1) (owed - fixed); omega
    · simp

/-- Registers a frame and gives the number of steps to play. -/
def advance [Mul T] (c : FrameClock T) (deltaTime : T) : Nat × FrameClock T :=
  let scaled := deltaTime * c.timeScale
  let (steps, owed) := pay c.fixedTimestep c.maxSteps 0 (c.owed + scaled)
  (steps, { c with
    owed
    frameCount := c.frameCount + 1
    elapsedTime := c.elapsedTime + scaled })

/-- A frame never has more steps than allowed. -/
theorem advance_le [Mul T] (c : FrameClock T) (deltaTime : T) :
    (c.advance deltaTime).1 ≤ c.maxSteps := by
  have := (pay_le c.fixedTimestep c.maxSteps 0 (c.owed + deltaTime * c.timeScale)).2
  simpa [advance] using this

/-- Sets how fast time passes, within `[0, 10]`. -/
def setTimeScale [OfNat T 10] (c : FrameClock T) (scale : T) : FrameClock T :=
  { c with timeScale := Scalar.clamp 0 10 scale }

/-- Forgets the time and the frames so far. -/
def reset (c : FrameClock T) : FrameClock T :=
  { c with owed := 0, frameCount := 0, elapsedTime := 0 }

/-- A clock that has seen no frame; it plays at least one step when one is due. -/
def new [OfNat T 10] (fixedTimestep timeScale : T) (maxSteps : Nat) : FrameClock T :=
  setTimeScale
    { fixedTimestep
      timeScale := 1
      maxSteps := max maxSteps 1
      owed := 0
      frameCount := 0
      elapsedTime := 0 } timeScale

/-- The clock of a run, which counts in double width. -/
def ofSettings (s : Settings) : FrameClock Float :=
  new (Number.widen s.fixedTimestep) (Number.widen s.timeScale) s.maxStepsPerFrame.toNat

/-- The delta that flows are stepped with. -/
def stepDelta (c : FrameClock Float) : Float32 := Number.narrow c.fixedTimestep

end FrameClock

end Cueflow
