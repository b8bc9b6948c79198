import Cueflow.Number.Scalar
import Cueflow.Flow.BuildError
import Cueflow.Flow.Host
/-!
# Waits and dependencies — conditions with a session of their own

A condition is checked in sessions: a session is started, evaluated any number of times
and ended. A `Wait` draws its length when a session starts and counts it down at every
evaluation. A `Dependency` looks up its machine when a session starts, keeps that handle
until the session ends, and asks it anew at every evaluation.
-/

namespace Cueflow

/-- Holds once a time drawn from `[min, max]` has passed. Time passes for it only when
it is evaluated. -/
structure Wait (T : Type) where
  /-- The shortest wait. -/
  min : T
  /-- The longest wait. -/
  max : T
  /-- The time left in this session. -/
  remaining : T

namespace Wait

variable {T H : Type} [Scalar T]

/-- A wait of a time from `[min, max]`: both finite, not below 0, and in order. -/
def between (min max : T) : Except (BuildError T) (Wait T) :=
  if !Scalar.isFinite min || !Scalar.isFinite max || decide (min < 0) || decide (max < min)
  then .error (.timeRange min max)
  else .ok ⟨min, max, min⟩

/-- A wait of exactly this time. -/
def fixed (seconds : T) : Except (BuildError T) (Wait T) := between seconds seconds

variable [Host H T]

/-- Starts a session: draws the time to wait. -/
def start (w : Wait T) (h : H) : Wait T × H :=
  let (remaining, h) := Host.draw w.min w.max h
  ({ w with remaining }, h)

/-- Counts down by the host's delta; holds when nothing is left. -/
def isMet (w : Wait T) (h : H) : Bool × Wait T × H :=
  let remaining := w.remaining - Host.deltaTime h
  (decide (remaining ≤ 0), { w with remaining }, h)

end Wait

/-- Holds while a named machine is running. -/
structure Dependency where
  /-- The name that is looked up. -/
  name : String
  /-- What the look-up at the start of this session found. -/
  handle : Option Handle
deriving DecidableEq, Repr

namespace Dependency

variable {T H : Type} [Host H T]

/-- A dependency on the machine with this name, outside any session. -/
def on (name : String) : Dependency := ⟨name, none⟩

/-- Whether a machine was found for this session. -/
def isResolved (d : Dependency) : Bool := d.handle.isSome

/-- Starts a session: looks the machine up. -/
def start (d : Dependency) (h : H) : Dependency × H :=
  let (handle, h) := Host.lookup d.name h
  ({ d with handle }, h)

/-- Asks the machine that was found; a missing one is not running. -/
def isMet (d : Dependency) (h : H) : Bool :=
  match d.handle with
  | some handle => Host.isRunning handle h
  | none => false

/-- Ends the session: lets the machine go. -/
def finish (d : Dependency) : Dependency := { d with handle := none }

end Dependency

end Cueflow
