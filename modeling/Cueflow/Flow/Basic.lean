import Cueflow.Schedule.Playback
import Cueflow.Choice.Junction
/-!
# Flows — playbacks and junctions that lead to one another

Whatever can be stepped, aborted and asked for its name is an `Interpreter`. A `Flow` is
one of the two kinds of the library, with flows as its continuations: the targets of a
playback or a junction lead to further playbacks and junctions, prepared in advance to
any depth or built on demand.
-/

namespace Cueflow

/-- What can be driven one step at a time; continuations are of the same type. -/
class Interpreter (C : Type) (H : outParam Type) where
  /-- Shown in diagnostics. -/
  name : C → String
  /-- Advances by one tick. -/
  step : C → H → StepResult C × C × H
  /-- Stops early and runs what is left to clean up. -/
  abort : C → H → C × H

/-- A playback or a junction. -/
inductive Flow (T H K : Type) where
  /-- A timeline while it is played. -/
  | playback (p : Playback T H K (Flow T H K))
  /-- A wait for one of several ways on. -/
  | junction (j : Junction T H K (Flow T H K))

namespace Flow

variable {T H K : Type}

/-- The name of the timeline or the junction. -/
def name : Flow T H K → String
  | .playback p => p.timeline.name
  | .junction j => j.name

variable [Scalar T] [Host H T]

/-- One step of the playback or the junction. -/
def step [Builder K H (Flow T H K)] : Flow T H K → H →
    StepResult (Flow T H K) × Flow T H K × H
  | .playback p, h => let (r, p, h) := p.step h; (r, .playback p, h)
  | .junction j, h => let (r, j, h) := j.step h; (r, .junction j, h)

/-- Stops the playback or the junction from outside. -/
def abort : Flow T H K → H → Flow T H K × H
  | .playback p, h => let (p, h) := p.abort h; (.playback p, h)
  | .junction j, h => let (j, h) := j.abort h; (.junction j, h)

end Flow

instance {T H K : Type} [Scalar T] [Host H T] [Builder K H (Flow T H K)] :
    Interpreter (Flow T H K) H where
  name := Flow.name
  step := Flow.step
  abort := Flow.abort

end Cueflow
