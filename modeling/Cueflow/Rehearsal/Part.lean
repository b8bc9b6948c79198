import Cueflow.Flow.Director
import Cueflow.Rehearsal.Plan
/-!
# Parts — what runs on the rehearsal stage

A part is a playback, a junction, or a countdown: an interpreter supplied from outside
the library, which suspends a number of times and then goes on. Parts that are built on
demand are named by a `Recipe`, a plan with the plans that it may refer to.
-/

namespace Cueflow.Rehearsal

/-- What is built when a target asks for it. -/
structure Recipe where
  /-- The plans that can be referred to by name. -/
  plans : List (String × FlowPlan)
  /-- What is to be built. -/
  plan : FlowPlan
  /-- What happens first. -/
  cues : List Cue

/-- What runs on the rehearsal stage. -/
inductive Part where
  /-- A timeline while it is played. -/
  | playback (p : Playback Float32 Stage Recipe Part)
  /-- A wait for one of several ways on. -/
  | junction (j : Junction Float32 Stage Recipe Part)
  /-- A countdown, with the steps that are left and the target after them. -/
  | script (name : String) (left : Nat) (target : Target Recipe Part)

namespace Part

/-- The name of the timeline, the junction or the countdown. -/
def name : Part → String
  | .playback p => p.timeline.name
  | .junction j => j.name
  | .script name _ _ => name

variable [Builder Recipe Stage Part]

/-- One step. A countdown at 0 goes on, and would do so again. -/
def step : Part → Stage → StepResult Part × Part × Stage
  | .playback p, s => let (r, p, s) := p.step s; (r, .playback p, s)
  | .junction j, s => let (r, j, s) := j.step s; (r, .junction j, s)
  | .script name 0 target, s =>
    let (next, target, s) := target.resolve (s.log s!"script:{name}:0")
    (.done next, .script name 0 target, s)
  | .script name (left + 1) target, s =>
    (.suspend, .script name left target, s.log s!"script:{name}:{left + 1}")

/-- Stops a part from outside. A countdown has nothing to clean up. -/
def abort : Part → Stage → Part × Stage
  | .playback p, s => let (p, s) := p.abort s; (.playback p, s)
  | .junction j, s => let (j, s) := j.abort s; (.junction j, s)
  | .script name left target, s => (.script name left target, s)

instance : Interpreter Part Stage where
  name := Part.name
  step := Part.step
  abort := Part.abort

end Part

end Cueflow.Rehearsal
