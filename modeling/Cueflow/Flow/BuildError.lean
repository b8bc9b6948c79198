import Cueflow.Number.Text
/-!
# Rejected flows

A flow is checked when it is built and never fails while it runs. `BuildError` names
the four ways in which a wait or a schedule can be rejected.
-/

namespace Cueflow

/-- Why a wait or a timeline was rejected. -/
inductive BuildError (T : Type) where
  /-- The range of a wait is reversed, negative or not finite. -/
  | timeRange (min max : T)
  /-- The start time of an event is negative or not finite. -/
  | eventTime (index : Nat) (time : T)
  /-- The duration of an event is negative or not finite. -/
  | eventDuration (index : Nat) (duration : T)
  /-- An event starts before the event just before it in the list. -/
  | eventOrder (index : Nat) (time previous : T)

/-- The message for a reader. -/
def BuildError.message : BuildError Float32 → String
  | .timeRange min max => s!"Invalid time range: min {num min}, max {num max}"
  | .eventTime index time => s!"Event {index} has invalid time {num time}"
  | .eventDuration index duration => s!"Event {index} has invalid duration {num duration}"
  | .eventOrder index time previous =>
    s!"Event {index} at {num time}s is scheduled before its predecessor at {num previous}s"
where
  /-- Numbers in messages are written plainly. -/
  num (x : Float32) : String := Number.NumberStyle.plain.text x

end Cueflow
