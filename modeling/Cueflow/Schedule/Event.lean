import Cueflow.Number.Scalar
/-!
# Events — what happens at a point of a timeline

An event is triggered once, when its timeline reaches its start. It is over on the spot
(`finished`), or stays `ongoing` and is then updated with the time since its start until
it reports that it is over, or it asks the whole timeline to stop (`exit`). An ongoing
event is closed once.

Built-in events are calls, spans (driven with their progress from 0 to 1) and the exit;
authors add their own as a `TimedEvent`.
-/

namespace Cueflow

/-- What an event reports to its timeline. -/
inductive EventStatus where
  /-- Keep updating this event. -/
  | ongoing
  /-- This event is over; the timeline goes on. -/
  | finished
  /-- This event is over and the timeline stops at once. -/
  | exit
deriving DecidableEq, Repr

variable {T H : Type}

/-- The time-up test of everything that has a duration: over once `elapsed` has reached
it. An undefined time never has. -/
def EventStatus.until [Scalar T] (elapsed duration : T) : EventStatus :=
  if duration ≤ elapsed then .finished else .ongoing

/-- Time is up exactly when the elapsed time has reached the duration. -/
theorem EventStatus.until_eq_finished_iff [Scalar T] {elapsed duration : T} :
    EventStatus.until elapsed duration = .finished ↔ duration ≤ elapsed := by
  unfold EventStatus.until
  split <;> simp_all

/-- Running out of time never asks for an exit. -/
theorem EventStatus.until_ne_exit [Scalar T] (elapsed duration : T) :
    EventStatus.until elapsed duration ≠ .exit := by
  unfold EventStatus.until
  split <;> simp

/-- An event supplied by an author. -/
structure TimedEvent (T H : Type) where
  /-- Runs when the timeline reaches the event. -/
  trigger : H → EventStatus × H
  /-- Runs while the event is ongoing, with the elapsed time and the duration. -/
  update : T → T → H → EventStatus × H
  /-- Runs once for an event that went ongoing. -/
  close : H → H

/-- An author's event that only reacts to its trigger: it lasts for its duration and
closes without a callback. -/
def TimedEvent.ofTrigger [Scalar T] (trigger : H → EventStatus × H) : TimedEvent T H where
  trigger
  update elapsed duration h := (.until elapsed duration, h)
  close h := h

/-- What an event does. -/
inductive EventAction (T H : Type) where
  /-- A callback, over at once. -/
  | call (f : H → H)
  /-- A callback driven with the progress over the duration. -/
  | span (f : T → H → H)
  /-- Stops the timeline as soon as it is reached. -/
  | exitState
  /-- Whatever an author supplies. -/
  | custom (event : TimedEvent T H)

namespace EventAction

/-- The name of the kind of action. -/
def kind : EventAction T H → String
  | .call _ => "call"
  | .span _ => "span"
  | .exitState => "exit_state"
  | .custom _ => "custom"

variable [Scalar T]

/-- How far a span has come: the share of the duration that has elapsed, kept in
`[0, 1]`, and 1 for a span without duration. -/
def progress (elapsed duration : T) : T :=
  if 0 < duration then Scalar.clamp 0 1 (elapsed / duration) else 1

/-- Runs the action at its start. -/
def trigger : EventAction T H → H → EventStatus × H
  | .call f, h => (.finished, f h)
  | .span f, h => (.ongoing, f 0 h)
  | .exitState, h => (.exit, h)
  | .custom event, h => event.trigger h

/-- Runs the action while it is ongoing. Calls and exits never are. -/
def update : EventAction T H → T → T → H → EventStatus × H
  | .span f, elapsed, duration, h =>
    (.until elapsed duration, f (progress elapsed duration) h)
  | .custom event, elapsed, duration, h => event.update elapsed duration h
  | .call _, _, _, h => (.finished, h)
  | .exitState, _, _, h => (.finished, h)

/-- Closes an action that went ongoing. -/
def close : EventAction T H → H → H
  | .custom event, h => event.close h
  | .call _, h => h
  | .span _, h => h
  | .exitState, h => h

/-- A call is over as soon as it has been triggered. -/
@[simp] theorem trigger_call (f : H → H) (h : H) :
    (EventAction.call f : EventAction T H).trigger h = (.finished, f h) := rfl

/-- A span starts with progress 0. -/
@[simp] theorem trigger_span (f : T → H → H) (h : H) :
    (EventAction.span f).trigger h = (.ongoing, f 0 h) := rfl

/-- An exit acts on nothing. -/
@[simp] theorem trigger_exitState (h : H) :
    (EventAction.exitState : EventAction T H).trigger h = (.exit, h) := rfl

/-- A span without duration is complete at its first update. -/
theorem progress_of_not_pos {elapsed duration : T} (h : ¬ 0 < duration) :
    progress elapsed duration = 1 := if_neg h

end EventAction

/-- An action at a place of a timeline. -/
structure Event (T H : Type) where
  /-- Shown in diagnostics. -/
  label : String
  /-- When the event starts, counted from the start of the timeline. -/
  time : T
  /-- How long it lasts. -/
  duration : T
  /-- What it does. -/
  action : EventAction T H

namespace Event

/-- An event labelled with the kind of its action. -/
def make (time duration : T) (action : EventAction T H) : Event T H :=
  ⟨action.kind, time, duration, action⟩

/-- A call at a point in time. -/
def call [Scalar T] (time : T) (f : H → H) : Event T H := make time 0 (.call f)

/-- A span over a stretch of time. -/
def span (time duration : T) (f : T → H → H) : Event T H := make time duration (.span f)

/-- An exit at a point in time. -/
def exitState [Scalar T] (time : T) : Event T H := make time 0 .exitState

/-- An author's event. -/
def custom (time duration : T) (event : TimedEvent T H) : Event T H :=
  make time duration (.custom event)

/-- The same event under another label. -/
def withLabel (e : Event T H) (label : String) : Event T H := { e with label }

variable [Scalar T]

/-- Runs the event at its start. -/
def trigger (e : Event T H) (h : H) : EventStatus × H := e.action.trigger h

/-- Runs the event when its timeline has reached `now`. -/
def update (e : Event T H) (now : T) (h : H) : EventStatus × H :=
  e.action.update (now - e.time) e.duration h

/-- Closes the event. -/
def close (e : Event T H) (h : H) : H := e.action.close h

end Event

end Cueflow
