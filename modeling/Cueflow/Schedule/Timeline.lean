import Cueflow.Schedule.Event
import Cueflow.Flow.BuildError
/-!
# Timelines — checked lists of events

A timeline is a name and events in the order in which they start. Building one checks
every event in turn, its time first, then its duration, then its place after the event
before it; the events are never sorted or changed.
-/

namespace Cueflow

/-- Events in the order in which they start. -/
structure Timeline (T H : Type) where
  /-- Shown in diagnostics. -/
  name : String
  /-- The events in order. -/
  events : List (Event T H)

namespace Timeline

variable {T H : Type} [Scalar T]

/-- A time or a duration that can be placed on a timeline: finite and not below 0. -/
def placeable (x : T) : Bool := Scalar.isFinite x && !decide (x < 0)

/-- Checks the events from place `index` on, of which none may start before
`previous`. -/
def checkFrom : (index : Nat) → (previous : T) → List (Event T H) →
    Except (BuildError T) Unit
  | _, _, [] => .ok ()
  | index, previous, e :: rest =>
    if !placeable e.time then .error (.eventTime index e.time)
    else if !placeable e.duration then .error (.eventDuration index e.duration)
    else if e.time < previous then .error (.eventOrder index e.time previous)
    else checkFrom (index + 1) e.time rest

/-- The timeline of these events, or the first thing that is wrong with them. -/
def ofEvents (name : String) (events : List (Event T H)) :
    Except (BuildError T) (Timeline T H) :=
  (checkFrom 0 0 events).map fun _ => ⟨name, events⟩

/-- A timeline that is accepted keeps its name and its events. -/
theorem eq_of_ofEvents {name : String} {events : List (Event T H)} {t : Timeline T H}
    (h : ofEvents name events = .ok t) : t = ⟨name, events⟩ := by
  unfold ofEvents at h
  cases hc : checkFrom 0 0 events with
  | error e => simp [hc, Except.map] at h
  | ok u => simpa [hc, Except.map, eq_comm] using h

/-- A timeline without events. -/
def empty (name : String) : Timeline T H := ⟨name, []⟩

/-- How many events there are. -/
def size (t : Timeline T H) : Nat := t.events.length

/-- When the last event starts; 0 for a timeline without events. -/
def lastTime (t : Timeline T H) : T := (t.events.getLast?.map Event.time).getD 0

end Timeline

end Cueflow
