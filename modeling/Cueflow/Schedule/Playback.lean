import Cueflow.Schedule.Timeline
import Cueflow.Flow.Host
import Cueflow.Flow.Target
/-!
# Playbacks — a timeline while it is played

A playback adds the host's delta to its clock at every step. As long as the next event
lies ahead, or no event is left, the step updates the ongoing events in the order in
which they were triggered; then it triggers every event that is due. A step that finds
an event due therefore triggers and does not update.

A playback ends when nothing is scheduled and nothing is ongoing (`finished`), when an
event asks for it (`exited`), or when it is aborted. On each of these ways every ongoing
event is closed, and all of them are closed before the target is resolved.
-/

namespace Cueflow

/-- How far a playback has come. -/
inductive PlayPhase where
  /-- Never stepped. -/
  | notStarted
  /-- Something is scheduled or ongoing. -/
  | running
  /-- Every event has been played. -/
  | finished
  /-- Stopped by an event. -/
  | exited
  /-- Stopped from outside. -/
  | aborted
deriving DecidableEq, Repr

/-- Whether the playback is over. -/
def PlayPhase.isTerminal : PlayPhase → Bool
  | .notStarted | .running => false
  | .finished | .exited | .aborted => true

/-- A timeline while it is played. -/
structure Playback (T H K C : Type) where
  /-- What is played. -/
  timeline : Timeline T H
  /-- Where to go when the playback ends by itself; taken when it is resolved. -/
  target : Option (Target K C)
  /-- How far the playback has come. -/
  phase : PlayPhase
  /-- The time since the playback started. -/
  currentTime : T
  /-- The index of the next event to trigger. -/
  cursor : Nat
  /-- The indices of the ongoing events in the order in which they were triggered. -/
  active : List Nat

/-- What ended a run through the scheduled events. -/
inductive Reached where
  /-- An event that is not due yet. -/
  | future
  /-- The end of the timeline. -/
  | all
  /-- An event that asked to exit. -/
  | exit
deriving DecidableEq, Repr

namespace Playback

variable {T H K C : Type} [Scalar T]

/-- A playback that has not started. -/
def ofTimeline (timeline : Timeline T H) : Playback T H K C where
  timeline
  target := none
  phase := .notStarted
  currentTime := 0
  cursor := 0
  active := []

/-- The playback that goes on with `target` when it ends by itself. -/
def andThen (p : Playback T H K C) (target : Target K C) : Playback T H K C :=
  { p with target := some target }

/-- How many events are ongoing. -/
def activeCount (p : Playback T H K C) : Nat := p.active.length

/-- How many events have not been triggered. -/
def pendingCount (p : Playback T H K C) : Nat := p.timeline.size - p.cursor

/-- The events that have not been triggered. -/
def pending (p : Playback T H K C) : List (Event T H) := p.timeline.events.drop p.cursor

/-- Nothing is due: the next event lies ahead, or none is left while some are
ongoing. -/
def isWaiting (p : Playback T H K C) : Bool :=
  match p.timeline.events[p.cursor]? with
  | some next => decide (p.currentTime < next.time)
  | none => !p.active.isEmpty

/-- Updates the ongoing events in order and closes those that are over. The answer is
whether one asked to exit, which ends the pass, and the events that are ongoing then. -/
def updateOngoing (events : List (Event T H)) (now : T) :
    List Nat → H → Bool × List Nat × H
  | [], h => (false, [], h)
  | i :: rest, h =>
    match events[i]? with
    | none => updateOngoing events now rest h
    | some e =>
      match e.update now h with
      | (.ongoing, h) =>
        let (exited, still, h) := updateOngoing events now rest h
        (exited, i :: still, h)
      | (.finished, h) => updateOngoing events now rest (e.close h)
      | (.exit, h) => (true, i :: rest, h)

/-- Closes events in order. -/
def closeAll (events : List (Event T H)) : List Nat → H → H
  | [], h => h
  | i :: rest, h =>
    match events[i]? with
    | none => closeAll events rest h
    | some e => closeAll events rest (e.close h)

/-- Triggers the scheduled events that are due at `now`, the first of which has index
`cursor`. The answer is what stopped the run, the index of the next event, and the
events that are ongoing then. -/
def triggerDue (now : T) : (pending : List (Event T H)) → (cursor : Nat) →
    (active : List Nat) → H → Reached × Nat × List Nat × H
  | [], cursor, active, h => (.all, cursor, active, h)
  | e :: rest, cursor, active, h =>
    if now < e.time then (.future, cursor, active, h)
    else
      match e.trigger h with
      | (.finished, h) => triggerDue now rest (cursor + 1) active h
      | (.ongoing, h) => triggerDue now rest (cursor + 1) (active ++ [cursor]) h
      | (.exit, h) => (.exit, cursor, active, h)

/-- Ends the playback with the events in `active` ongoing: closes them, skips what is
left, and resolves the target, which can happen once. -/
def finish [Builder K H C] (p : Playback T H K C) (phase : PlayPhase)
    (active : List Nat) (h : H) : StepResult C × Playback T H K C × H :=
  let h := closeAll p.timeline.events active h
  let p := { p with phase, cursor := p.timeline.size, active := [] }
  match p.target with
  | none => (.done none, p, h)
  | some target =>
    let (next, _, h) := target.resolve h
    (.done next, { p with target := none }, h)

/-- The part of a step after the updates: triggers what is due. -/
def advance [Builder K H C] (p : Playback T H K C) (h : H) :
    StepResult C × Playback T H K C × H :=
  match triggerDue p.currentTime p.pending p.cursor p.active h with
  | (.future, cursor, active, h) => (.suspend, { p with cursor, active }, h)
  | (.exit, cursor, active, h) => finish { p with cursor, active } .exited active h
  | (.all, cursor, active, h) =>
    if active.isEmpty then finish { p with cursor, active } .finished [] h
    else (.suspend, { p with cursor, active }, h)

/-- One step. A playback that is over has nothing left to do. -/
def step [Host H T] [Builder K H C] (p : Playback T H K C) (h : H) :
    StepResult C × Playback T H K C × H :=
  if p.phase.isTerminal then (.done none, p, h)
  else
    let p := { p with phase := .running, currentTime := p.currentTime + Host.deltaTime h }
    if p.isWaiting then
      match updateOngoing p.timeline.events p.currentTime p.active h with
      | (true, active, h) => finish p .exited active h
      | (false, active, h) => advance { p with active } h
    else advance p h

/-- Stops the playback from outside: closes what is ongoing and resolves nothing. -/
def abort (p : Playback T H K C) (h : H) : Playback T H K C × H :=
  if p.phase.isTerminal then (p, h)
  else
    ({ p with phase := .aborted, cursor := p.timeline.size, active := [] },
      closeAll p.timeline.events p.active h)

/-! ## What the parts of a step keep -/

omit [Scalar T] in
/-- Closing in order can be cut anywhere. -/
theorem closeAll_append (events : List (Event T H)) (xs ys : List Nat) (h : H) :
    closeAll events (xs ++ ys) h = closeAll events ys (closeAll events xs h) := by
  induction xs generalizing h with
  | nil => rfl
  | cons i rest ih =>
    simp only [List.cons_append, closeAll]
    split <;> exact ih _

/-- Updating drops events from the ongoing ones and adds none. -/
theorem updateOngoing_sublist (events : List (Event T H)) (now : T) (active : List Nat)
    (h : H) : (updateOngoing events now active h).2.1.Sublist active := by
  induction active generalizing h with
  | nil => exact List.Sublist.slnil
  | cons i rest ih =>
    simp only [updateOngoing]
    split
    · exact (ih _).cons _
    · split
      · exact (ih _).cons_cons _
      · exact (ih _).cons _
      · exact List.Sublist.refl _

/-- Triggering goes forward: the cursor moves by the number of events passed. -/
theorem triggerDue_cursor_le (now : T) (pending : List (Event T H)) (cursor : Nat)
    (active : List Nat) (h : H) :
    cursor ≤ (triggerDue now pending cursor active h).2.1 ∧
      (triggerDue now pending cursor active h).2.1 ≤ cursor + pending.length := by
  induction pending generalizing cursor active h with
  | nil => simp [triggerDue]
  | cons e rest ih =>
    simp only [triggerDue, List.length_cons]
    split
    · simp
    · split
      · next h' _ => have := ih (cursor + 1) active h'; omega
      · next h' _ => have := ih (cursor + 1) (active ++ [cursor]) h'; omega
      · simp

/-- A playback that is over is left alone by every further step. -/
theorem step_of_isTerminal [Host H T] [Builder K H C] {p : Playback T H K C}
    (hp : p.phase.isTerminal = true) (h : H) : p.step h = (.done none, p, h) := by
  simp [step, hp]

omit [Scalar T] in
/-- A playback that is over cannot be aborted. -/
theorem abort_of_isTerminal {p : Playback T H K C} (hp : p.phase.isTerminal = true)
    (h : H) : p.abort h = (p, h) := by
  simp [abort, hp]

omit [Scalar T] in
/-- Ending a playback sets its phase. -/
theorem phase_finish [Builder K H C] (p : Playback T H K C) (phase : PlayPhase)
    (active : List Nat) (h : H) : (p.finish phase active h).2.1.phase = phase := by
  unfold finish
  dsimp only
  split <;> rfl

omit [Scalar T] in
/-- Ending a playback leaves nothing scheduled. -/
theorem pendingCount_finish [Builder K H C] (p : Playback T H K C) (phase : PlayPhase)
    (active : List Nat) (h : H) : (p.finish phase active h).2.1.pendingCount = 0 := by
  unfold finish
  dsimp only
  split <;> simp [pendingCount]

omit [Scalar T] in
/-- Ending a playback leaves nothing ongoing. -/
theorem active_finish [Builder K H C] (p : Playback T H K C) (phase : PlayPhase)
    (active : List Nat) (h : H) : (p.finish phase active h).2.1.active = [] := by
  unfold finish
  dsimp only
  split <;> rfl

end Playback

end Cueflow
