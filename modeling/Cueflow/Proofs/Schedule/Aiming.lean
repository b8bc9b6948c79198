import Cueflow.Proofs.Flow.Resolver
import Cueflow.Proofs.Schedule.Recording
/-!
# Playbacks with another target

A playback looks at its target once, when it ends by itself.

> `step_aim`: the step of a playback with some target is the step of the same playback without
> one, with the target resolved at the end.

An abort does not look at it at all (`abort_aim`).
-/

namespace Cueflow

variable {T H K K' C : Type}

namespace Playback

/-- The same playback with another target, or without one. -/
def aim (p : Playback T H K C) (target : Option (Target K' C)) : Playback T H K' C where
  timeline := p.timeline
  target := target
  phase := p.phase
  currentTime := p.currentTime
  cursor := p.cursor
  active := p.active

/-- What becomes of a step without a target when there is one: it is resolved at the end. -/
def aimStep [Builder K' H C] (target : Option (Target K' C)) :
    StepResult C × Playback T H K C × H → StepResult C × Playback T H K' C × H
  | (.suspend, p, h) => (.suspend, p.aim target, h)
  | (.done _, p, h) => (.done (Target.reach target h).1, p.aim none, (Target.reach target h).2)

section Aiming

variable [Scalar T] [Builder K H C] [Builder K' H C]

omit [Scalar T] in
theorem finish_aim (p : Playback T H K C) (target : Option (Target K' C)) (phase : PlayPhase)
    (active : List Nat) (h : H) :
    (p.aim target).finish phase active h =
      aimStep target ((p.aim (none : Option (Target K C))).finish phase active h) := by
  cases target with
  | none => rfl
  | some target => rfl

theorem advance_aim (p : Playback T H K C) (target : Option (Target K' C)) (h : H) :
    (p.aim target).advance h =
      aimStep target ((p.aim (none : Option (Target K C))).advance h) := by
  unfold advance
  rcases htrig : triggerDue p.currentTime p.pending p.cursor p.active h with
    ⟨reached, cursor, active, h'⟩
  have haimed : triggerDue (p.aim target).currentTime (p.aim target).pending
      (p.aim target).cursor (p.aim target).active h = (reached, cursor, active, h') := htrig
  have hunaimed : triggerDue (p.aim (none : Option (Target K C))).currentTime
      (p.aim (none : Option (Target K C))).pending (p.aim (none : Option (Target K C))).cursor
      (p.aim (none : Option (Target K C))).active h = (reached, cursor, active, h') := htrig
  rw [haimed, hunaimed]
  cases reached with
  | future => rfl
  | exit => exact finish_aim { p with cursor, active } target .exited active h'
  | all =>
    dsimp only
    by_cases hempty : active.isEmpty
    · rw [if_pos hempty, if_pos hempty]
      exact finish_aim { p with cursor, active } target .finished [] h'
    · rw [if_neg hempty, if_neg hempty]
      rfl

theorem proceed_aim (p : Playback T H K C) (target : Option (Target K' C)) (h : H) :
    (p.aim target).proceed h =
      aimStep target ((p.aim (none : Option (Target K C))).proceed h) := by
  unfold proceed
  by_cases hwait : p.isWaiting = true
  · have haimed : (p.aim target).isWaiting = true := hwait
    have hunaimed : (p.aim (none : Option (Target K C))).isWaiting = true := hwait
    rw [if_pos haimed, if_pos hunaimed]
    rcases hupd : updateOngoing p.timeline.events p.currentTime p.active h with
      ⟨exited, still, h'⟩
    have haimed : updateOngoing (p.aim target).timeline.events (p.aim target).currentTime
        (p.aim target).active h = (exited, still, h') := hupd
    have hunaimed : updateOngoing (p.aim (none : Option (Target K C))).timeline.events
        (p.aim (none : Option (Target K C))).currentTime
        (p.aim (none : Option (Target K C))).active h = (exited, still, h') := hupd
    rw [haimed, hunaimed]
    cases exited with
    | true => exact finish_aim p target .exited still h'
    | false => exact advance_aim { p with active := still } target h'
  · have haimed : ¬ (p.aim target).isWaiting = true := hwait
    have hunaimed : ¬ (p.aim (none : Option (Target K C))).isWaiting = true := hwait
    rw [if_neg haimed, if_neg hunaimed]
    exact advance_aim p target h

/-- The target plays no part in a step but at its end. -/
theorem step_aim [Host H T] {p : Playback T H K C} (hrun : p.phase.isTerminal = false)
    (target : Option (Target K' C)) (h : H) :
    (p.aim target).step h = aimStep target ((p.aim (none : Option (Target K C))).step h) := by
  rw [step_eq_proceed (p := p.aim target) hrun, step_eq_proceed (p := p.aim none) hrun]
  exact proceed_aim (p.atTime (p.currentTime + Host.deltaTime h)) target h

omit [Scalar T] [Builder K H C] [Builder K' H C] in
theorem abort_aim (p : Playback T H K C) (target : Option (Target K' C)) (h : H) :
    (p.aim target).abort h = ((p.abort h).1.aim target, (p.abort h).2) := by
  unfold abort
  by_cases hover : p.phase.isTerminal = true
  · have haimed : (p.aim target).phase.isTerminal = true := hover
    rw [if_pos haimed, if_pos hover]
  · have haimed : ¬ (p.aim target).phase.isTerminal = true := hover
    rw [if_neg haimed, if_neg hover]
    rfl

end Aiming

end Playback

end Cueflow
