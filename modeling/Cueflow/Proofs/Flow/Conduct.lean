import Cueflow.Proofs.Choice.Conduct
import Cueflow.Proofs.Flow.Soundness
/-!
# What flows are held to

> `Flow.Respects.rel_step`, `Flow.Respects.rel_abort`: a flow of which every callback keeps to a
> conduct keeps to it in all that it does to the host.
> `Flow.Respects.step`, `Flow.Respects.next`: it has the same callbacks after a step, and what
> it hands over keeps to the conduct as well.

`Flow.Respects` asks this of the continuations that were prepared, to any depth, and what is
built on demand is held to it by `Conduct.AllowsBuilding` and `Builds`.
-/

namespace Cueflow

variable {T H K C : Type} {k : Conduct H}

/-! ## Targets -/

/-- Building a continuation keeps to the conduct. -/
def Conduct.AllowsBuilding (k : Conduct H) (K C : Type) [Builder K H C] : Prop :=
  ∀ (key : K) (h : H), k.rel h (Builder.build (C := C) key h).2

theorem Target.rel_resolve [Builder K H C] (hbuild : k.AllowsBuilding K C) (target : Target K C)
    (h : H) : k.rel h (target.resolve h).2.2 := by
  cases target with
  | stop => exact k.refl h
  | handOver next => exact k.refl h
  | build key => exact hbuild key h

/-! ## Playbacks -/

/-- Every callback of the event keeps to the conduct. -/
structure Event.Respects [Scalar T] (k : Conduct H) (e : Event T H) : Prop where
  trigger : ∀ h, k.rel h (e.trigger h).2
  update : ∀ now h, k.rel h (e.update now h).2
  close : ∀ h, k.rel h (e.close h)

theorem Event.respects_call [Scalar T] {time : T} {f : H → H} (hf : ∀ h, k.rel h (f h)) :
    (Event.call time f).Respects k where
  trigger := hf
  update _ := k.refl
  close := k.refl

namespace Playback

variable [Scalar T] {events : List (Event T H)}

theorem rel_closeAll (hevents : ∀ e ∈ events, e.Respects k) (active : List Nat) (h : H) :
    k.rel h (closeAll events active h) := by
  induction active generalizing h with
  | nil => exact k.refl h
  | cons i rest ih =>
    unfold closeAll
    split
    · exact ih h
    · next e he =>
      exact k.trans ((hevents e (List.mem_of_getElem? he)).close h) (ih (e.close h))

theorem rel_updateOngoing (hevents : ∀ e ∈ events, e.Respects k) (now : T) (active : List Nat)
    (h : H) : k.rel h (updateOngoing events now active h).2.2 := by
  induction active generalizing h with
  | nil => exact k.refl h
  | cons i rest ih =>
    unfold updateOngoing
    split
    · exact ih h
    · next e he =>
      have he := hevents e (List.mem_of_getElem? he)
      have hupdate := he.update now h
      rcases hresult : e.update now h with ⟨status, h'⟩
      rw [hresult] at hupdate
      cases status with
      | ongoing => exact k.trans hupdate (ih h')
      | finished => exact k.trans hupdate (k.trans (he.close h') (ih (e.close h')))
      | exit => exact hupdate

theorem rel_triggerDue {pending : List (Event T H)} (hpending : ∀ e ∈ pending, e.Respects k)
    (now : T) (cursor : Nat) (active : List Nat) (h : H) :
    k.rel h (triggerDue now pending cursor active h).2.2.2 := by
  induction pending generalizing cursor active h with
  | nil => exact k.refl h
  | cons e rest ih =>
    obtain ⟨he, hrest⟩ := List.forall_mem_cons.1 hpending
    have htrigger := he.trigger h
    unfold triggerDue
    split
    · exact k.refl h
    · rcases hresult : e.trigger h with ⟨status, h'⟩
      rw [hresult] at htrigger
      cases status with
      | ongoing => exact k.trans htrigger (ih hrest _ _ h')
      | finished => exact k.trans htrigger (ih hrest _ _ h')
      | exit => exact htrigger

/-- Every callback of the timeline keeps to the conduct. -/
def Respects (k : Conduct H) (p : Playback T H K C) : Prop :=
  ∀ e ∈ p.timeline.events, e.Respects k

namespace Respects

variable {p : Playback T H K C}

theorem rel_abort (hp : p.Respects k) (h : H) : k.rel h (p.abort h).2 := by
  unfold Playback.abort
  split
  · exact k.refl h
  · exact rel_closeAll hp p.active h

variable [Builder K H C]

theorem rel_finish (hbuild : k.AllowsBuilding K C) (hp : p.Respects k) (phase : PlayPhase)
    (active : List Nat) (h : H) : k.rel h (p.finish phase active h).2.2 := by
  have hclosed := rel_closeAll hp active h
  unfold finish
  dsimp only
  split
  · exact hclosed
  · next target _ => exact k.trans hclosed (target.rel_resolve hbuild _)

theorem rel_advance (hbuild : k.AllowsBuilding K C) (hp : p.Respects k) (h : H) :
    k.rel h (p.advance h).2.2 := by
  have hpending : ∀ e ∈ p.pending, e.Respects k :=
    fun e he => hp e (List.mem_of_mem_drop he)
  have htriggered := rel_triggerDue hpending p.currentTime p.cursor p.active h
  unfold advance
  rcases hpass : triggerDue p.currentTime p.pending p.cursor p.active h with
    ⟨reached, cursor, active, h'⟩
  rw [hpass] at htriggered
  have hmoved : ({ p with cursor, active } : Playback T H K C).Respects k := hp
  cases reached with
  | future => exact htriggered
  | exit => exact k.trans htriggered (hmoved.rel_finish hbuild .exited active h')
  | all =>
    dsimp only
    split
    · exact k.trans htriggered (hmoved.rel_finish hbuild .finished [] h')
    · exact htriggered

/-- A step keeps to the conduct. -/
theorem rel_step [Host H T] (hbuild : k.AllowsBuilding K C) (hp : p.Respects k) (h : H) :
    k.rel h (p.step h).2.2 := by
  by_cases hover : p.phase.isTerminal = true
  · rw [step_of_isTerminal hover]
    exact k.refl h
  · rw [step_eq_proceed (by simpa using hover)]
    generalize p.currentTime + Host.deltaTime h = now
    have hmoved : (p.atTime now).Respects k := hp
    unfold proceed
    split
    · have hupdated := rel_updateOngoing hmoved (p.atTime now).currentTime (p.atTime now).active h
      rcases hpass : updateOngoing (p.atTime now).timeline.events (p.atTime now).currentTime
        (p.atTime now).active h with ⟨exited, active, h'⟩
      rw [hpass] at hupdated
      cases exited with
      | true => exact k.trans hupdated (hmoved.rel_finish hbuild .exited active h')
      | false =>
        have hrest : ({ p.atTime now with active } : Playback T H K C).Respects k := hp
        exact k.trans hupdated (hrest.rel_advance hbuild h')
    · exact hmoved.rel_advance hbuild h

end Respects

variable [Builder K H C]

omit [Scalar T] in
theorem timeline_finish (p : Playback T H K C) (phase : PlayPhase) (active : List Nat) (h : H) :
    (p.finish phase active h).2.1.timeline = p.timeline := by
  rw [(finish_eq_ended p phase active h).2]
  rfl

theorem timeline_advance (p : Playback T H K C) (h : H) :
    (p.advance h).2.1.timeline = p.timeline := by
  unfold advance
  rcases triggerDue p.currentTime p.pending p.cursor p.active h with
    ⟨reached, cursor, active, h'⟩
  cases reached with
  | future => rfl
  | exit => exact timeline_finish _ .exited active h'
  | all =>
    dsimp only
    split
    · exact timeline_finish _ .finished [] h'
    · rfl

/-- A step plays the same timeline on. -/
theorem timeline_step [Host H T] (p : Playback T H K C) (h : H) :
    (p.step h).2.1.timeline = p.timeline := by
  by_cases hover : p.phase.isTerminal = true
  · rw [step_of_isTerminal hover]
  · rw [step_eq_proceed (by simpa using hover)]
    generalize p.currentTime + Host.deltaTime h = now
    unfold proceed
    split
    · rcases updateOngoing (p.atTime now).timeline.events (p.atTime now).currentTime
        (p.atTime now).active h with ⟨exited, active, h'⟩
      cases exited with
      | true => exact timeline_finish (p.atTime now) .exited active h'
      | false => exact timeline_advance { p.atTime now with active } h'
    · exact timeline_advance (p.atTime now) h

theorem Respects.step [Host H T] {p : Playback T H K C} (hp : p.Respects k) (h : H) :
    (p.step h).2.1.Respects k := by
  unfold Respects
  rw [timeline_step]
  exact hp

end Playback

/-! ## Junctions -/

namespace Junction.Respects

variable [Host H T] {j : Junction T H K C}

theorem rel_close (hj : j.Respects k) (phase : JunctionPhase) (h : H) :
    k.rel h (j.close phase h).2 :=
  k.trans (hj.branches.finish h).1 (rel_runLogic (fun l hl => (hj.logic l hl).finish) _)

theorem rel_abort (hj : j.Respects k) (h : H) : k.rel h (j.abort h).2 := by
  unfold Junction.abort
  split
  · exact hj.rel_close .aborted h
  all_goals exact k.refl h

omit [Host H T] in
theorem rel_resolveAt [Builder K H C] (hbuild : k.AllowsBuilding K C)
    (branches : List (Branch T H K C)) (i : Nat) (h : H) :
    k.rel h (resolveAt branches i h).2.2 := by
  induction branches generalizing i with
  | nil => exact k.refl h
  | cons b rest ih =>
    cases i with
    | zero => exact b.target.rel_resolve hbuild h
    | succ i => exact ih i

/-- A step keeps to the conduct. -/
theorem rel_step [Scalar T] [Builder K H C] (hbuild : k.AllowsBuilding K C) (hj : j.Respects k)
    (h : H) : k.rel h (j.step h).2.2 := by
  rcases j.phase_cases with hrun | hover
  · obtain ⟨hopened, hstart⟩ := hj.start h
    have hupdated : k.rel h (runLogic Background.update j.logic (j.start h).2) :=
      k.trans hopened (rel_runLogic (fun l hl => (hj.logic l hl).update) _)
    rcases first_or_none (j.start h).1.branches
      (runLogic Background.update j.logic (j.start h).2) with ⟨i, hopen, hbefore⟩ | hnone
    · rw [step_of_first hrun hopen hbefore]
      obtain ⟨hturned, hbranches⟩ := hstart.branches.turn (i + 1)
        (runLogic Background.update j.logic (j.start h).2)
      have hclosed := rel_close (j := { j with
        branches := (turnBranches (i + 1) (j.start h).1.branches
          (runLogic Background.update j.logic (j.start h).2)).1
        phase := .running, ticks := j.ticks + 1, taken := some i }) ⟨hbranches, hj.logic⟩ .taken
        (turnBranches (i + 1) (j.start h).1.branches
          (runLogic Background.update j.logic (j.start h).2)).2
      exact k.trans (k.trans hupdated hturned)
        (k.trans hclosed (rel_resolveAt hbuild _ i _))
    · rw [step_of_none hrun hnone]
      exact k.trans hupdated (hstart.branches.turn _ _).1
  · rw [step_of_over hover]
    exact k.refl h

end Junction.Respects

/-! ## Flows -/

namespace Flow

variable [Scalar T] [Host H T]

/-- Every callback of the flow keeps to the conduct, and so does every callback of the
continuations that were prepared. -/
inductive Respects (k : Conduct H) : Flow T H K → Prop where
  | playback {p : Playback T H K (Flow T H K)} : p.Respects k →
      (∀ next ∈ p.prepared, Respects k next) → Respects k (.playback p)
  | junction {j : Junction T H K (Flow T H K)} : j.Respects k →
      (∀ next ∈ j.prepared, Respects k next) → Respects k (.junction j)

namespace Respects

variable {c : Flow T H K}

theorem prepared (hc : c.Respects k) : ∀ next ∈ c.prepared, next.Respects k := by
  cases hc with
  | playback _ hprepared => exact hprepared
  | junction _ hprepared => exact hprepared

theorem rel_abort (hc : c.Respects k) (h : H) : k.rel h (c.abort h).2 := by
  cases hc with
  | playback hp _ => exact hp.rel_abort h
  | junction hj _ => exact hj.rel_abort h

variable [Builder K H (Flow T H K)]

theorem rel_step (hbuild : k.AllowsBuilding K (Flow T H K)) (hc : c.Respects k) (h : H) :
    k.rel h (c.step h).2.2 := by
  cases hc with
  | playback hp _ => exact hp.rel_step hbuild h
  | junction hj _ => exact hj.rel_step hbuild h

/-- What a step hands over, and what it leaves prepared, keeps to the conduct. -/
theorem keeps_step (hbuilds : Builds K H fun c : Flow T H K => c.Respects k)
    (hc : c.Respects k) (h : H) :
    Keeps (Respects k) c.prepared (c.step h).1.next? (c.step h).2.1.prepared := by
  cases c with
  | playback p => exact Playback.keeps_step hbuilds hc.prepared h
  | junction j => exact Junction.keeps_step hbuilds hc.prepared h

theorem next (hbuilds : Builds K H fun c : Flow T H K => c.Respects k) (hc : c.Respects k)
    (h : H) {next : Flow T H K} (hnext : (c.step h).1.next? = some next) : next.Respects k :=
  (hc.keeps_step hbuilds h).next next hnext

theorem step (hbuilds : Builds K H fun c : Flow T H K => c.Respects k) (hc : c.Respects k)
    (h : H) : (c.step h).2.1.Respects k := by
  have hkept : ∀ next ∈ (c.step h).2.1.prepared, next.Respects k :=
    fun next hnext => hc.prepared next ((hc.keeps_step hbuilds h).prepared next hnext)
  cases hc with
  | playback hp _ => exact .playback (hp.step h) hkept
  | junction hj _ => exact .junction (hj.step h) hkept

end Respects

end Flow

end Cueflow
