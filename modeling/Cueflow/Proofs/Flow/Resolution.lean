import Cueflow.Proofs.Choice.Settling
import Cueflow.Proofs.Flow.CleanUp
import Cueflow.Proofs.Schedule.Aiming
/-!
# Targets are resolved once

When a playback and a junction resolve a target, which one, and how often.

> `one_resolution`: over all steps and aborts of a playback or a junction one target is
> resolved at most, once, as the last act of the step that brings it to its end, and the step
> hands back what came of that.

Aimed at the deferred forms of the targets that it was made with, an interpreter does what it
did before and has its resolutions noted; aimed at nothing it shows the host on which its target
is resolved. A playback takes its target out when it ends and a junction leaves what is left of
a target behind, so both are watched with the targets that they were made with.
-/

namespace Cueflow

variable {T H K C : Type}

theorem Call.isResolve_of_isEvent {c : Call T} (hc : c.isEvent = true) : c.isResolve = false := by
  cases c with
  | event i call => rfl
  | condition b path call => cases hc
  | logic i call => cases hc
  | resolve => cases hc

/-! ## Playbacks -/

namespace Playback

variable [Scalar T] [Builder K H C]

omit [Builder K H C] in
/-- The playback on a host that notes every call and the resolution of the target. -/
def watched (p : Playback T H K C) :
    Playback T (Journaled (Call T) H) (Noted (Call T) (Deferred K C)) C :=
  (p.aim (p.target.map Target.deferred)).recorded id

omit [Scalar T] [Builder K H C] in
/-- The target that a playback with this one has come to: it comes to it when it finishes and
when it exits. -/
def comesTo (target : Option (Target K C)) : PlayPhase → Option (Target K C)
  | .finished | .exited => target
  | .notStarted | .running | .aborted => none

/-- A playback that was opened with this target as something that resolves it. -/
def resolver [Host H T] (target : Option (Target K C)) :
    Resolver T H K C (Playback T H K C)
      (Playback T (Journaled (Call T) H) (Noted (Call T) (Deferred K C)) C) where
  step := step
  abort := abort
  unaimed p h := ((p.aim (none : Option (Target K C))).step h).2.2
  hasArrived p := decide (p.phase = .finished ∨ p.phase = .exited)
  wasAborted p := decide (p.phase = .aborted)
  goal p := comesTo target p.phase
  watched := watched
  watchedStep := step
  watchedAbort := abort

theorem isOver_resolver [Host H T] (target : Option (Target K C)) (p : Playback T H K C) :
    (resolver target).isOver p = p.phase.isTerminal := by
  unfold Resolver.isOver resolver
  dsimp only
  cases p.phase <;> rfl

omit [Scalar T] [Builder K H C] in
theorem trail_deferred (p : Playback T H K C) :
    (p.aim (p.target.map Target.deferred)).trail =
      (Resolver.resolution p.target : List (Call T)) := by
  unfold trail aim
  cases p.target with
  | none => rfl
  | some target => rfl

/-- What a step does with the target, on a host that notes it: nothing as long as the playback
goes on, and in the end it is resolved on the host that the rest of the step left. -/
theorem step_watched [Host H T] {p : Playback T H K C} (hp : p.Sound)
    (hrun : p.phase.isTerminal = false) (s : Journaled (Call T) H) :
    let next := p.step s.host
    let reached := Target.reach p.target ((p.aim (none : Option (Target K C))).step s.host).2.2
    ∃ acts, (∀ c ∈ acts, c.isResolve = false) ∧
      ((next.1 = .suspend ∧ next.2.1.phase = .running ∧ next.2.1.target = p.target ∧
        p.watched.step s = (next.1, next.2.1.watched, ⟨next.2.2, s.journal ++ acts⟩)) ∨
      (next.1 = .done reached.1 ∧ next.2.2 = reached.2 ∧
        (next.2.1.phase = .finished ∨ next.2.1.phase = .exited) ∧
        p.watched.step s = (next.1, next.2.1.watched,
          ⟨next.2.2, s.journal ++ (acts ++ Resolver.resolution p.target)⟩))) := by
  intro next reached
  have hself : next = aimStep p.target ((p.aim (none : Option (Target K C))).step s.host) :=
    step_aim hrun p.target s.host
  have hdeferred : (p.aim (p.target.map Target.deferred)).step s.host =
      aimStep (p.target.map Target.deferred) ((p.aim (none : Option (Target K C))).step s.host) :=
    step_aim hrun _ s.host
  have hsound : (p.aim (p.target.map Target.deferred)).Sound :=
    ⟨hp.cursor_le, hp.active_lt, hp.sorted, hp.unopened, hp.terminal⟩
  obtain ⟨log, hrec, hstepped⟩ := step_recorded (id : Call T → Call T) hsound hrun s
  rw [List.map_id] at hrec
  rw [hdeferred] at hrec hstepped
  rcases hunaimed : (p.aim (none : Option (Target K C))).step s.host with ⟨result, q, h⟩
  have hreached : reached = Target.reach p.target h :=
    congrArg (fun x => Target.reach p.target x.2.2) hunaimed
  rw [hunaimed] at hself hrec hstepped
  rw [hself, hreached]
  rcases hstepped.cut with ⟨hends, hphase, hacts⟩ | ⟨hends, hphase, acts, rfl, hacts⟩
  · cases result with
    | done next => cases hends
    | suspend =>
      exact ⟨log, fun c hc => Call.isResolve_of_isEvent (hacts c hc),
        Or.inl ⟨rfl, hphase, rfl, hrec⟩⟩
  · cases result with
    | suspend => cases hends
    | done next =>
      refine ⟨acts, fun c hc => Call.isResolve_of_isEvent (hacts c hc),
        Or.inr ⟨rfl, rfl, hphase, ?_⟩⟩
      rw [← trail_deferred p]
      exact hrec.trans (by simp only [aimStep, Target.reach_deferred]; rfl)

theorem target_step [Host H T] {p : Playback T H K C} (hp : p.Sound)
    (hrun : p.phase.isTerminal = false) (h : H)
    (hnext : (p.step h).2.1.phase.isTerminal = false) : (p.step h).2.1.target = p.target := by
  obtain ⟨_, -, ⟨-, -, htarget, -⟩ | ⟨-, -, hphase, -⟩⟩ :=
    step_watched hp hrun (⟨h, []⟩ : Journaled (Call T) H)
  · exact htarget
  · rcases hphase with hphase | hphase
    · rw [hphase] at hnext
      cases hnext
    · rw [hphase] at hnext
      cases hnext

theorem handles [Host H T] {target : Option (Target K C)} {p : Playback T H K C} (hp : p.Sound)
    (htarget : p.phase.isTerminal = false → p.target = target) :
    (resolver target).Handles p where
  pending hrun := by
    rw [isOver_resolver] at hrun
    show comesTo target p.phase = none
    cases hphase : p.phase with
    | finished => rw [hphase] at hrun; cases hrun
    | exited => rw [hphase] at hrun; cases hrun
    | notStarted => rfl
    | running => rfl
    | aborted => rfl
  step hrun s := by
    rw [isOver_resolver] at hrun
    obtain ⟨acts, hacts, ⟨hsuspend, hphase, -, hnoted⟩ | ⟨hdone, hhost, hphase, hnoted⟩⟩ :=
      step_watched hp hrun s
    · have hgoal : comesTo target (p.step s.host).2.1.phase = none := by rw [hphase]; rfl
      refine ⟨⟨acts, hacts, ?_⟩, Or.inl ⟨hsuspend,
        (isOver_resolver target _).trans (congrArg PlayPhase.isTerminal hphase)⟩⟩
      show _ = (_, _, (⟨_, s.journal ++ (acts ++ Resolver.resolution
        (comesTo target (p.step s.host).2.1.phase))⟩ : Journaled (Call T) H))
      rw [hgoal]
      refine hnoted.trans ?_
      rw [Resolver.resolution, Option.toList_none, List.map_nil, List.append_nil]
      rfl
    · have hgoal : comesTo target (p.step s.host).2.1.phase = p.target := by
        rw [htarget hrun]
        rcases hphase with hphase | hphase <;> rw [hphase] <;> rfl
      have hfinal : (resolver target).goal (p.step s.host).2.1 = p.target := hgoal
      refine ⟨⟨acts, hacts, ?_⟩, Or.inr ?_⟩
      · rw [show (resolver target).step p s.host = p.step s.host from rfl, hfinal]
        exact hnoted
      · rw [show (resolver target).step p s.host = p.step s.host from rfl, hfinal]
        exact ⟨hdone, hhost, decide_eq_true hphase⟩
  abort hrun s := by
    rw [isOver_resolver] at hrun
    have hsound : (p.aim (p.target.map Target.deferred)).Sound :=
      ⟨hp.cursor_le, hp.active_lt, hp.sorted, hp.unopened, hp.terminal⟩
    obtain ⟨hplain, -⟩ := abort_recorded (id : Call T → Call T) hp hrun s
    obtain ⟨-, hnoted⟩ := abort_recorded (id : Call T → Call T) hsound hrun s
    rw [abort_aim, hplain, List.map_id] at hnoted
    rw [show (resolver target).abort p s.host = (p.aborted, (p.abort s.host).2) from hplain]
    exact ⟨rfl, rfl, closes p.active, fun c hc => Call.isResolve_of_isEvent (isEvent_closes _ c hc),
      hnoted⟩
  ended hover := by
    rw [isOver_resolver] at hover
    refine ⟨fun h => ⟨step_of_isTerminal hover h, abort_of_isTerminal hover h⟩, fun s => ⟨?_, ?_⟩⟩
    · exact step_of_isTerminal (p := p.watched) hover s
    · exact abort_of_isTerminal (p := p.watched) hover s

/-- A playback resolves its target once at most. -/
theorem resolvesOnce [Host H T] (t : Timeline T H) (target : Option (Target K C)) :
    (resolver target).ResolvesOnce (opening t target) := by
  refine Resolver.Handles.along
    (I := fun p => p.Sound ∧ (p.phase.isTerminal = false → p.target = target))
    ?_ ?_ (fun p hp => handles hp.1 hp.2) ⟨sound_opening t target, fun _ => rfl⟩ rfl
  · rintro p h ⟨hp, htarget⟩
    refine ⟨hp.step h, fun hnext => ?_⟩
    cases hrun : p.phase.isTerminal with
    | false => exact (target_step hp hrun h hnext).trans (htarget hrun)
    | true =>
      have hnext : (p.step h).2.1.phase.isTerminal = false := hnext
      rw [step_of_isTerminal hrun, hrun] at hnext
      cases hnext
  · rintro p h ⟨hp, htarget⟩
    refine ⟨hp.abort h, fun hnext => ?_⟩
    have hover : (p.abort h).1.phase.isTerminal = true := by
      unfold abort
      split
      · assumption
      · rfl
    have hnext : (p.abort h).1.phase.isTerminal = false := hnext
    rw [hover] at hnext
    cases hnext

end Playback

/-! ## Junctions -/

namespace Junction

variable [Scalar T] [Host H T] [Builder K H C]

/-- The targets of the branches, put off. -/
def deferring (branches : List (Branch T H K C)) (i : Nat) : Target (Deferred K C) C :=
  match branches[i]? with
  | none => .stop
  | some b => b.target.deferred

omit [Scalar T] [Host H T] [Builder K H C] in
theorem deferring_eq {branches : List (Branch T H K C)} {i : Nat} {target : Target K C}
    (hi : (branches.map (·.target))[i]? = some target) :
    deferring branches i = target.deferred := by
  rw [List.getElem?_map] at hi
  obtain ⟨b, hb, rfl⟩ := Option.map_eq_some_iff.1 hi
  unfold deferring
  rw [hb]

omit [Scalar T] [Host H T] in
/-- Resolving what was put off comes to the same, and can be done again. -/
theorem deferring_resolve {branches : List (Branch T H K C)} {i : Nat} {target : Target K C}
    (hi : (branches.map (·.target))[i]? = some target) (h : H) :
    (deferring branches i).resolve h =
      ((target.resolve h).1, deferring branches i, (target.resolve h).2.2) := by
  rw [deferring_eq hi]
  rfl

omit [Scalar T] [Host H T] [Builder K H C] in
theorem trailAt_deferring {branches branches' : List (Branch T H K C)} {i : Nat}
    {target : Target K C} (hi : (branches.map (·.target))[i]? = some target)
    (hlt : i < branches'.length) :
    trailAt (aimBranches (deferring branches) 0 branches') i = [(.resolve : Call T)] := by
  unfold trailAt aimBranches
  rw [List.getElem?_map, List.getElem?_zipIdx, List.getElem?_eq_getElem hlt]
  simp only [Option.map_some, Nat.zero_add, deferring_eq hi]
  rfl

/-- The junction on a host that notes every call and every resolution. -/
def watched (branches : List (Branch T H K C)) (j : Junction T H K C) :
    Junction T (Journaled (Call T) H) (Noted (Call T) (Deferred K C)) C :=
  (j.aim (deferring branches)).recorded id

/-- The target that a junction with these branches has come to: that of the branch that was
taken. -/
def comesTo (branches : List (Branch T H K C)) (j : Junction T H K C) : Option (Target K C) :=
  match j.phase, j.taken with
  | .taken, some i => (branches.map (·.target))[i]?
  | _, _ => none

omit [Scalar T] [Host H T] [Builder K H C] in
theorem comesTo_of_taken {branches : List (Branch T H K C)} {j : Junction T H K C} {i : Nat}
    (hphase : j.phase = .taken) (htaken : j.taken = some i) :
    comesTo branches j = (branches.map (·.target))[i]? := by
  unfold comesTo
  rw [hphase, htaken]

omit [Scalar T] [Host H T] [Builder K H C] in
theorem comesTo_of_ne {branches : List (Branch T H K C)} {j : Junction T H K C}
    (hphase : j.phase ≠ .taken) : comesTo branches j = none := by
  unfold comesTo
  split
  · next htaken _ => exact absurd htaken hphase
  · rfl

/-- A junction that was made with these branches as something that resolves a target. -/
def resolver (branches : List (Branch T H K C)) : Resolver T H K C (Junction T H K C)
    (Junction T (Journaled (Call T) H) (Noted (Call T) (Deferred K C)) C) where
  step := step
  abort := abort
  unaimed j h := ((j.aim fun _ => (.stop : Target K C)).step h).2.2
  hasArrived j := decide (j.phase = .taken)
  wasAborted j := decide (j.phase = .aborted)
  goal := comesTo branches
  watched := watched branches
  watchedStep := step
  watchedAbort := abort

omit [Scalar T] [Host H T] [Builder K H C] in
theorem length_of_targets {branches branches' : List (Branch T H K C)}
    (htargets : branches.map (·.target) = branches'.map (·.target)) :
    branches.length = branches'.length := by
  have := congrArg List.length htargets
  rwa [List.length_map, List.length_map] at this

section Winner

variable {branches : List (Branch T H K C)} {j : Junction T H K C} {i : Nat}
  {target : Target K C}

omit [Scalar T] [Host H T] in
/-- Leaving resolves the target of the branch that was taken. -/
theorem leave_eq (hkept : j.branches.map (·.target) = branches.map (·.target))
    (hphase : j.phase = .taken) (htaken : j.taken = some i)
    (hi : (branches.map (·.target))[i]? = some target) (h : H) :
    (j.leave h).1 = .done (target.resolve h).1 ∧ (j.leave h).2.2 = (target.resolve h).2.2 := by
  rw [← hkept] at hi
  obtain ⟨hnext, hhost, -⟩ := resolveAt_eq hi h
  rw [leave_of_taken hphase htaken]
  exact ⟨congrArg StepResult.done hnext, hhost⟩

omit [Scalar T] [Host H T] in
/-- With nothing to resolve, leaving does nothing to the host. -/
theorem leave_unaimed (hphase : j.phase = .taken) (htaken : j.taken = some i)
    (hi : i < j.branches.length) (h : H) :
    ((j.aim fun _ => (.stop : Target K C)).leave h).2.2 = h := by
  rw [leave_of_taken (j := j.aim _) hphase htaken]
  have hstop : resolveAt (aimBranches (fun _ => (.stop : Target K C)) 0 j.branches) i h = _ :=
    resolveAt_aim hi (Target.resolve_stop h)
  exact congrArg (fun x => x.2.2) hstop

omit [Scalar T] [Host H T] in
theorem leave_watched (hkept : j.branches.map (·.target) = branches.map (·.target))
    (hphase : j.phase = .taken) (htaken : j.taken = some i)
    (hi : (branches.map (·.target))[i]? = some target) (s : Journaled (Call T) H) :
    (j.watched branches).leave s = ((j.leave s.host).1, (j.leave s.host).2.1.watched branches,
      ⟨(j.leave s.host).2.2, s.journal ++ [.resolve]⟩) := by
  have hlt : i < j.branches.length := by
    rw [← hkept] at hi
    simpa using (List.getElem?_eq_some_iff.1 hi).1
  obtain ⟨hnext, hhost⟩ := leave_eq hkept hphase htaken hi s.host
  have hdeferred := resolveAt_aim (n := 0) hlt (by
    rw [Nat.zero_add]
    exact deferring_resolve hi s.host)
  have hresolve := resolveAt_recorded (id : Call T → Call T) 0
    (aimBranches (deferring branches) 0 j.branches) i s
  rw [trailAt_deferring hi hlt, hdeferred] at hresolve
  have hsame : (j.leave s.host).2.1.watched branches = j.watched branches := by
    rw [leave_of_taken hphase htaken, watched, watched, aim, aim]
    dsimp only
    rw [aimBranches_resolveAt]
  rw [hnext, hhost, hsame, leave_of_taken (j := j.watched branches) hphase htaken]
  rw [show (j.watched branches).branches =
    recordBranches id 0 (aimBranches (deferring branches) 0 j.branches) from rfl, hresolve]
  rfl

omit [Scalar T] [Host H T] in
/-- Leaving resolves the target that the junction has come to, on the host that it was left
with, and notes this. -/
theorem leave_resolves (hkept : j.branches.map (·.target) = branches.map (·.target))
    (hphase : j.phase = .taken) (htaken : j.taken = some i) (hi : i < j.branches.length)
    (s : Journaled (Call T) H) :
    let next := j.leave s.host
    let unaimed := ((j.aim fun _ => (.stop : Target K C)).leave s.host).2.2
    ∃ target, comesTo branches next.2.1 = some target ∧
      next.1 = .done (target.resolve unaimed).1 ∧ next.2.2 = (target.resolve unaimed).2.2 ∧
      next.2.1.phase = .taken ∧
      (j.watched branches).leave s =
        (next.1, next.2.1.watched branches, ⟨next.2.2, s.journal ++ [.resolve]⟩) := by
  intro next unaimed
  have hlt : i < branches.length := by rwa [← length_of_targets hkept]
  have htarget : (branches.map (·.target))[i]? = some branches[i].target := by
    rw [List.getElem?_map, List.getElem?_eq_getElem hlt]
    rfl
  have hunaimed : unaimed = s.host := leave_unaimed hphase htaken hi s.host
  have hnext : next = _ := leave_of_taken hphase htaken
  obtain ⟨hresult, hhost⟩ := leave_eq hkept hphase htaken htarget s.host
  refine ⟨branches[i].target, ?_, ?_, ?_, ?_, leave_watched hkept hphase htaken htarget s⟩
  · rw [hnext, ← htarget]
    exact comesTo_of_taken hphase htaken
  · rw [hunaimed]
    exact hresult
  · rw [hunaimed]
    exact hhost
  · rw [hnext]
    exact hphase

end Winner

/-- What a step does with the targets, on a host that notes them: nothing as long as the junction
goes on, and in the end that of the branch that was taken is resolved on the host that the rest
of the step left. -/
theorem step_watched {branches : List (Branch T H K C)} {j : Junction T H K C}
    (htargets : j.branches.map (·.target) = branches.map (·.target))
    (hrun : j.phase = .notStarted ∨ j.phase = .running) (s : Journaled (Call T) H) :
    let next := j.step s.host
    let unaimed := ((j.aim fun _ => (.stop : Target K C)).step s.host).2.2
    ∃ acts, (∀ c ∈ acts, c.isResolve = false) ∧
      ((next.1 = .suspend ∧ next.2.1.phase = .running ∧
        (j.watched branches).step s = (next.1, next.2.1.watched branches,
          ⟨next.2.2, s.journal ++ acts⟩)) ∨
      ∃ target, comesTo branches next.2.1 = some target ∧
        next.1 = .done (target.resolve unaimed).1 ∧ next.2.2 = (target.resolve unaimed).2.2 ∧
        next.2.1.phase = .taken ∧
        (j.watched branches).step s = (next.1, next.2.1.watched branches,
          ⟨next.2.2, s.journal ++ (acts ++ [.resolve])⟩)) := by
  intro next unaimed
  have hnext : next = (j.settle s.host).1.leave (j.settle s.host).2 := step_eq_leave hrun s.host
  have hunaimed : unaimed = (((j.settle s.host).1.aim fun _ => (.stop : Target K C)).leave
      (j.settle s.host).2).2.2 := by
    have := congrArg (fun x => x.2.2)
      (step_eq_leave (j := j.aim fun _ => (.stop : Target K C)) hrun s.host)
    rw [settle_aim] at this
    exact this
  obtain ⟨acts, hacts, hsettle⟩ := settle_recorded (j.aim (deferring branches)) s
  rw [settle_aim] at hsettle
  have hwatched : (j.watched branches).step s = _ :=
    step_eq_leave (j := j.watched branches) hrun s
  rw [show (j.watched branches).settle s = _ from hsettle] at hwatched
  have hcases := settle_cases hrun s.host
  have hkept := (targets_of_heading (heading_settle j s.host)).trans htargets
  rcases hsettled : j.settle s.host with ⟨j', h⟩
  rw [hsettled] at hnext hunaimed hwatched hcases hkept
  refine ⟨acts, hacts, ?_⟩
  rw [hwatched, hnext, hunaimed]
  rcases hcases with hphase | ⟨hphase, i, hi, htaken⟩
  · have hphase : j'.phase = .running := hphase
    refine Or.inl ?_
    rw [leave_of_running hphase]
    exact ⟨rfl, hphase, leave_of_running (j := j'.watched branches) hphase⟩
  · have hlt : i < j'.branches.length := by
      rwa [length_of_targets hkept, ← length_of_targets htargets]
    obtain ⟨target, hgoal, hresult, hhost, hover, hnoted⟩ :=
      leave_resolves hkept hphase htaken hlt ⟨h, s.journal ++ acts⟩
    refine Or.inr ⟨target, hgoal, hresult, hhost, hover, hnoted.trans ?_⟩
    rw [List.append_assoc]

theorem isOver_resolver (branches : List (Branch T H K C)) (j : Junction T H K C) :
    (resolver branches).isOver j = decide (j.phase = .taken ∨ j.phase = .aborted) := by
  unfold Resolver.isOver resolver
  dsimp only
  cases j.phase <;> rfl

theorem live_of_isOver {branches : List (Branch T H K C)} {j : Junction T H K C}
    (hrun : (resolver branches).isOver j = false) :
    (j.phase = .notStarted ∨ j.phase = .running) ∧ j.phase ≠ .taken := by
  rw [isOver_resolver] at hrun
  have hover := of_decide_eq_false hrun
  exact ⟨j.phase_cases.resolve_right hover, fun htaken => hover (Or.inl htaken)⟩

theorem handles {logic : List (Background H)} {branches : List (Branch T H K C)}
    {j : Junction T H K C} (hkept : Kept logic branches j) : (resolver branches).Handles j where
  pending hrun := comesTo_of_ne (live_of_isOver hrun).2
  step hrun s := by
    obtain ⟨hrun, hne⟩ := live_of_isOver hrun
    have htargets := targets_of_heading (hkept.headings hne)
    obtain ⟨acts, hacts, ⟨hsuspend, hphase, hnoted⟩ |
      ⟨target, hgoal, hdone, hhost, hphase, hnoted⟩⟩ := step_watched htargets hrun s
    · have hgoal : (resolver branches).goal (j.step s.host).2.1 = none :=
        comesTo_of_ne (by rw [hphase]; exact JunctionPhase.noConfusion)
      refine ⟨⟨acts, hacts, ?_⟩, Or.inl ⟨hsuspend, ?_⟩⟩
      · rw [show (resolver branches).step j s.host = j.step s.host from rfl, hgoal]
        refine hnoted.trans ?_
        rw [Resolver.resolution, Option.toList_none, List.map_nil, List.append_nil]
        rfl
      · refine (isOver_resolver branches _).trans ?_
        show decide ((j.step s.host).2.1.phase = .taken ∨ (j.step s.host).2.1.phase = .aborted) =
          false
        rw [hphase]
        rfl
    · have hgoal : (resolver branches).goal (j.step s.host).2.1 = some target := hgoal
      refine ⟨⟨acts, hacts, ?_⟩, Or.inr ?_⟩
      · rw [show (resolver branches).step j s.host = j.step s.host from rfl, hgoal]
        exact hnoted
      · rw [show (resolver branches).step j s.host = j.step s.host from rfl, hgoal]
        exact ⟨hdone, hhost, decide_eq_true hphase⟩
  abort hrun s := by
    obtain ⟨-, hne⟩ := live_of_isOver hrun
    by_cases hrunning : j.phase = .running
    · obtain ⟨hnoted, -, -, -⟩ := abort_recorded (id : Call T → Call T)
        (j := j.aim (deferring branches)) hrunning s
      obtain ⟨-, -, hphase, -⟩ := abort_recorded (id : Call T → Call T) hrunning s
      rw [abort_aim, List.map_id] at hnoted
      have hne : (j.abort s.host).1.phase ≠ .taken := by
        rw [hphase]
        exact JunctionPhase.noConfusion
      exact ⟨decide_eq_false hne, comesTo_of_ne hne, _, isResolve_closing _, hnoted⟩
    · have hplain : (resolver branches).abort j s.host = (j, s.host) :=
        abort_of_ne_running hrunning s.host
      rw [hplain]
      refine ⟨decide_eq_false hne, comesTo_of_ne hne, [],
        fun c hc => absurd hc List.not_mem_nil, ?_⟩
      rw [List.append_nil]
      exact abort_of_ne_running (j := j.watched branches) hrunning s
  ended hover := by
    rw [isOver_resolver] at hover
    have hover := of_decide_eq_true hover
    have hne : j.phase ≠ .running := by
      rcases hover with hphase | hphase <;> simp [hphase]
    refine ⟨fun h => ⟨step_of_over hover h, abort_of_ne_running hne h⟩, fun s => ⟨?_, ?_⟩⟩
    · exact step_of_over (j := j.watched branches) hover s
    · exact abort_of_ne_running (j := j.watched branches) hne s

/-- A junction resolves one of its targets at most, once. -/
theorem resolvesOnce (name : String) (logic : List (Background H))
    (branches : List (Branch T H K C)) :
    (resolver branches).ResolvesOnce (ofBranches name logic branches) :=
  Resolver.Handles.along (I := Kept logic branches) (fun _ h hkept => hkept.step h)
    (fun _ h hkept => hkept.abort h) (fun _ hkept => handles hkept)
    (Kept.ofBranches name logic branches) rfl

/-- What a junction has taken is one of its branches. -/
def TookOne (branches : List (Branch T H K C)) (j : Junction T H K C) : Prop :=
  j.phase = .taken → ∃ i b, j.taken = some i ∧ branches[i]? = some b

theorem TookOne.step {logic : List (Background H)} {branches : List (Branch T H K C)}
    {j : Junction T H K C} (hkept : Kept logic branches j) (htook : TookOne branches j) (h : H) :
    TookOne branches (j.step h).2.1 := by
  intro hphase
  rcases j.phase_cases with hrun | hover
  · rcases hkept.outcome hrun h with
      ⟨i, b, hb, -, -, -, -, -, htaken, -⟩ | ⟨-, -, -, -, hrunning⟩
    · exact ⟨i, b, htaken, hb⟩
    · exact nomatch hphase.symm.trans hrunning
  · rw [step_of_over hover] at hphase ⊢
    exact htook hphase

omit [Scalar T] [Host H T] [Builder K H C] in
theorem TookOne.abort {branches : List (Branch T H K C)} {j : Junction T H K C}
    (htook : TookOne branches j) (h : H) : TookOne branches (j.abort h).1 := by
  intro hphase
  by_cases hrunning : j.phase = .running
  · have haborted := (abort_recorded (id : Call T → Call T) hrunning ⟨h, []⟩).2.2.1
    cases hphase.symm.trans haborted
  · rw [abort_of_ne_running hrunning] at hphase ⊢
    exact htook hphase

/-- A junction that has taken a branch has come to the target of that branch. -/
theorem comesTo_play (name : String) (logic : List (Background H))
    (branches : List (Branch T H K C)) (moves : List (Move H)) (h : H) :
    let played := (play moves (ofBranches name logic branches) h).1
    played.phase = .taken → ∃ i b, played.taken = some i ∧ branches[i]? = some b ∧
      comesTo branches played = some b.target := by
  intro played hphase
  have hplayed : Kept logic branches played ∧ TookOne branches played :=
    Move.run_keeps (I := fun j => Kept logic branches j ∧ TookOne branches j)
      (fun j h hj => ⟨hj.1.step h, hj.2.step hj.1 h⟩) (fun j h hj => ⟨hj.1.abort h, hj.2.abort h⟩)
      moves ⟨Kept.ofBranches name logic branches, fun hmade => nomatch hmade⟩ h
  obtain ⟨i, b, htaken, hb⟩ := hplayed.2 hphase
  refine ⟨i, b, htaken, hb, ?_⟩
  rw [comesTo_of_taken hphase htaken, List.getElem?_map, hb]
  rfl

end Junction

/-- One resolution, at the end. Along every run of a playback or of a junction from its making
on, however its steps and aborts follow one another and whatever happens to the host between
them, `ResolvesOnce` holds: the targets that were resolved are the one that the interpreter has
come to, and no other; and each step and abort that may come next does with targets what
`Handles` says. A playback comes to its target in the step that finishes or exits it, a junction
to that of the branch that the step takes; the step resolves it after all its other calls and
hands back what comes of that. An abort resolves nothing. An interpreter that is over hands back
nothing, and is left alone with its host by every further step and abort. -/
theorem one_resolution [Scalar T] [Host H T] [Builder K H C] :
    (∀ (t : Timeline T H) (target : Option (Target K C)),
      (Playback.resolver target).ResolvesOnce (Playback.opening t target)) ∧
    ∀ (name : String) (logic : List (Background H)) (branches : List (Branch T H K C)),
      let made := Junction.ofBranches name logic branches
      (Junction.resolver branches).ResolvesOnce made ∧
      ∀ (moves : List (Move H)) (h : H),
        let played := ((Junction.resolver branches).run moves made h).1
        played.phase = .taken → ∃ i b, played.taken = some i ∧ branches[i]? = some b ∧
          (Junction.resolver branches).goal played = some b.target := by
  refine ⟨fun t target => Playback.resolvesOnce t target, fun name logic branches => ?_⟩
  intro made
  exact ⟨Junction.resolvesOnce name logic branches, Junction.comesTo_play name logic branches⟩

end Cueflow
