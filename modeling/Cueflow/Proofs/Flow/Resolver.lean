import Cueflow.Proofs.Journal
/-!
# Resolvers — interpreters that go to a target

What it means that targets are resolved once, for any kind of interpreter.

> `Handles.along`: if the interpreter handles targets as it should in every state that it can
> get to, then over all its steps and aborts one target is resolved at most, once.

The journal of a recorded flow notes what is *built*; handing over what was prepared leaves no
trace on a host. A `Deferred` target is a key that stands for a target and resolves it when it
is built, so an interpreter that is aimed at deferred targets has every resolution noted.
`Resolver` is what the kinds of interpreters have in common here, `Handles` what is to be shown
of a state, and `ResolvesOnce` what follows for a run.
-/

namespace Cueflow

variable {T H K C S S' : Type}

/-! ## Deferred targets -/

/-- A key that stands for a target. -/
structure Deferred (K C : Type) where
  target : Target K C

/-- Building resolves the target. -/
instance [Builder K H C] : Builder (Deferred K C) H C where
  build key h := ((key.target.resolve h).1, (key.target.resolve h).2.2)

namespace Target

/-- The target whose resolution is noted whatever it is. -/
def deferred (target : Target K C) : Target (Deferred K C) C := .build ⟨target⟩

/-- Resolves a target if there is one. -/
def reach [Builder K H C] (target : Option (Target K C)) (h : H) : Option C × H :=
  match target with
  | none => (none, h)
  | some target => ((target.resolve h).1, (target.resolve h).2.2)

/-- Putting a resolution off does not change what comes of it. -/
theorem reach_deferred [Builder K H C] (target : Option (Target K C)) (h : H) :
    reach (target.map deferred) h = reach target h := by
  cases target with
  | none => rfl
  | some target => rfl

end Target

def Call.isResolve : Call T → Bool
  | .resolve => true
  | .event _ _ | .condition _ _ _ | .logic _ _ => false

/-! ## Resolvers -/

/-- An interpreter with states `S`, as far as its targets go, and the same interpreter on a host
that notes every call and every resolution, where its states are `S'`. -/
structure Resolver (T H K C S S' : Type) where
  step : S → H → StepResult C × S × H
  abort : S → H → S × H
  /-- The host after the step of the same interpreter that has nothing to resolve. -/
  unaimed : S → H → H
  /-- Whether the interpreter has come to its end by itself. -/
  hasArrived : S → Bool
  wasAborted : S → Bool
  /-- The target that the interpreter has come to, if it has come to one. -/
  goal : S → Option (Target K C)
  watched : S → S'
  watchedStep : S' → Journaled (Call T) H → StepResult C × S' × Journaled (Call T) H
  watchedAbort : S' → Journaled (Call T) H → S' × Journaled (Call T) H

namespace Resolver

variable [Builder K H C] (r : Resolver T H K C S S')

def isOver (x : S) : Bool := r.hasArrived x || r.wasAborted x

/-- The state and the host after these moves. -/
def run (moves : List (Move H)) (x : S) (h : H) : S × H :=
  Move.run (fun x h => (r.step x h).2) r.abort moves (x, h)

/-- The run on the host that notes, from an empty journal on. -/
def runWatched (moves : List (Move H)) (x : S) (h : H) : S' × Journaled (Call T) H :=
  Move.run (fun x s => (r.watchedStep x s).2) r.watchedAbort (moves.map Move.journaled)
    (r.watched x, ⟨h, []⟩)

/-- The calls that come of a resolution, if there is one. -/
def resolution (target : Option (Target K C)) : List (Call T) :=
  target.toList.map fun _ => .resolve

/-- What the interpreter does with targets in this state, whatever the host. -/
structure Handles (x : S) : Prop where
  /-- An interpreter that is not over has come to no target. -/
  pending : r.isOver x = false → r.goal x = none
  /-- A step that suspends resolves nothing. A step that does not ends the interpreter: it makes
  its other calls and then resolves the target, on the host that they left, and hands back what
  comes of that. -/
  step : r.isOver x = false → ∀ s : Journaled (Call T) H,
    let next := r.step x s.host
    let reached := Target.reach (r.goal next.2.1) (r.unaimed x s.host)
    (∃ acts, (∀ c ∈ acts, c.isResolve = false) ∧
      r.watchedStep (r.watched x) s = (next.1, r.watched next.2.1,
        ⟨next.2.2, s.journal ++ (acts ++ resolution (r.goal next.2.1))⟩)) ∧
    (next.1 = .suspend ∧ r.isOver next.2.1 = false ∨
      next.1 = .done reached.1 ∧ next.2.2 = reached.2 ∧ r.hasArrived next.2.1 = true)
  /-- An abort resolves nothing, and is not the way to a target. -/
  abort : r.isOver x = false → ∀ s : Journaled (Call T) H,
    let next := r.abort x s.host
    r.hasArrived next.1 = false ∧ r.goal next.1 = none ∧
      ∃ acts, (∀ c ∈ acts, c.isResolve = false) ∧
        r.watchedAbort (r.watched x) s = (r.watched next.1, ⟨next.2, s.journal ++ acts⟩)
  /-- An interpreter that is over has nothing left to do. -/
  ended : r.isOver x = true →
    (∀ h, r.step x h = (.done none, x, h) ∧ r.abort x h = (x, h)) ∧
    ∀ s, r.watchedStep (r.watched x) s = (.done none, r.watched x, s) ∧
      r.watchedAbort (r.watched x) s = (r.watched x, s)

/-- Along every run from this state one target is resolved at most, once: the one that the
interpreter has come to. -/
def ResolvesOnce (x : S) : Prop :=
  ∀ (moves : List (Move H)) (h : H), ∃ calls,
    r.runWatched moves x h = (r.watched (r.run moves x h).1, ⟨(r.run moves x h).2, calls⟩) ∧
    calls.countP Call.isResolve = (r.goal (r.run moves x h).1).toList.length ∧
    r.Handles (r.run moves x h).1

variable {r}

omit [Builder K H C] in
theorem countP_acts {acts : List (Call T)} (hacts : ∀ c ∈ acts, c.isResolve = false) :
    acts.countP Call.isResolve = 0 :=
  List.countP_eq_zero.2 fun c hc => by simp [hacts c hc]

omit [Builder K H C] in
theorem countP_resolution (target : Option (Target K C)) :
    (resolution target : List (Call T)).countP Call.isResolve = target.toList.length := by
  cases target with
  | none => rfl
  | some target => rfl

/-- If every state that the interpreter can get to handles targets as it should, they are
resolved once along every run. -/
theorem Handles.along {I : S → Prop} (hstep : ∀ x h, I x → I (r.step x h).2.1)
    (habort : ∀ x h, I x → I (r.abort x h).1) (hhandles : ∀ x, I x → r.Handles x) {x : S}
    (hx : I x) (hstart : r.isOver x = false) : r.ResolvesOnce x := by
  intro moves h
  have hnone : ([] : List (Call T)).countP Call.isResolve = (r.goal x).toList.length := by
    rw [(hhandles x hx).pending hstart]
    rfl
  suffices hrun : ∃ calls, r.runWatched moves x h =
      (r.watched (r.run moves x h).1, ⟨(r.run moves x h).2, [] ++ calls.map id⟩) ∧
      I (r.run moves x h).1 ∧
        ([] ++ calls).countP Call.isResolve = (r.goal (r.run moves x h).1).toList.length by
    obtain ⟨calls, hcalls, hI, hcount⟩ := hrun
    rw [List.map_id] at hcalls
    exact ⟨calls, hcalls, hcount, hhandles _ hI⟩
  refine Move.run_recorded r.watched id
    (I := fun x calls => I x ∧ calls.countP Call.isResolve = (r.goal x).toList.length)
    ?_ ?_ moves ⟨hx, hnone⟩ ⟨h, []⟩ (Move.paced_true _ _ _ _)
  · rintro x calls s ⟨hx, hcount⟩ -
    cases hover : r.isOver x with
    | false =>
      -- nothing was resolved before, and this step resolves what it comes to
      obtain ⟨⟨acts, hacts, hnoted⟩, -⟩ := (hhandles x hx).step hover s
      rw [(hhandles x hx).pending hover] at hcount
      refine ⟨acts ++ resolution (r.goal (r.step x s.host).2.1), ?_, hstep x s.host hx, ?_⟩
      · rw [List.map_id]
        exact congrArg Prod.snd hnoted
      · rw [List.countP_append, List.countP_append, hcount, countP_acts hacts,
          countP_resolution]
        simp
    | true =>
      obtain ⟨hplain, hwatched⟩ := (hhandles x hx).ended hover
      refine ⟨[], ?_, ?_⟩
      · rw [(hwatched s).1, (hplain s.host).1, List.map_nil, List.append_nil]
      · rw [(hplain s.host).1, List.append_nil]
        exact ⟨hx, hcount⟩
  · rintro x calls s ⟨hx, hcount⟩
    cases hover : r.isOver x with
    | false =>
      obtain ⟨-, hnone, acts, hacts, hnoted⟩ := (hhandles x hx).abort hover s
      rw [(hhandles x hx).pending hover] at hcount
      refine ⟨acts, ?_, habort x s.host hx, ?_⟩
      · rw [List.map_id]
        exact hnoted
      · rw [List.countP_append, hcount, countP_acts hacts, hnone]
        rfl
    | true =>
      obtain ⟨hplain, hwatched⟩ := (hhandles x hx).ended hover
      refine ⟨[], ?_, ?_⟩
      · rw [(hwatched s).2, (hplain s.host).2, List.map_nil, List.append_nil]
      · rw [(hplain s.host).2, List.append_nil]
        exact ⟨hx, hcount⟩

end Resolver

end Cueflow
