import Cueflow.Proofs.Flow.Bookkeeping
/-!
# Dependencies are pinned and live

Which machine a dependency asks, and what it hears.

> `dependencies_pinned_and_live`: a dependency at any place of a condition asks the machine that
> had its name when its session was started, whatever happens to names and statuses afterwards,
> until the session is finished. If that machine is a director, what it hears is whether
> something is installed in the director at that moment. A junction that is not running keeps
> no machine in any of its dependencies.

A `Watch` is a condition that is evaluated while a director obeys and everything else happens to
the world that they share. `node_after` says that the handle stays, `Live` that the director's
status does: what is on the way to a dependency is held to leave it alone.
-/

namespace Cueflow

variable {T H K C : Type}

/-- A condition in a session, a director, and the host that they share. -/
structure Watch (T H C : Type) where
  condition : Condition T H
  director : Director C
  host : H

/-- What can happen between the start and the finish of a session. -/
inductive Occurrence (C H : Type) where
  /-- The condition is evaluated. -/
  | evaluation
  /-- The director obeys, or anything happens to the host. -/
  | command (command : Command C H)

/-- What comes from elsewhere keeps to the conduct. -/
def Occurrence.Allowed (P : C → Prop) (k : Conduct H) : Occurrence C H → Prop
  | .evaluation => True
  | .command order => Director.Allowed P k order

namespace Watch

variable [Scalar T] [Host H T] [StatusBoard H] [Interpreter C H]

/-- The watch after an occurrence. -/
def perform (s : Watch T H C) : Occurrence C H → Watch T H C
  | .evaluation =>
    let (_, condition, host) := s.condition.isMet s.host
    { s with condition, host }
  | .command command =>
    let (director, host) := Director.obey (s.director, s.host) command
    { s with director, host }

/-- The watch after these occurrences. -/
def after (occurrences : List (Occurrence C H)) (s : Watch T H C) : Watch T H C :=
  occurrences.foldl perform s

/-! ## Pinned -/

/-- A dependency stays as it was started. -/
theorem node_perform {s : Watch T H C} {path : List Nat} {d : Dependency}
    (hnode : s.condition.node? path = some (.dependency d)) (o : Occurrence C H) :
    (s.perform o).condition.node? path = some (.dependency d) := by
  cases o with
  | evaluation =>
    show (s.condition.isMet s.host).2.1.node? path = _
    rw [Condition.node?_isMet, hnode]
    rfl
  | command command => exact hnode

theorem node_after {s : Watch T H C} {path : List Nat} {d : Dependency}
    (hnode : s.condition.node? path = some (.dependency d))
    (occurrences : List (Occurrence C H)) :
    (after occurrences s).condition.node? path = some (.dependency d) := by
  induction occurrences generalizing s with
  | nil => exact hnode
  | cons o occurrences ih => exact ih (node_perform hnode o)

omit [StatusBoard H] [Interpreter C H] in
/-- What a dependency answers is whether the machine that it keeps is running. -/
theorem answer?_of_node {s : Watch T H C} {path : List Nat} {d : Dependency}
    (hnode : s.condition.node? path = some (.dependency d)) :
    s.condition.answer? path s.host =
      some (d.handle.any fun handle => Host.isRunning handle (s.condition.turnsOn path s.host)) := by
  obtain ⟨name, handle⟩ := d
  unfold Condition.answer?
  rw [hnode]
  cases handle <;> rfl

/-! ## Live -/

/-- The director reports on itself, and nothing in the condition interferes. -/
structure Live (P : C → Prop) (handle : Handle) (s : Watch T H C) : Prop where
  reporting : Director.Reporting P handle (s.director, s.host)
  respects : s.condition.Respects (.undisturbed handle)

namespace Live

variable {P : C → Prop} {handle : Handle} {s : Watch T H C}

theorem perform [LawfulBoard H] (hs : Live P handle s)
    (hdiscreet : Director.Discreet P (Conduct.undisturbed (H := H) handle))
    {o : Occurrence C H} (ho : o.Allowed P (.undisturbed handle)) :
    Live P handle (s.perform o) := by
  cases o with
  | evaluation =>
    obtain ⟨hrel, hrespects⟩ := hs.respects.isMet s.host
    exact ⟨hs.reporting.undisturbed hrel, hrespects⟩
  | command command => exact ⟨hs.reporting.obey hdiscreet ho, hs.respects⟩

theorem after [LawfulBoard H] (hs : Live P handle s)
    (hdiscreet : Director.Discreet P (Conduct.undisturbed (H := H) handle))
    {occurrences : List (Occurrence C H)}
    (hoccurrences : ∀ o ∈ occurrences, o.Allowed P (.undisturbed handle)) :
    Live P handle (after occurrences s) := by
  induction occurrences generalizing s with
  | nil => exact hs
  | cons o occurrences ih =>
    obtain ⟨ho, hrest⟩ := List.forall_mem_cons.1 hoccurrences
    exact ih (hs.perform hdiscreet ho) hrest

omit [Scalar T] [Interpreter C H] in
/-- Starting a session of a condition that leaves the status alone. -/
theorem start {c : Condition T H} {x : Director C × H}
    (hx : Director.Reporting P handle x) (hc : c.Respects (.undisturbed handle)) :
    Live P handle ⟨(c.start x.2).1, x.1, (c.start x.2).2⟩ :=
  ⟨hx.undisturbed (hc.start x.2).1, (hc.start x.2).2⟩

omit [Interpreter C H] in
/-- Wherever a dependency is evaluated, what it reads is true of the director. -/
theorem isRunning_turnsOn (hs : Live P handle s) (path : List Nat) :
    Host.isRunning handle (s.condition.turnsOn path s.host) = s.director.isRunning :=
  (hs.respects.turnsOn path s.host).2.trans hs.reporting.reports

end Live

end Watch

/-! ## Released -/

namespace Junction

/-- No dependency of these branches keeps a machine. -/
def Unresolved (branches : List (Branch T H K C)) : Prop :=
  ∀ b path d, nodeAt branches b path = some (.dependency d) → d.handle = none

/-- A released condition keeps no machine. -/
theorem handle_of_released {n : Condition T H} {d : Dependency}
    (hn : n.released = .dependency d) : d.handle = none := by
  cases n with
  | dependency d' =>
    rw [← Condition.dependency.inj hn]
    rfl
  | _ => cases hn

/-- Conditions that were never started are as if they were released. -/
theorem unresolved_of_released {branches : List (Branch T H K C)}
    (hbranches : ∀ b ∈ branches, b.condition.released = b.condition) : Unresolved branches := by
  intro b path d hnode
  obtain ⟨branch, hbranch, hnode⟩ := Option.bind_eq_some_iff.1 hnode
  rw [← hbranches branch (List.mem_of_getElem? hbranch), Condition.node?_released] at hnode
  obtain ⟨n, -, hn⟩ := Option.map_eq_some_iff.1 hnode
  exact handle_of_released hn

theorem unresolved_finishBranches (branches : List (Branch T H K C)) (h : H) :
    Unresolved (finishBranches branches h).1 := by
  intro b path d hnode
  rw [nodeAt_finishBranches] at hnode
  obtain ⟨n, -, hn⟩ := Option.map_eq_some_iff.1 hnode
  exact handle_of_released hn

theorem Unresolved.resolveAt [Builder K H C] {branches : List (Branch T H K C)}
    (hbranches : Unresolved branches) (i : Nat) (h : H) :
    Unresolved (resolveAt branches i h).2.1 := by
  intro b path d hnode
  rw [nodeAt_resolveAt] at hnode
  exact hbranches b path d hnode

variable [Host H T] {j : Junction T H K C}

/-- Only a running junction may keep a machine. -/
def Released (j : Junction T H K C) : Prop :=
  j.phase ≠ .running → Unresolved j.branches

theorem Released.step [Scalar T] [Builder K H C] (hj : j.Released) (h : H) :
    (j.step h).2.1.Released := by
  intro hphase
  rcases j.phase_cases with hrun | hover
  · rcases first_or_none (j.start h).1.branches
      (runLogic Background.update j.logic (j.start h).2) with ⟨i, hopen, hbefore⟩ | hnone
    · rw [step_of_first hrun hopen hbefore]
      exact (unresolved_finishBranches _ _).resolveAt i _
    · rw [step_of_none hrun hnone] at hphase
      exact absurd rfl hphase
  · rw [step_of_over hover] at hphase ⊢
    exact hj hphase

omit [Host H T] in
theorem Released.abort (hj : j.Released) (h : H) : (j.abort h).1.Released := by
  intro hphase
  by_cases hrun : j.phase = .running
  · rw [abort_of_running hrun]
    exact unresolved_finishBranches j.branches h
  · rw [abort_of_ne_running hrun] at hphase ⊢
    exact hj hphase

theorem Released.play [Scalar T] [Builder K H C] (hj : j.Released) (moves : List (Move H))
    (h : H) : (play moves j h).1.Released :=
  Move.run_keeps (I := Released) (fun _ h hj => hj.step h) (fun _ h hj => hj.abort h) moves hj h

end Junction

/-! ## Main result -/

/-- Once the session of a condition has been started, whatever the occurrences since:

* a dependency at any place of it has the handle that the world had under its name when it was
  started, and answers whether that machine is running, or no if there was none;
* finishing the session releases it, and the next start looks its machine up anew;
* if the machine is a director, and nobody but the director writes under its handle, the answer
  is whether something is installed in it.

And whatever the moves of a junction that was made of conditions outside any session, no
dependency of it keeps a handle while the junction is not running. -/
theorem dependencies_pinned_and_live [Interpreter C World] [Builder K World C]
    {c : Condition Float32 World} {path : List Nat} {d : Dependency}
    (hleaf : c.node? path = some (.dependency d)) (x : Director C × World)
    (occurrences : List (Occurrence C World)) {branches : List (Branch Float32 World K C)}
    (hmade : Junction.Unresolved branches) (name : String) (logic : List (Background World))
    (moves : List (Move World)) (w : World) :
    let opened := c.start x.2
    let handle := (c.startsOn path x.2).machines.get? d.name
    let now := Watch.after occurrences ⟨opened.1, x.1, opened.2⟩
    let closed := now.condition.finish now.host
    let k : Conduct World := .undisturbed x.1.status
    let played := Junction.play moves (.ofBranches name logic branches) w
    now.condition.node? path = some (.dependency ⟨d.name, handle⟩) ∧
    now.condition.answer? path now.host =
      some (handle.any (now.condition.turnsOn path now.host).isRunning) ∧
    closed.1.node? path = some (.dependency ⟨d.name, none⟩) ∧
    (∀ w, (closed.1.start w).1.node? path =
      some (.dependency ⟨d.name, (closed.1.startsOn path w).machines.get? d.name⟩)) ∧
    (∀ (P : C → Prop) (title : String) (w₀ : World) (before : List (Command C World)),
      x = Director.after before (Director.idle title w₀) → handle = some x.1.status →
      Director.Discreet P k → c.Respects k → (∀ command ∈ before, Director.Allowed P k command) →
      (∀ o ∈ occurrences, o.Allowed P k) →
      now.condition.answer? path now.host = some now.director.isRunning) ∧
    (played.1.phase ≠ .running → Junction.Unresolved played.1.branches) := by
  intro opened handle now closed k played
  have hopened : opened.1.node? path = some (.dependency ⟨d.name, handle⟩) := by
    refine (c.node?_start path x.2).trans ?_
    rw [hleaf]
    rfl
  have hnode : now.condition.node? path = some (.dependency ⟨d.name, handle⟩) :=
    Watch.node_after (s := ⟨opened.1, x.1, opened.2⟩) hopened occurrences
  have hanswer : now.condition.answer? path now.host =
      some (handle.any (now.condition.turnsOn path now.host).isRunning) :=
    Watch.answer?_of_node hnode
  have hclosed : closed.1.node? path = some (.dependency ⟨d.name, none⟩) := by
    show (now.condition.finish now.host).1.node? path = _
    rw [Condition.finish_eq_released, Condition.node?_released, hnode]
    rfl
  refine ⟨hnode, hanswer, hclosed, fun w => ?_, ?_, ?_⟩
  · rw [Condition.node?_start, hclosed]
    rfl
  · intro P title w₀ before hx hhandle hdiscreet hc hbefore hoccurrences
    have hstatus : x.1.status = (Director.idle (C := C) title w₀).1.status := by
      rw [hx, Director.status_after]
    have hreporting : Director.Reporting P x.1.status x := by
      have hdiscreet : Director.Discreet P (.undisturbed x.1.status) := hdiscreet
      have hbefore : ∀ command ∈ before, Director.Allowed P (.undisturbed x.1.status) command :=
        hbefore
      rw [hstatus] at hdiscreet hbefore ⊢
      rw [hx]
      exact (Director.Reporting.idle P title w₀).after hdiscreet hbefore
    have hnow : Watch.Live P x.1.status now :=
      (Watch.Live.start hreporting hc).after hdiscreet hoccurrences
    rw [hanswer, hhandle]
    exact congrArg some (hnow.isRunning_turnsOn path)
  · exact Junction.Released.play (j := .ofBranches name logic branches) (fun _ => hmade) moves w

/-- A dependency on a director that was removed from the names after the start: it still holds
while the director runs an empty timeline, and no longer after the tick that ends it. -/
theorem dependencies_pinned_and_live_of_removed :
    let walk : Flow Float32 World Empty := .playback (.ofTimeline (.empty "walk"))
    let w₀ := (World.ofSeed none).beginTick 1
    let before : List (Command (Flow Float32 World Empty) World) :=
      [.start walk, .outside fun w => w.register "guard" ⟨0⟩]
    let x := Director.after before (Director.idle "guard" w₀)
    let c : Condition Float32 World := .all [.always, .dependency (.on "guard")]
    let branches : List (Branch Float32 World Empty (Flow Float32 World Empty)) :=
      [.whenNot c .stop]
    let occurrences : List (Occurrence (Flow Float32 World Empty) World) :=
      [.evaluation, .command (.outside fun w => (w.unregister "guard").2)]
    let opened := c.start x.2
    let removed := Watch.after occurrences ⟨opened.1, x.1, opened.2⟩
    let ended := Watch.after (occurrences ++ [.command .tick]) ⟨opened.1, x.1, opened.2⟩
    let aborted := Junction.play [.step, .abort] (.ofBranches "wait" [] branches) x.2
    c.node? [1] = some (.dependency (.on "guard")) ∧ Junction.Unresolved branches ∧
    removed.host.machines.get? "guard" = none ∧
    removed.condition.answer? [1] removed.host = some true ∧
    ended.condition.answer? [1] ended.host = some false ∧
    aborted.1.phase ≠ .running ∧ Junction.Unresolved aborted.1.branches := by
  intro walk w₀ before x c branches occurrences opened removed ended aborted
  let k : Conduct World := .undisturbed x.1.status
  have hmade : Junction.Unresolved branches :=
    Junction.unresolved_of_released (List.forall_mem_singleton.2 rfl)
  have hwalk : walk.Respects k :=
    .playback (fun e he => absurd he List.not_mem_nil) fun n hn => absurd hn List.not_mem_nil
  have hdiscreet : Director.Discreet (Flow.Respects k) k :=
    Director.discreet_flows (fun key : Empty => key.elim) fun key : Empty => key.elim
  have hc : c.Respects k := .all (List.forall_mem_cons.2
    ⟨.always, List.forall_mem_singleton.2 (.dependency k.refl)⟩)
  have hbefore : ∀ command ∈ before, Director.Allowed (Flow.Respects k) k command :=
    List.forall_mem_cons.2 ⟨hwalk, List.forall_mem_singleton.2
      fun _ => World.undisturbed_of_statuses rfl x.1.status⟩
  have hremoved : ∀ o ∈ occurrences, o.Allowed (Flow.Respects k) k :=
    List.forall_mem_cons.2 ⟨trivial, List.forall_mem_singleton.2
      fun _ => World.undisturbed_of_statuses rfl x.1.status⟩
  have hended : ∀ o ∈ occurrences ++ [.command .tick], o.Allowed (Flow.Respects k) k :=
    List.forall_mem_append.2 ⟨hremoved, List.forall_mem_singleton.2 trivial⟩
  have hleaf : c.node? [1] = some (.dependency (.on "guard")) := rfl
  obtain ⟨-, -, -, -, hlive, hreleased⟩ := dependencies_pinned_and_live hleaf x
    occurrences hmade "wait" [] [.step, .abort] x.2
  obtain ⟨-, -, -, -, hlater, -⟩ := dependencies_pinned_and_live hleaf x
    (occurrences ++ [.command .tick]) hmade "wait" [] [] x.2
  have haborted : aborted.1.phase ≠ .running := by decide
  refine ⟨hleaf, hmade, by decide, ?_, ?_, haborted, hreleased haborted⟩
  · exact hlive _ "guard" w₀ before rfl rfl hdiscreet hc hbefore hremoved
  · exact hlater _ "guard" w₀ before rfl rfl hdiscreet hc hbefore hended

end Cueflow
