import Cueflow.Proofs.Choice.Conduct
import Cueflow.World.Basic
/-!
# Waits are never starved

How far every wait of a junction has counted down.

> `waits_never_starved`: after any run, every wait in the condition of any branch has been
> evaluated once in each step that reached its branch, and what remains of it is what was drawn
> less the deltas of these steps, one after the other. Only the step that takes a branch does
> not reach all of them: it leaves the branches behind the winner as they were.

`liveDeltas` are the deltas that the steps of a run read, and `seenBy` are those of them that a
branch has seen. `Waiting` is the invariant of one wait along the run, and `turned` the count of
its evaluations; neither depends on what any condition answers.
-/

namespace Cueflow

variable {T H K C : Type}

/-- The wait after evaluations that read these deltas. -/
def Wait.after [Scalar T] (w : Wait T) (deltas : List T) : Wait T :=
  { w with remaining := deltas.foldl (· - ·) w.remaining }

theorem Wait.after_concat [Scalar T] (w : Wait T) (deltas : List T) (d : T) :
    w.after (deltas ++ [d]) = (w.after deltas).after [d] := by
  simp only [Wait.after, List.foldl_append]

namespace Junction

/-! ## Deltas -/

/-- Those of the deltas that branch `b` has seen: all, unless the last of them is that of a step
that took a branch before it. -/
def seenBy (b : Nat) (taken : Option Nat) (deltas : List T) : List T :=
  match taken with
  | some i => if i < b then deltas.dropLast else deltas
  | none => deltas

section Deltas

variable [Scalar T] [Host H T] [Builder K H C]

/-- The deltas that are read by the steps among these moves which find the junction not
over. -/
def liveDeltas : List (Move H) → Junction T H K C → H → List T
  | [], _, _ => []
  | .step :: moves, j, h =>
    (if j.phase = .taken ∨ j.phase = .aborted then [] else [Host.deltaTime h]) ++
      liveDeltas moves (j.step h).2.1 (j.step h).2.2
  | .abort :: moves, j, h => liveDeltas moves (j.abort h).1 (j.abort h).2
  | .outside f :: moves, j, h => liveDeltas moves j (f h)

theorem length_liveDeltas (moves : List (Move H)) (j : Junction T H K C) (h : H) :
    (liveDeltas moves j h).length = liveSteps moves j h := by
  induction moves generalizing j h with
  | nil => rfl
  | cons move moves ih =>
    cases move with
    | step =>
      rw [liveDeltas, liveSteps, List.length_append, ih]
      split <;> rfl
    | abort => exact ih _ _
    | outside f => exact ih j (f h)

end Deltas

/-! ## What remains of a wait -/

/-- A wait that is at this place of the junction, and had `w` remaining when its session was
started: what remains of it are those of the deltas that its branch has seen, taken away. -/
structure Waiting [Scalar T] [Host H T] (b : Nat) (path : List Nat) (w : Wait T)
    (j : Junction T H K C) (deltas : List T) : Prop where
  opened : j.phase ≠ .notStarted
  untaken : j.phase = .running → j.taken = none
  respects : j.Respects .sameDelta
  node : nodeAt j.branches b path = some (.wait (w.after (seenBy b j.taken deltas)))

namespace Waiting

variable [Scalar T] [Host H T] {b : Nat} {path : List Nat} {w : Wait T}
  {j : Junction T H K C} {deltas : List T}

/-- An evaluation takes the delta of the step away, wherever the wait is. -/
theorem node_turned {branches : List (Branch T H K C)} (hb : BranchesRespect .sameDelta branches)
    (hnode : nodeAt branches b path = some (.wait w)) (n : Nat) (h : H) :
    nodeAt (turnBranches n branches h).1 b path =
      some (.wait (if b < n then w.after [Host.deltaTime h] else w)) := by
  have hdelta : Host.deltaTime (turnsAt branches b path h) = Host.deltaTime h :=
    hb.turnsAt b path h
  rw [nodeAt_turnBranches, hnode]
  split
  · rw [← hdelta]
    rfl
  · rfl

/-- A step that finds the junction running. -/
theorem step [Builder K H C] (hw : Waiting b path w j deltas) (hrun : j.phase = .running)
    (h : H) : Waiting b path w (j.step h).2.1 (deltas ++ [Host.deltaTime h]) := by
  have hrun' : j.phase = .notStarted ∨ j.phase = .running := Or.inr hrun
  have hstart : j.start h = (j, h) := start_of_running hrun h
  have huntaken := hw.untaken hrun
  have hnode := hw.node
  rw [huntaken] at hnode
  have hupdated : Host.deltaTime (runLogic Background.update j.logic h) = Host.deltaTime h :=
    rel_runLogic (k := .sameDelta) (fun l hl => (hw.respects.logic l hl).update) h
  have hturned := fun n => node_turned hw.respects.branches hnode n
    (runLogic Background.update j.logic h)
  rw [hupdated] at hturned
  have hrespects := hw.respects.step h
  rcases first_or_none (j.start h).1.branches
    (runLogic Background.update j.logic (j.start h).2) with ⟨i, hopen, hbefore⟩ | hnone
  · rw [step_of_first hrun' hopen hbefore] at hrespects ⊢
    refine ⟨JunctionPhase.noConfusion, fun hphase => (nomatch hphase), hrespects, ?_⟩
    -- closing and resolving leave a wait as it is
    refine (nodeAt_resolveAt _ i b path _).trans ?_
    refine (nodeAt_finishBranches _ b path _).trans ?_
    rw [hstart, hturned (i + 1)]
    show some (Condition.wait _) =
      some (.wait (w.after (seenBy b (some i) (deltas ++ [Host.deltaTime h]))))
    by_cases hi : i < b
    · have hb : ¬ b < i + 1 := by omega
      simp only [seenBy, if_pos hi, if_neg hb, List.dropLast_concat]
    · have hb : b < i + 1 := by omega
      simp only [seenBy, if_neg hi, if_pos hb, Wait.after_concat]
  · rw [step_of_none hrun' hnone] at hrespects ⊢
    refine ⟨JunctionPhase.noConfusion, fun _ => huntaken, hrespects, ?_⟩
    have hb : b < j.branches.length := by
      obtain ⟨branch, hbranch, -⟩ := Option.bind_eq_some_iff.1 hnode
      exact (List.getElem?_eq_some_iff.1 hbranch).1
    rw [hstart]
    refine (hturned j.branches.length).trans ?_
    rw [if_pos hb]
    show some (Condition.wait _) =
      some (.wait (w.after (seenBy b j.taken (deltas ++ [Host.deltaTime h]))))
    simp only [huntaken, seenBy, Wait.after_concat]

theorem abort (hw : Waiting b path w j deltas) (h : H) :
    Waiting b path w (j.abort h).1 deltas := by
  have hrespects := hw.respects.abort h
  by_cases hrun : j.phase = .running
  · rw [abort_of_running hrun] at hrespects ⊢
    refine ⟨JunctionPhase.noConfusion, fun hphase => (nomatch hphase), hrespects, ?_⟩
    refine (nodeAt_finishBranches j.branches b path h).trans ?_
    rw [hw.node]
    rfl
  · rw [abort_of_ne_running hrun]
    exact hw

/-- Along every run. -/
theorem play [Builder K H C] (moves : List (Move H)) (hw : Waiting b path w j deltas) (h : H) :
    Waiting b path w (play moves j h).1 (deltas ++ liveDeltas moves j h) := by
  induction moves generalizing j deltas h with
  | nil =>
    rw [liveDeltas, List.append_nil]
    exact hw
  | cons move moves ih =>
    cases move with
    | step =>
      rw [liveDeltas, ← List.append_assoc]
      split
      · next hover =>
        rw [List.append_nil]
        refine ih ?_ _
        rw [step_of_over hover]
        exact hw
      · next hlive =>
        have hrun : j.phase = .running := by
          rcases j.phase_cases with (hnew | hrun) | hover
          · exact absurd hnew hw.opened
          · exact hrun
          · exact absurd hover hlive
        exact ih (hw.step hrun h) _
    | abort => exact ih (hw.abort h) _
    | outside f => exact ih hw (f h)

end Waiting

/-! ## How often a node is evaluated -/

/-- How many of the steps that the junction has made evaluated branch `b`. -/
def turnsSeen (b : Nat) (j : Junction T H K C) : Nat :=
  match j.taken with
  | some i => if i < b then j.ticks - 1 else j.ticks
  | none => j.ticks

/-- A branch has been evaluated once for each delta that it has seen. -/
theorem length_seenBy (b : Nat) {j : Junction T H K C} {deltas : List T}
    (hticks : deltas.length = j.ticks) : (seenBy b j.taken deltas).length = turnsSeen b j := by
  unfold seenBy turnsSeen
  split
  · split
    · rw [List.length_dropLast, hticks]
    · exact hticks
  · exact hticks

section Counting

variable {branches : List (Branch T H K C)} {b : Nat} {path : List Nat}

theorem HasPlace.lt_length (hplace : HasPlace (sites branches) b path) :
    b < branches.length := by
  unfold HasPlace sites at hplace
  rw [List.getElem?_map] at hplace
  cases hbranch : branches[b]? with
  | none =>
    rw [hbranch] at hplace
    exact absurd hplace List.not_mem_nil
  | some branch => exact (List.getElem?_eq_some_iff.1 hbranch).1

/-- Opening and closing evaluate nothing. -/
theorem count_turn_visits {call : SessionCall} (hcall : call ≠ .turn) (n count : Nat) :
    (Call.ofCondition b path (visits call 0 (sites branches) ++
      rounds call n count : List (Call T))).count .turn = 0 := by
  rw [Call.ofCondition_append, ofCondition_rounds, List.append_nil,
    ofCondition_visits b path call (nodup_sites branches)]
  split
  · exact List.count_eq_zero.2 fun hmem => hcall (List.mem_singleton.1 hmem).symm
  · rfl

theorem count_turn_opening (j : Junction T H K C) :
    (Call.ofCondition b path j.opening).count .turn = 0 := by
  unfold opening
  split
  · exact count_turn_visits SessionCall.noConfusion 0 j.logic.length
  all_goals rfl

theorem count_turn_closing (j : Junction T H K C) :
    (Call.ofCondition b path j.closing).count .turn = 0 :=
  count_turn_visits SessionCall.noConfusion 0 j.logic.length

/-- A step evaluates each node of the branches that it evaluates once, and no others. -/
theorem count_turn_turns {j : Junction T H K C} (hplace : HasPlace (sites j.branches) b path)
    (n : Nat) :
    (Call.ofCondition b path (j.turns n)).count .turn = if b < n then 1 else 0 := by
  have hnodup : ∀ places ∈ (sites j.branches).take n, places.Nodup := fun places hmem =>
    nodup_sites j.branches places (List.mem_of_mem_take hmem)
  have htake : HasPlace ((sites j.branches).take n) b path ↔ b < n := by
    unfold HasPlace at hplace ⊢
    rw [List.getElem?_take]
    split
    · next hb => exact ⟨fun _ => hb, fun _ => hplace⟩
    · next hb => exact ⟨fun hmem => absurd hmem List.not_mem_nil, fun hlt => absurd hlt hb⟩
  unfold turns
  rw [Call.ofCondition_append, ofCondition_rounds, List.nil_append,
    ofCondition_visits b path .turn hnodup]
  simp only [htake]
  split <;> rfl

/-- The account of one node: it is at its place, and has been evaluated in every step that
reached its branch. -/
structure Turned (sites : List (List (List Nat))) (b : Nat) (path : List Nat)
    (j : Junction T H K C) (calls : List (Call T)) : Prop where
  places : Junction.sites j.branches = sites
  untaken : j.phase ≠ .taken → j.taken = none
  count : (Call.ofCondition b path calls).count .turn = turnsSeen b j

variable {sites : List (List (List Nat))} {j j' : Junction T H K C} {calls log : List (Call T)}

theorem Turned.stepped {ends : Bool} (h : Turned sites b path j calls)
    (hplace : HasPlace sites b path) (hrun : j.phase = .notStarted ∨ j.phase = .running)
    (hticks : j'.ticks = j.ticks + 1) (hstep : Stepped j log ends j') :
    Turned sites b path j' (calls ++ log) := by
  have huntaken : j.taken = none := h.untaken (by rcases hrun with h | h <;> simp [h])
  have hbefore : (Call.ofCondition b path calls).count .turn = j.ticks := by
    rw [h.count, turnsSeen, huntaken]
  have hplace : HasPlace (Junction.sites j.branches) b path := by rwa [h.places]
  cases hstep with
  | waiting hshape hphase htaken =>
    refine ⟨hshape.sites.trans h.places, fun _ => htaken.trans huntaken, ?_⟩
    have hb : b < j.branches.length := hplace.lt_length
    rw [turnsSeen, htaken, huntaken, Call.ofCondition_append, Call.ofCondition_append,
      List.count_append, List.count_append, hbefore, count_turn_opening, count_turn_turns hplace,
      if_pos hb, hticks, Nat.zero_add]
  | @taken i _ trail hshape _ hphase htaken htrail =>
    refine ⟨hshape.sites.trans h.places, fun hne => absurd hphase hne, ?_⟩
    have htrail : (Call.ofCondition b path trail).count .turn = 0 := by
      rcases htrail with rfl | rfl <;> rfl
    simp only [turnsSeen, htaken, Call.ofCondition_append, List.count_append, hbefore,
      count_turn_opening, count_turn_turns hplace, count_turn_closing, htrail, hticks]
    split <;> split <;> omega

theorem Turned.aborted (h : Turned sites b path j calls) (hshape : SameShape j j')
    (htaken : j'.taken = j.taken) (hticks : j'.ticks = j.ticks)
    (hrun : j.phase = .running) : Turned sites b path j' (calls ++ j.closing) := by
  have huntaken : j.taken = none := h.untaken (by simp [hrun])
  refine ⟨hshape.sites.trans h.places, fun _ => htaken.trans huntaken, ?_⟩
  rw [Call.ofCondition_append, List.count_append, count_turn_closing, h.count, turnsSeen,
    turnsSeen, htaken, hticks, Nat.add_zero]

end Counting

/-! ## Along every run -/

variable [Scalar T] [Host H T] [Builder K H C]

/-- Recording changes nothing of a run, and every node has its account. -/
theorem turned_play (name : String) (logic : List (Background H))
    (branches : List (Branch T H K C)) (moves : List (Move H)) (h : H) :
    let made := ofBranches name logic branches
    ∃ calls, play (moves.map Move.journaled) (made.recorded id) (⟨h, []⟩ : Journaled (Call T) H) =
        ((play moves made h).1.recorded id, ⟨(play moves made h).2, calls⟩) ∧
      ∀ b path, HasPlace (sites branches) b path →
        Turned (sites branches) b path (play moves made h).1 calls := by
  intro made
  let accounts (j : Junction T H K C) (calls : List (Call T)) : Prop :=
    ∀ b path, HasPlace (sites branches) b path → Turned (sites branches) b path j calls
  have hmade : accounts made [] := fun b path _ => ⟨rfl, fun _ => rfl, rfl⟩
  suffices hrun : ∃ calls,
      play (moves.map Move.journaled) (made.recorded id) (⟨h, []⟩ : Journaled (Call T) H) =
        ((play moves made h).1.recorded id, ⟨(play moves made h).2, [] ++ calls.map id⟩) ∧
      accounts (play moves made h).1 ([] ++ calls) by
    obtain ⟨calls, hcalls, hturned⟩ := hrun
    rw [List.map_id] at hcalls
    exact ⟨calls, hcalls, hturned⟩
  refine Move.run_recorded (recorded id) id ?_ ?_ moves hmade ⟨h, []⟩ (Move.paced_true _ _ _ _)
  · intro j calls s hturned _
    rcases j.phase_cases with hrun | hover
    · obtain ⟨log, hlog, hstep⟩ := step_recorded id hrun s
      have hticks : (j.step s.host).2.1.ticks = j.ticks + 1 := by
        have hlive : ¬ (j.phase = .taken ∨ j.phase = .aborted) := by
          rcases hrun with hphase | hphase <;> simp [hphase]
        rw [ticks_step, if_neg hlive]
      exact ⟨log, congrArg Prod.snd hlog, fun b path hplace =>
        (hturned b path hplace).stepped hplace hrun hticks hstep⟩
    · refine ⟨[], ?_, ?_⟩
      · rw [step_of_over hover, step_of_over (j := j.recorded id) hover]
        simp
      · rw [step_of_over hover, List.append_nil]
        exact hturned
  · intro j calls s hturned
    by_cases hrun : j.phase = .running
    · obtain ⟨hlog, hshape, -, htaken⟩ := abort_recorded id hrun s
      exact ⟨j.closing, hlog, fun b path hplace =>
        (hturned b path hplace).aborted hshape htaken (ticks_abort j s.host) hrun⟩
    · refine ⟨[], ?_, ?_⟩
      · rw [abort_of_ne_running hrun, abort_of_ne_running (j := j.recorded id) hrun]
        simp
      · rw [abort_of_ne_running hrun, List.append_nil]
        exact hturned

/-- The first step goes on from where starting has led. -/
theorem step_start (name : String) (logic : List (Background H))
    (branches : List (Branch T H K C)) (h : H) :
    let started := (ofBranches name logic branches).start h
    started.1.step started.2 = (ofBranches name logic branches).step h := by
  intro started
  rw [step_eq_choose (j := ofBranches name logic branches) (Or.inl rfl),
    step_eq_choose (j := started.1) (Or.inr rfl)]
  rfl

omit [Builder K H C] in
/-- Starting a junction that was just made starts every wait with what is drawn for it. -/
theorem waiting_start {name : String} {logic : List (Background H)}
    {branches : List (Branch T H K C)} (hbranches : BranchesRespect .sameDelta branches)
    (hlogic : ∀ l ∈ logic, l.Respects (.sameDelta : Conduct H)) {b : Nat} {path : List Nat}
    {w : Wait T} (hnode : nodeAt branches b path = some (.wait w)) (h : H) :
    let started := (ofBranches name logic branches).start h
    Waiting b path (w.start (startsAt branches b path h)).1 started.1 [] := by
  intro started
  have hrespects : (ofBranches name logic branches).Respects .sameDelta := ⟨hbranches, hlogic⟩
  refine ⟨JunctionPhase.noConfusion, fun _ => rfl, (hrespects.start h).2, ?_⟩
  refine (nodeAt_startBranches branches b path h).trans ?_
  rw [hnode]
  rfl

/-- Along every run from the first step on, `deltas` being those that its steps read: every wait
at any depth of the condition of any branch, whatever the conditions before, beside and above it
answer, has been evaluated once in every step that reached its branch, and what remains of it is
what was drawn for it in the first step less the deltas of these steps, one after the other. As
long as no branch is taken the steps reached all branches, and the step that takes one reaches
it and the branches before it. The callbacks may do anything but change the delta. -/
theorem waits_never_starved (name : String) {logic : List (Background H)}
    {branches : List (Branch T H K C)} (hbranches : BranchesRespect .sameDelta branches)
    (hlogic : ∀ l ∈ logic, l.Respects (.sameDelta : Conduct H)) (moves : List (Move H)) (h : H) :
    let made := ofBranches name logic branches
    let played := play (.step :: moves) made h
    let noted := play ((.step :: moves).map Move.journaled) (made.recorded id)
      (⟨h, []⟩ : Journaled (Call T) H)
    let deltas := liveDeltas (.step :: moves) made h
    (noted.1 = played.1.recorded id ∧ noted.2.host = played.2) ∧
    deltas.length = played.1.ticks ∧ (played.1.phase = .running → played.1.taken = none) ∧
    ∀ b path w, nodeAt branches b path = some (.wait w) →
      let drawn := (Host.draw w.min w.max (startsAt branches b path h)).1
      let seen := seenBy b played.1.taken deltas
      (Call.ofCondition b path noted.2.journal).count .turn = seen.length ∧
      nodeAt played.1.branches b path =
        some (.wait { w with remaining := seen.foldl (· - ·) drawn }) := by
  intro made played noted deltas
  obtain ⟨calls, hnoted, hturned⟩ := turned_play name logic branches (.step :: moves) h
  have hticks : deltas.length = played.1.ticks := by
    rw [length_liveDeltas]
    exact ((ticks_play (.step :: moves) made h).trans (Nat.zero_add _)).symm
  have hkept : Kept logic branches played.1 := kept_play name logic branches (.step :: moves) h
  have huntaken : played.1.phase = .running → played.1.taken = none := fun hrun =>
    hkept.taken_eq_none fun htaken => nomatch hrun.symm.trans htaken
  have hsame : noted.1 = played.1.recorded id ∧ noted.2.host = played.2 :=
    ⟨congrArg Prod.fst hnoted, congrArg (fun x => x.2.host) hnoted⟩
  refine ⟨hsame, hticks, huntaken, fun b path w hnode => ?_⟩
  intro drawn seen
  refine ⟨?_, ?_⟩
  · have hcount := (hturned b path (hasPlace_of_nodeAt hnode)).count
    rw [show noted.2.journal = calls from congrArg (fun x => x.2.journal) hnoted]
    exact hcount.trans (length_seenBy b hticks).symm
  · let started := made.start h
    have hsame : Host.deltaTime started.2 = Host.deltaTime h :=
      ((⟨hbranches, hlogic⟩ : made.Respects .sameDelta).start h).1
    have hstep : started.1.step started.2 = made.step h := step_start name logic branches h
    have hplayed : play (.step :: moves) started.1 started.2 = played :=
      congrArg (fun x : _ × Junction T H K C × H => play moves x.2.1 x.2.2) hstep
    have hdeltas : liveDeltas (.step :: moves) started.1 started.2 = deltas := by
      show [Host.deltaTime started.2] ++ liveDeltas moves (started.1.step started.2).2.1
        (started.1.step started.2).2.2 = [Host.deltaTime h] ++ _
      rw [hsame, hstep]
    have hstarted : Waiting b path _ started.1 [] := waiting_start hbranches hlogic hnode h
    have hwaiting := hstarted.play (.step :: moves) started.2
    rw [hplayed, List.nil_append, hdeltas] at hwaiting
    exact hwaiting.node

end Junction

/-- Drawing a number moves the generator, and not the clock. -/
theorem World.deltaTime_draw (w : World) (lo hi : Float32) :
    (w.draw lo hi).2.deltaTime = w.deltaTime := by
  unfold World.draw World.draw?
  split
  · rfl
  · cases w.generator.draw? lo hi <;> rfl

namespace Junction

/-- Two steps of one second each: a wait of two seconds behind a test that fails, in a part of a
conjunction in the second branch, has nothing left. -/
theorem waits_never_starved_at_two :
    let w := (World.ofSeed none).beginTick 1
    let deep : Condition Float32 World := .all [.bound "no" fun _ => false, .wait ⟨2, 2, 2⟩]
    let branches : List (Branch Float32 World Empty Unit) :=
      [.when (.wait ⟨5, 5, 5⟩) .stop, .when (.all [.bound "no" fun _ => false, deep]) .stop]
    let made := ofBranches "two" [.ofUpdate id] branches
    let played := play [.step, .step] made w
    let noted := play [Move.step, Move.step] (made.recorded id)
      (⟨w, []⟩ : Journaled (Call Float32) World)
    BranchesRespect .sameDelta branches ∧
    (∀ l ∈ [Background.ofUpdate id], l.Respects (.sameDelta : Conduct World)) ∧
    (Call.ofCondition 1 [1, 1] noted.2.journal).count .turn = 2 ∧
    nodeAt played.1.branches 1 [1, 1] = some (.wait ⟨2, 2, 2 - 1 - 1⟩) := by
  intro w deep branches made played noted
  have hdraw : ∀ (lo hi : Float32) (w : World),
      (Conduct.sameDelta : Conduct World).rel w (Host.draw lo hi w).2 :=
    fun lo hi w => w.deltaTime_draw lo hi
  have hbound : (Condition.bound "no" fun _ : World => false).Respects .sameDelta :=
    .predicate fun _ => rfl
  have hdeep : deep.Respects .sameDelta := .all (by
    refine List.forall_mem_cons.2 ⟨hbound, List.forall_mem_singleton.2 (.wait (hdraw 2 2))⟩)
  have hbranches : BranchesRespect .sameDelta branches :=
    List.forall_mem_cons.2 ⟨.wait (hdraw 5 5), List.forall_mem_singleton.2 (.all
      (List.forall_mem_cons.2 ⟨hbound, List.forall_mem_singleton.2 hdeep⟩))⟩
  have hlogic : ∀ l ∈ [Background.ofUpdate id], l.Respects (.sameDelta : Conduct World) :=
    List.forall_mem_singleton.2 ⟨fun _ => rfl, fun _ => rfl, fun _ => rfl⟩
  obtain ⟨-, -, -, hwaits⟩ := waits_never_starved "two" hbranches hlogic [.step] w
  obtain ⟨hcount, hnode⟩ := hwaits 1 [1, 1] ⟨2, 2, 2⟩ rfl
  have hseen : seenBy 1 played.1.taken (liveDeltas [.step, .step] made w) = [1, 1] := by decide
  have hdrawn : (Host.draw (2 : Float32) 2 (startsAt branches 1 [1, 1] w)).1 = 2 := by decide
  refine ⟨hbranches, hlogic, hcount.trans (congrArg List.length hseen), ?_⟩
  dsimp only at hnode
  rw [hseen, hdrawn] at hnode
  exact hnode

end Junction

end Cueflow
