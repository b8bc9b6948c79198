import Cueflow.Proofs.Choice.Priority
import Cueflow.Proofs.Flow.Resolver
/-!
# Junctions that lead elsewhere

A junction looks at where its branches lead once, when one has been taken.

> `step_eq_leave`: a step settles the junction, and then resolves the target of the branch that
> was taken, if one was.
> `settle_aim`: where the branches lead plays no part in settling.
> `settle_recorded`: settling resolves nothing.
-/

namespace Cueflow

variable {T H K K' C : Type}

/-- The branches from place `n` on, leading where `targets` says. -/
def aimBranches (targets : Nat → Target K' C) (n : Nat) (branches : List (Branch T H K C)) :
    List (Branch T H K' C) :=
  (branches.zipIdx n).map fun x =>
    ⟨x.1.label, x.1.invert, x.1.condition, targets x.2⟩

theorem aimBranches_cons (targets : Nat → Target K' C) (n : Nat) (b : Branch T H K C)
    (rest : List (Branch T H K C)) :
    aimBranches targets n (b :: rest) =
      ⟨b.label, b.invert, b.condition, targets n⟩ :: aimBranches targets (n + 1) rest := rfl

namespace Junction

/-- The same junction with branches that lead elsewhere. -/
def aim (j : Junction T H K C) (targets : Nat → Target K' C) : Junction T H K' C where
  name := j.name
  branches := aimBranches targets 0 j.branches
  logic := j.logic
  phase := j.phase
  taken := j.taken
  ticks := j.ticks

/-! ## Calls that resolve nothing -/

theorem isResolve_visits (call : SessionCall) (n : Nat) (sites : List (List (List Nat))) :
    ∀ c ∈ (visits call n sites : List (Call T)), c.isResolve = false := by
  intro c hc
  obtain ⟨x, -, hc⟩ := List.mem_flatMap.1 hc
  obtain ⟨path, -, rfl⟩ := List.mem_map.1 hc
  rfl

theorem isResolve_rounds (call : SessionCall) (n count : Nat) :
    ∀ c ∈ (rounds call n count : List (Call T)), c.isResolve = false := by
  intro c hc
  obtain ⟨i, -, rfl⟩ := List.mem_map.1 hc
  rfl

theorem isResolve_closing (j : Junction T H K C) :
    ∀ c ∈ j.closing, c.isResolve = false :=
  List.forall_mem_append.2 ⟨isResolve_visits _ _ _, isResolve_rounds _ _ _⟩

theorem isResolve_opening (j : Junction T H K C) :
    ∀ c ∈ j.opening, c.isResolve = false := by
  unfold opening
  cases j.phase with
  | notStarted =>
    exact List.forall_mem_append.2 ⟨isResolve_visits _ _ _, isResolve_rounds _ _ _⟩
  | running => exact fun c hc => absurd hc List.not_mem_nil
  | taken => exact fun c hc => absurd hc List.not_mem_nil
  | aborted => exact fun c hc => absurd hc List.not_mem_nil

/-! ## Settling and leaving -/

section Settling

variable [Scalar T] [Host H T]

/-- All of a step but the resolving: starts the junction, updates the logic, looks for an open
branch and closes everything if there is one. -/
def settle (j : Junction T H K C) (h : H) : Junction T H K C × H :=
  let (j, h) := j.start h
  match firstOpen j.branches (runLogic Background.update j.logic h) with
  | (none, branches, h) => ({ j with branches, ticks := j.ticks + 1 }, h)
  | (some i, branches, h) =>
    close { j with branches, ticks := j.ticks + 1, taken := some i } .taken h

/-- The rest of a step: resolves the target of the branch that was taken. -/
def leave [Builder K H C] (j : Junction T H K C) (h : H) :
    StepResult C × Junction T H K C × H :=
  match j.phase, j.taken with
  | .taken, some i =>
    let (next, branches, h) := resolveAt j.branches i h
    (.done next, { j with branches }, h)
  | _, _ => (.suspend, j, h)

/-- A step settles the junction and leaves it if a branch was taken. -/
theorem step_eq_leave [Builder K H C] {j : Junction T H K C}
    (hrun : j.phase = .notStarted ∨ j.phase = .running) (h : H) :
    j.step h = (j.settle h).1.leave (j.settle h).2 := by
  have hphase : (j.start h).1.phase = .running := by rw [start_of_run hrun h]
  rw [step_eq_choose hrun]
  unfold settle
  rcases hstart : j.start h with ⟨started, h'⟩
  rw [hstart] at hphase
  rcases hfirst : firstOpen started.branches (runLogic Background.update started.logic h') with
    ⟨found, branches, h''⟩
  cases found with
  | none =>
    have hphase : started.phase = .running := hphase
    rw [choose_of_none hfirst]
    dsimp only
    rw [hfirst]
    unfold leave
    dsimp only
    rw [hphase]
  | some i =>
    rw [choose_of_some hfirst]
    dsimp only
    rw [hfirst]
    rfl

omit [Scalar T] in
theorem startBranches_aim (targets : Nat → Target K' C) (n : Nat)
    (branches : List (Branch T H K C)) (h : H) :
    startBranches (aimBranches targets n branches) h =
      (aimBranches targets n (startBranches branches h).1, (startBranches branches h).2) := by
  induction branches generalizing n h with
  | nil => rfl
  | cons b rest ih =>
    simp only [aimBranches_cons, startBranches, Branch.start, ih]

omit [Scalar T] [Host H T] in
theorem finishBranches_aim (targets : Nat → Target K' C) (n : Nat)
    (branches : List (Branch T H K C)) (h : H) :
    finishBranches (aimBranches targets n branches) h =
      (aimBranches targets n (finishBranches branches h).1, (finishBranches branches h).2) := by
  induction branches generalizing n h with
  | nil => rfl
  | cons b rest ih =>
    simp only [aimBranches_cons, finishBranches, Branch.finish, ih]

theorem firstOpen_aim (targets : Nat → Target K' C) (n : Nat)
    (branches : List (Branch T H K C)) (h : H) :
    firstOpen (aimBranches targets n branches) h = ((firstOpen branches h).1,
      aimBranches targets n (firstOpen branches h).2.1, (firstOpen branches h).2.2) := by
  induction branches generalizing n h with
  | nil => rfl
  | cons b rest ih =>
    rw [aimBranches_cons]
    unfold firstOpen Branch.isOpen
    dsimp only
    cases (b.condition.isMet h).1 != b.invert with
    | true => rfl
    | false =>
      dsimp only
      rw [ih]
      rfl

omit [Scalar T] in
theorem start_aim (j : Junction T H K C) (targets : Nat → Target K' C) (h : H) :
    (j.aim targets).start h = ((j.start h).1.aim targets, (j.start h).2) := by
  have hstart := startBranches_aim targets 0 j.branches h
  unfold start
  rw [show (j.aim targets).phase = j.phase from rfl]
  cases j.phase with
  | notStarted =>
    dsimp only
    rw [show (j.aim targets).branches = aimBranches targets 0 j.branches from rfl, hstart]
    rfl
  | running => rfl
  | taken => rfl
  | aborted => rfl

omit [Scalar T] [Host H T] in
theorem close_aim (j : Junction T H K C) (targets : Nat → Target K' C) (phase : JunctionPhase)
    (h : H) : (j.aim targets).close phase h =
      ((j.close phase h).1.aim targets, (j.close phase h).2) := by
  unfold close
  rw [show (j.aim targets).branches = aimBranches targets 0 j.branches from rfl,
    finishBranches_aim]
  rfl

omit [Scalar T] [Host H T] in
theorem abort_aim (j : Junction T H K C) (targets : Nat → Target K' C) (h : H) :
    (j.aim targets).abort h = ((j.abort h).1.aim targets, (j.abort h).2) := by
  unfold abort
  rw [show (j.aim targets).phase = j.phase from rfl]
  cases j.phase with
  | running => exact close_aim j targets .aborted h
  | notStarted => rfl
  | taken => rfl
  | aborted => rfl

/-- Where the branches lead plays no part in settling. -/
theorem settle_aim (j : Junction T H K C) (targets : Nat → Target K' C) (h : H) :
    (j.aim targets).settle h = ((j.settle h).1.aim targets, (j.settle h).2) := by
  unfold settle
  rw [start_aim]
  rcases j.start h with ⟨started, h'⟩
  have hfirst := firstOpen_aim targets 0 started.branches
    (runLogic Background.update started.logic h')
  dsimp only
  rw [show (started.aim targets).branches = aimBranches targets 0 started.branches from rfl,
    show (started.aim targets).logic = started.logic from rfl, hfirst]
  rcases firstOpen started.branches (runLogic Background.update started.logic h') with
    ⟨found, branches, h''⟩
  cases found with
  | none => rfl
  | some i =>
    exact close_aim { started with branches, ticks := started.ticks + 1, taken := some i } targets
      .taken h''

/-- Recorded settling is the plain one, and resolves nothing. -/
theorem settle_recorded (j : Junction T H K C) (s : Journaled (Call T) H) :
    ∃ acts, (∀ c ∈ acts, c.isResolve = false) ∧ (j.recorded id).settle s =
      ((j.settle s.host).1.recorded id, ⟨(j.settle s.host).2, s.journal ++ acts⟩) := by
  have hstart := start_recorded (id : Call T → Call T) j s
  rw [List.map_id] at hstart
  unfold settle
  rw [hstart]
  rcases j.start s.host with ⟨started, h⟩
  have hfirst := (congrArg (firstOpen (recordBranches id 0 started.branches))
    (updateLogic_recorded id 0 started.logic ⟨h, s.journal ++ j.opening⟩)).trans
    (firstOpen_recorded id 0 started.branches _)
  dsimp only at hfirst ⊢
  rw [show (started.recorded (id : Call T → Call T)).branches =
      recordBranches id 0 started.branches from rfl,
    show (started.recorded (id : Call T → Call T)).logic =
      recordLogic id 0 started.logic from rfl,
    hfirst]
  rcases firstOpen started.branches (runLogic Background.update started.logic h) with
    ⟨found, branches, h'⟩
  simp only [List.map_id, List.append_assoc]
  cases found with
  | none =>
    refine ⟨_, ?_, rfl⟩
    exact List.forall_mem_append.2 ⟨isResolve_opening j,
      List.forall_mem_append.2 ⟨isResolve_rounds _ _ _, isResolve_visits _ _ _⟩⟩
  | some i =>
    have hclose := close_recorded (id : Call T → Call T)
      { started with branches, ticks := started.ticks + 1, taken := some i } .taken
      ⟨h', s.journal ++ (j.opening ++ (rounds .turn 0 started.logic.length ++
        visits .turn 0 ((sites started.branches).take
          (evaluated (some i) started.branches.length))))⟩
    rw [List.map_id, List.append_assoc, List.append_assoc, List.append_assoc] at hclose
    refine ⟨_, ?_, hclose⟩
    exact List.forall_mem_append.2 ⟨isResolve_opening j,
      List.forall_mem_append.2 ⟨isResolve_rounds _ _ _,
        List.forall_mem_append.2 ⟨isResolve_visits _ _ _, isResolve_closing _⟩⟩⟩

theorem heading_firstOpen (branches : List (Branch T H K C)) (h : H) :
    (firstOpen branches h).2.1.map Branch.heading = branches.map Branch.heading := by
  rcases first_or_none branches h with ⟨i, hopen, hbefore⟩ | hnone
  · rw [firstOpen_eq_some hopen hbefore]
    exact heading_turnBranches _ _ _
  · rw [firstOpen_eq_none hnone]
    exact heading_turnBranches _ _ _

theorem heading_settle (j : Junction T H K C) (h : H) :
    (j.settle h).1.branches.map Branch.heading = j.branches.map Branch.heading := by
  have hheadings := heading_start j h
  unfold settle
  rcases hstart : j.start h with ⟨started, h'⟩
  rw [hstart] at hheadings
  have hopen := heading_firstOpen started.branches (runLogic Background.update started.logic h')
  dsimp only at hheadings ⊢
  rw [← hheadings]
  rcases hfirst : firstOpen started.branches (runLogic Background.update started.logic h') with
    ⟨found, branches, h''⟩
  rw [hfirst] at hopen
  cases found with
  | none => exact hopen
  | some i => exact (heading_finishBranches branches h'').trans hopen

/-- Settling leaves the junction running, or with one of its branches taken. -/
theorem settle_cases {j : Junction T H K C} (hrun : j.phase = .notStarted ∨ j.phase = .running)
    (h : H) : (j.settle h).1.phase = .running ∨
      (j.settle h).1.phase = .taken ∧
        ∃ i < j.branches.length, (j.settle h).1.taken = some i := by
  have hphase : (j.start h).1.phase = .running := by rw [start_of_run hrun h]
  have hlength : (j.start h).1.branches.length = j.branches.length := (sameShape_start j h).length
  unfold settle
  rcases hstart : j.start h with ⟨started, h'⟩
  rw [hstart] at hphase hlength
  have hlt : ∀ i, (firstOpen started.branches (runLogic Background.update started.logic h')).1 =
      some i → i < started.branches.length := fun i => firstOpen_lt
  dsimp only at hphase hlength ⊢
  rw [← hlength]
  rcases hfirst : firstOpen started.branches (runLogic Background.update started.logic h') with
    ⟨found, branches, h''⟩
  rw [hfirst] at hlt
  cases found with
  | none => exact Or.inl hphase
  | some i => exact Or.inr ⟨rfl, i, hlt i rfl, rfl⟩

end Settling

section Leaving

variable [Builder K H C] {j : Junction T H K C} {i : Nat} {h h' : H} {next : Option C}

theorem leave_of_running (hphase : j.phase = .running) : j.leave h = (.suspend, j, h) := by
  unfold leave
  rw [hphase]

theorem leave_of_taken (hphase : j.phase = .taken) (htaken : j.taken = some i) :
    j.leave h = (.done (resolveAt j.branches i h).1,
      { j with branches := (resolveAt j.branches i h).2.1 }, (resolveAt j.branches i h).2.2) := by
  unfold leave
  rw [hphase, htaken]

/-- Resolving a target changes nothing but that target. -/
theorem aimBranches_resolveAt (targets : Nat → Target K' C) (n : Nat)
    (branches : List (Branch T H K C)) (i : Nat) (h : H) :
    aimBranches targets n (resolveAt branches i h).2.1 = aimBranches targets n branches := by
  induction branches generalizing n i with
  | nil => rfl
  | cons b rest ih =>
    cases i with
    | zero => rfl
    | succ i => exact congrArg (List.cons _) (ih (n + 1) i)

omit [Builder K H C] in
/-- Resolving a target that stays as it is. -/
theorem resolveAt_aim [Builder K' H C] {targets : Nat → Target K' C} {n : Nat}
    {branches : List (Branch T H K C)} (hi : i < branches.length)
    (hstays : (targets (n + i)).resolve h = (next, targets (n + i), h')) :
    resolveAt (aimBranches targets n branches) i h =
      (next, aimBranches targets n branches, h') := by
  induction branches generalizing n i with
  | nil => exact absurd hi (Nat.not_lt_zero i)
  | cons b rest ih =>
    rw [aimBranches_cons]
    cases i with
    | zero =>
      have hstays : (targets n).resolve h = (next, targets n, h') := hstays
      simp only [resolveAt, hstays]
    | succ i =>
      have hindex : n + (i + 1) = n + 1 + i := by omega
      rw [hindex] at hstays
      simp only [resolveAt, ih (Nat.lt_of_succ_lt_succ hi) hstays]

end Leaving

end Junction

end Cueflow
