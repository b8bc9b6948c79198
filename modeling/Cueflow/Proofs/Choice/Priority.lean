import Mathlib.Data.Nat.Find
import Cueflow.Proofs.Choice.Sessions
/-!
# The first open branch wins

Which branch a step takes, and on which host each branch is evaluated.

> `first_open_branch_wins`: a step updates the logic and then evaluates the branches one after
> the other, each on the host that the one before it left, up to the first that is open. That
> one is taken, and its target alone is resolved, on the host that the cleaning up left. If
> none is open, all have been evaluated once and the junction waits on.

Evaluating may change the host and the conditions, so "open" has to say when. `turnBranches k`
evaluates the first `k` branches regardless of their answers, and `OpensAt k` asks branch `k`
on the host that this leaves. The search of a step answers with the least such `k`
(`firstOpen_eq_some`, `firstOpen_eq_none`). Nothing but resolving changes what a branch is
apart from its condition (`Branch.heading`), so the winner has the target it was made with.
-/

namespace Cueflow

variable {T H K C : Type}

/-- What a branch is apart from its condition. -/
def Branch.heading (b : Branch T H K C) : String × Bool × Target K C :=
  (b.label, b.invert, b.target)

namespace Junction

section Evaluation

variable [Scalar T] [Host H T]

/-- Evaluates the first `k` branches in order, whatever they answer. -/
def turnBranches : (k : Nat) → List (Branch T H K C) → H → List (Branch T H K C) × H
  | 0, branches, h => (branches, h)
  | _ + 1, [], h => ([], h)
  | k + 1, b :: rest, h =>
    let (_, b, h) := b.isOpen h
    let (rest, h) := turnBranches k rest h
    (b :: rest, h)

/-- Evaluated after all those before it, the branch with index `k` is open. -/
def OpensAt (branches : List (Branch T H K C)) (h : H) (k : Nat) : Prop :=
  ∃ b, branches[k]? = some b ∧ (b.condition.isMet (turnBranches k branches h).2).1 ≠ b.invert

variable {b : Branch T H K C} {branches rest : List (Branch T H K C)} {h : H} {i k : Nat}

theorem OpensAt.lt_length (hopen : OpensAt branches h k) : k < branches.length := by
  obtain ⟨b, hb, -⟩ := hopen
  exact (List.getElem?_eq_some_iff.1 hb).1

theorem opensAt_zero : OpensAt (b :: rest) h 0 ↔ (b.isOpen h).1 = true := by
  have hopen : (b.isOpen h).1 = true ↔ (b.condition.isMet h).1 ≠ b.invert := bne_iff_ne
  rw [hopen]
  constructor
  · rintro ⟨b', hb', hmet⟩
    cases hb'
    exact hmet
  · exact fun hmet => ⟨b, rfl, hmet⟩

theorem opensAt_succ :
    OpensAt (b :: rest) h (k + 1) ↔ OpensAt rest (b.isOpen h).2.2 k := Iff.rfl

/-- The search ends at the first open branch, and has evaluated the branches up to it. -/
theorem firstOpen_eq_some (hopen : OpensAt branches h i)
    (hbefore : ∀ k < i, ¬ OpensAt branches h k) :
    firstOpen branches h = (some i, turnBranches (i + 1) branches h) := by
  induction branches generalizing h i with
  | nil => exact absurd hopen.lt_length (Nat.not_lt_zero i)
  | cons b rest ih =>
    unfold firstOpen turnBranches
    cases i with
    | zero =>
      have hb := opensAt_zero.1 hopen
      rcases hturn : b.isOpen h with ⟨isOpen, b', h'⟩
      rw [hturn] at hb
      obtain rfl : isOpen = true := hb
      rfl
    | succ i =>
      have hb := mt opensAt_zero.2 (hbefore 0 (Nat.succ_pos i))
      have hrest := opensAt_succ.1 hopen
      have hearlier : ∀ k < i, ¬ OpensAt rest (b.isOpen h).2.2 k := fun k hk =>
        mt opensAt_succ.2 (hbefore (k + 1) (Nat.succ_lt_succ hk))
      rcases hturn : b.isOpen h with ⟨isOpen, b', h'⟩
      rw [hturn] at hb hrest hearlier
      obtain rfl : isOpen = false := by simpa using hb
      dsimp only
      rw [ih hrest hearlier]
      rfl

/-- A search that finds no open branch has evaluated all of them. -/
theorem firstOpen_eq_none (hnone : ∀ k < branches.length, ¬ OpensAt branches h k) :
    firstOpen branches h = (none, turnBranches branches.length branches h) := by
  induction branches generalizing h with
  | nil => rfl
  | cons b rest ih =>
    have hb := mt opensAt_zero.2 (hnone 0 (Nat.succ_pos _))
    have hrest : ∀ k < rest.length, ¬ OpensAt rest (b.isOpen h).2.2 k := fun k hk =>
      mt opensAt_succ.2 (hnone (k + 1) (Nat.succ_lt_succ hk))
    unfold firstOpen
    rw [List.length_cons]
    unfold turnBranches
    rcases hturn : b.isOpen h with ⟨isOpen, b', h'⟩
    rw [hturn] at hb hrest
    obtain rfl : isOpen = false := by simpa using hb
    dsimp only
    rw [ih hrest]
    rfl

/-- Some branch is the first to be open, or none is open. -/
theorem first_or_none (branches : List (Branch T H K C)) (h : H) :
    (∃ i, OpensAt branches h i ∧ ∀ k < i, ¬ OpensAt branches h k) ∨
      ∀ k < branches.length, ¬ OpensAt branches h k := by
  by_cases hsome : ∃ i, OpensAt branches h i
  · classical
    exact Or.inl ⟨Nat.find hsome, Nat.find_spec hsome, fun k hk => Nat.find_min hsome hk⟩
  · exact Or.inr fun k _ hk => hsome ⟨k, hk⟩

end Evaluation

/-! ## What evaluating leaves as it is -/

section Headings

variable [Scalar T] [Host H T]

omit [Scalar T] in
theorem heading_startBranches (branches : List (Branch T H K C)) (h : H) :
    (startBranches branches h).1.map Branch.heading = branches.map Branch.heading := by
  induction branches generalizing h with
  | nil => rfl
  | cons b rest ih => exact congrArg (b.heading :: ·) (ih _)

theorem heading_turnBranches (k : Nat) (branches : List (Branch T H K C)) (h : H) :
    (turnBranches k branches h).1.map Branch.heading = branches.map Branch.heading := by
  induction branches generalizing k h with
  | nil => cases k <;> rfl
  | cons b rest ih =>
    cases k with
    | zero => rfl
    | succ k => exact congrArg (b.heading :: ·) (ih k _)

omit [Scalar T] [Host H T] in
theorem heading_finishBranches (branches : List (Branch T H K C)) (h : H) :
    (finishBranches branches h).1.map Branch.heading = branches.map Branch.heading := by
  induction branches generalizing h with
  | nil => rfl
  | cons b rest ih => exact congrArg (b.heading :: ·) (ih _)

omit [Scalar T] in
theorem heading_start (j : Junction T H K C) (h : H) :
    (j.start h).1.branches.map Branch.heading = j.branches.map Branch.heading := by
  unfold start
  split
  · exact heading_startBranches j.branches h
  · rfl

omit [Scalar T] [Host H T] in
theorem targets_of_heading {branches branches' : List (Branch T H K C)}
    (h : branches'.map Branch.heading = branches.map Branch.heading) :
    branches'.map (·.target) = branches.map (·.target) := by
  have htarget := congrArg (List.map fun x => x.2.2) h
  rw [List.map_map, List.map_map] at htarget
  exact htarget

omit [Scalar T] [Host H T] in
/-- Resolving at `i` resolves the target of that branch, and leaves all others as they are. -/
theorem resolveAt_eq [Builder K H C] {branches : List (Branch T H K C)} {i : Nat}
    {target : Target K C} (hi : (branches.map (·.target))[i]? = some target) (h : H) :
    (resolveAt branches i h).1 = (target.resolve h).1 ∧
      (resolveAt branches i h).2.2 = (target.resolve h).2.2 ∧
      (resolveAt branches i h).2.1.map (·.target) =
        (branches.map (·.target)).set i (target.resolve h).2.1 := by
  induction branches generalizing i with
  | nil => cases hi
  | cons b rest ih =>
    cases i with
    | zero =>
      cases hi
      exact ⟨rfl, rfl, rfl⟩
    | succ i =>
      obtain ⟨hnext, hhost, htargets⟩ := ih hi
      exact ⟨hnext, hhost, congrArg (b.target :: ·) htargets⟩

end Headings

/-! ## A step in full -/

variable [Scalar T] [Host H T]

omit [Scalar T] in
/-- A junction that is running has been started. -/
theorem start_of_running {j : Junction T H K C} (hrun : j.phase = .running) (h : H) :
    j.start h = (j, h) := by
  unfold start
  rw [hrun]

omit [Scalar T] in
/-- Starting changes nothing but the conditions and the phase. -/
theorem start_of_run {j : Junction T H K C} (hrun : j.phase = .notStarted ∨ j.phase = .running)
    (h : H) : (j.start h).1 = { j with branches := (j.start h).1.branches, phase := .running } := by
  rcases hrun with hphase | hphase
  · unfold start
    rw [hphase]
  · rw [start_of_running hphase]
    show j = { j with phase := .running }
    rw [← hphase]

variable [Builder K H C]

/-- A step that finds nothing open evaluates every branch once and goes on. -/
theorem step_of_none {j : Junction T H K C} (hrun : j.phase = .notStarted ∨ j.phase = .running)
    {h : H}
    (hnone : ∀ k < (j.start h).1.branches.length, ¬ OpensAt (j.start h).1.branches
      (runLogic Background.update j.logic (j.start h).2) k) :
    let opened := (j.start h).1.branches
    let turned := turnBranches opened.length opened
      (runLogic Background.update j.logic (j.start h).2)
    j.step h = (.suspend, { j with branches := turned.1, phase := .running, ticks := j.ticks + 1 },
      turned.2) := by
  intro opened turned
  have hstart := start_of_run hrun h
  have hchoose := choose_of_none (j := { j with branches := opened, phase := .running })
    (firstOpen_eq_none hnone)
  rw [step_eq_choose hrun, hstart]
  exact hchoose

/-- A step takes the first branch that is open. -/
theorem step_of_first {j : Junction T H K C} (hrun : j.phase = .notStarted ∨ j.phase = .running)
    {h : H} {i : Nat}
    (hopen : OpensAt (j.start h).1.branches (runLogic Background.update j.logic (j.start h).2) i)
    (hbefore : ∀ k < i, ¬ OpensAt (j.start h).1.branches
      (runLogic Background.update j.logic (j.start h).2) k) :
    let turned := turnBranches (i + 1) (j.start h).1.branches
      (runLogic Background.update j.logic (j.start h).2)
    j.step h = win { j with
      branches := turned.1, phase := .running, ticks := j.ticks + 1, taken := some i } i turned.2 := by
  intro turned
  have hstart := start_of_run hrun h
  have hchoose := choose_of_some
    (j := { j with branches := (j.start h).1.branches, phase := .running })
    (firstOpen_eq_some hopen hbefore)
  rw [step_eq_choose hrun, hstart]
  exact hchoose

/-! ## Along a run -/

/-- What a junction keeps of the logic and the branches that it was made with: all but the
conditions, until a branch is taken. -/
structure Kept (logic : List (Background H)) (branches : List (Branch T H K C))
    (j : Junction T H K C) : Prop where
  logic : j.logic = logic
  headings : j.phase ≠ .taken → j.branches.map Branch.heading = branches.map Branch.heading
  taken : j.taken.isSome ↔ j.phase = .taken

namespace Kept

variable {logic : List (Background H)} {branches : List (Branch T H K C)} {j : Junction T H K C}

omit [Scalar T] [Host H T] [Builder K H C] in
theorem ofBranches (name : String) (logic : List (Background H))
    (branches : List (Branch T H K C)) : Kept logic branches (ofBranches name logic branches) where
  logic := rfl
  headings _ := rfl
  taken := by simp [Junction.ofBranches]

omit [Scalar T] [Host H T] [Builder K H C] in
/-- A junction that is not over has taken nothing. -/
theorem taken_eq_none (h : Kept logic branches j) (hphase : j.phase ≠ .taken) :
    j.taken = none := by
  rw [← Option.not_isSome_iff_eq_none, h.taken]
  exact hphase

theorem step (h : Kept logic branches j) (h₀ : H) : Kept logic branches (j.step h₀).2.1 := by
  rcases j.phase_cases with hrun | hover
  · have hphase : j.phase ≠ .taken := by
      rcases hrun with hphase | hphase <;> simp [hphase]
    rcases first_or_none (j.start h₀).1.branches
      (runLogic Background.update j.logic (j.start h₀).2) with ⟨i, hopen, hbefore⟩ | hnone
    · rw [step_of_first hrun hopen hbefore]
      exact ⟨h.logic, fun hne => absurd rfl hne, ⟨fun _ => rfl, fun _ => rfl⟩⟩
    · rw [step_of_none hrun hnone]
      refine ⟨h.logic, fun _ => ?_, ?_⟩
      · exact ((heading_turnBranches _ _ _).trans (heading_start j h₀)).trans (h.headings hphase)
      · show j.taken.isSome ↔ _
        rw [h.taken_eq_none hphase]
        exact ⟨fun hsome => (nomatch hsome), fun htaken => nomatch htaken⟩
  · rw [step_of_over hover]
    exact h

omit [Scalar T] [Host H T] [Builder K H C] in
theorem abort (h : Kept logic branches j) (h₀ : H) : Kept logic branches (j.abort h₀).1 := by
  by_cases hrun : j.phase = .running
  · have hphase : j.phase ≠ .taken := by simp [hrun]
    rw [abort_of_running hrun]
    refine ⟨h.logic, fun _ => ?_, ?_⟩
    · exact (heading_finishBranches j.branches h₀).trans (h.headings hphase)
    · show j.taken.isSome ↔ _
      rw [h.taken_eq_none hphase]
      exact ⟨fun hsome => (nomatch hsome), fun htaken => nomatch htaken⟩
  · rw [abort_of_ne_running hrun]
    exact h

end Kept

/-- How many of the steps among these moves find the junction not over. -/
def liveSteps : List (Move H) → Junction T H K C → H → Nat
  | [], _, _ => 0
  | .step :: moves, j, h =>
    (if j.phase = .taken ∨ j.phase = .aborted then 0 else 1) +
      liveSteps moves (j.step h).2.1 (j.step h).2.2
  | .abort :: moves, j, h => liveSteps moves (j.abort h).1 (j.abort h).2
  | .outside f :: moves, j, h => liveSteps moves j (f h)

theorem ticks_step (j : Junction T H K C) (h : H) :
    (j.step h).2.1.ticks =
      j.ticks + if j.phase = .taken ∨ j.phase = .aborted then 0 else 1 := by
  rcases j.phase_cases with hrun | hover
  · have hlive : ¬ (j.phase = .taken ∨ j.phase = .aborted) := by
      rcases hrun with hphase | hphase <;> simp [hphase]
    rw [if_neg hlive]
    rcases first_or_none (j.start h).1.branches
      (runLogic Background.update j.logic (j.start h).2) with ⟨i, hopen, hbefore⟩ | hnone
    · rw [step_of_first hrun hopen hbefore]
      rfl
    · rw [step_of_none hrun hnone]
  · rw [if_pos hover, step_of_over hover]
    rfl

omit [Scalar T] [Host H T] [Builder K H C] in
theorem ticks_abort (j : Junction T H K C) (h : H) : (j.abort h).1.ticks = j.ticks := by
  unfold abort
  split <;> rfl

/-- A junction counts the steps that it makes. -/
theorem ticks_play (moves : List (Move H)) (j : Junction T H K C) (h : H) :
    (play moves j h).1.ticks = j.ticks + liveSteps moves j h := by
  induction moves generalizing j h with
  | nil => rfl
  | cons move moves ih =>
    cases move with
    | step =>
      have hrest := ih (j.step h).2.1 (j.step h).2.2
      rw [ticks_step] at hrest
      rw [liveSteps, ← Nat.add_assoc]
      exact hrest
    | abort =>
      have hrest := ih (j.abort h).1 (j.abort h).2
      rw [ticks_abort] at hrest
      exact hrest
    | outside f => exact ih j (f h)

/-- What a step does to the junction and its host. -/
theorem Kept.outcome {logic : List (Background H)} {branches : List (Branch T H K C)}
    {j : Junction T H K C} (hkept : Kept logic branches j)
    (hrun : j.phase = .notStarted ∨ j.phase = .running) (h : H) :
    let opened := (j.start h).1.branches
    let updated := runLogic Background.update j.logic (j.start h).2
    (∃ i b, branches[i]? = some b ∧ OpensAt opened updated i ∧
        (∀ k < i, ¬ OpensAt opened updated k) ∧
        let turned := turnBranches (i + 1) opened updated
        let closed := finishBranches turned.1 turned.2
        let left := runLogic Background.finish j.logic closed.2
        (j.step h).1 = .done (b.target.resolve left).1 ∧
        (j.step h).2.2 = (b.target.resolve left).2.2 ∧
        (j.step h).2.1.branches.map (·.target) =
          (branches.map (·.target)).set i (b.target.resolve left).2.1 ∧
        (j.step h).2.1.taken = some i ∧ (j.step h).2.1.phase = .taken) ∨
      ((∀ k < branches.length, ¬ OpensAt opened updated k) ∧ (j.step h).1 = .suspend ∧
        ((j.step h).2.1.branches, (j.step h).2.2) =
          turnBranches branches.length opened updated ∧
        (j.step h).2.1.taken = none ∧ (j.step h).2.1.phase = .running) := by
  intro opened updated
  have hphase : j.phase ≠ .taken := by
    rcases hrun with hphase | hphase <;> simp [hphase]
  have hopened : opened.map Branch.heading = branches.map Branch.heading :=
    (heading_start j h).trans (hkept.headings hphase)
  have hlength : opened.length = branches.length := by
    have := congrArg List.length hopened
    rwa [List.length_map, List.length_map] at this
  rcases first_or_none opened updated with ⟨i, hopen, hbefore⟩ | hnone
  · have hi : i < branches.length := by
      rw [← hlength]
      exact hopen.lt_length
    let turned := turnBranches (i + 1) opened updated
    let closed := finishBranches turned.1 turned.2
    let left := runLogic Background.finish j.logic closed.2
    -- the target of the winner has come through evaluation and closing as it was
    have htargets : closed.1.map (·.target) = branches.map (·.target) :=
      targets_of_heading (((heading_finishBranches _ _).trans
        (heading_turnBranches _ _ _)).trans hopened)
    have htarget : (closed.1.map (·.target))[i]? = some branches[i].target := by
      rw [htargets, List.getElem?_map, List.getElem?_eq_getElem hi]
      rfl
    obtain ⟨hnext, hhost, hresolved⟩ := resolveAt_eq htarget left
    refine Or.inl ⟨i, branches[i], List.getElem?_eq_getElem hi, hopen, hbefore, ?_⟩
    dsimp only
    rw [step_of_first hrun hopen hbefore, ← htargets]
    exact ⟨congrArg StepResult.done hnext, hhost, hresolved, rfl, rfl⟩
  · refine Or.inr ⟨by rwa [hlength] at hnone, ?_⟩
    rw [step_of_none hrun hnone, ← hlength]
    exact ⟨rfl, rfl, hkept.taken_eq_none hphase, rfl⟩

omit [Scalar T] [Host H T] [Builder K H C] in
/-- The calls of a step that takes branch `i`. -/
theorem Stepped.log_of_taken {j j' : Junction T H K C} {log : List (Call T)} {ends : Bool}
    (hstep : Stepped j log ends j') (hphase : j'.phase = .taken) {i : Nat}
    (htaken : j'.taken = some i) :
    ∃ trail, (trail = [] ∨ trail = [.resolve]) ∧
      log = j.opening ++ (j.turns (i + 1) ++ (j.closing ++ trail)) := by
  cases hstep with
  | waiting _ hrunning _ => exact nomatch hphase.symm.trans hrunning
  | taken _ _ _ htaken' htrail =>
    obtain rfl := Option.some.inj (htaken'.symm.trans htaken)
    exact ⟨_, htrail, rfl⟩

omit [Scalar T] [Host H T] [Builder K H C] in
/-- The calls of a step that takes no branch. -/
theorem Stepped.log_of_running {j j' : Junction T H K C} {log : List (Call T)} {ends : Bool}
    (hstep : Stepped j log ends j') (hphase : j'.phase = .running) :
    log = j.opening ++ j.turns j.branches.length := by
  cases hstep with
  | waiting _ _ _ => rfl
  | taken _ _ htaken _ _ => exact nomatch hphase.symm.trans htaken

theorem kept_play (name : String) (logic : List (Background H)) (branches : List (Branch T H K C))
    (moves : List (Move H)) (h : H) :
    Kept logic branches (play moves (ofBranches name logic branches) h).1 :=
  Move.run_keeps (fun _ h hkept => hkept.step h) (fun _ h hkept => hkept.abort h) moves
    (Kept.ofBranches name logic branches) h

/-- A step after a run adds the calls that `Stepped` allows to those of the run. -/
theorem step_noted (name : String) (logic : List (Background H)) (branches : List (Branch T H K C))
    (moves : List (Move H)) (h : H)
    (hrun : (play moves (ofBranches name logic branches) h).1.phase = .notStarted ∨
      (play moves (ofBranches name logic branches) h).1.phase = .running) :
    let played := play moves (ofBranches name logic branches) h
    let noted := play (moves.map Move.journaled) ((ofBranches name logic branches).recorded id)
      (⟨h, []⟩ : Journaled (Call T) H)
    let plain := played.1.step played.2
    let next := noted.1.step noted.2
    (next.1 = plain.1 ∧ next.2.1 = plain.2.1.recorded id ∧ next.2.2.host = plain.2.2) ∧
    ∃ log, next.2.2.journal = noted.2.journal ++ log ∧
      Stepped played.1 log plain.1.isDone plain.2.1 := by
  intro played noted plain next
  obtain ⟨calls, hnoted, -⟩ := play_recorded (id : Call T → Call T)
    (I := Accounts (sites branches) logic) (fun hrun h hstep => h.stepped hrun hstep)
    (fun hrun h hshape hphase _ => h.aborted hrun hshape hphase) moves
    (Accounts.ofBranches name logic branches) (⟨h, []⟩ : Journaled (Call T) H)
  have hnoted : noted = (played.1.recorded id, ⟨played.2, calls⟩) := by
    rw [List.nil_append, List.map_id] at hnoted
    exact hnoted
  obtain ⟨log, hrec, hstep⟩ := step_recorded (id : Call T → Call T) hrun ⟨played.2, calls⟩
  have hnext : next = (plain.1, plain.2.1.recorded id, ⟨plain.2.2, calls ++ log⟩) := by
    rw [List.map_id] at hrec
    show noted.1.step noted.2 = _
    rw [hnoted]
    exact hrec
  rw [hnext, hnoted]
  exact ⟨⟨rfl, rfl, rfl⟩, log, rfl, hstep⟩

/-- Along every run of a junction that was just made, a step that finds it not over: `opened`
are its branches with their sessions open, and `updated` is the host after the round of the
logic. Either there is a first branch that is open; then the step evaluates the branches up to
it, each on the host that the one before it left, takes it, closes everything and resolves its
target, and no other, on the host that is left. Or there is none; then the step evaluates all
branches and suspends. The calls of the step are the opening if it is due, the logic, the
branches evaluated, and in the first case the closing and then at most a resolution.

At every time a branch has been taken exactly if the phase says so, and the ticks are the steps
that found the junction not over. -/
theorem first_open_branch_wins (name : String) (logic : List (Background H))
    (branches : List (Branch T H K C)) (moves : List (Move H)) (h : H) :
    let made := ofBranches name logic branches
    let played := play moves made h
    let noted := play (moves.map Move.journaled) (made.recorded id)
      (⟨h, []⟩ : Journaled (Call T) H)
    let plain := played.1.step played.2
    let next := noted.1.step noted.2
    let opened := (played.1.start played.2).1.branches
    let updated := runLogic Background.update logic (played.1.start played.2).2
    (played.1.phase = .notStarted ∨ played.1.phase = .running →
      (next.1 = plain.1 ∧ next.2.1 = plain.2.1.recorded id ∧ next.2.2.host = plain.2.2) ∧
      opened.map Branch.heading = branches.map Branch.heading ∧
      ((∃ i b, branches[i]? = some b ∧ OpensAt opened updated i ∧
          (∀ k < i, ¬ OpensAt opened updated k) ∧
          let turned := turnBranches (i + 1) opened updated
          let closed := finishBranches turned.1 turned.2
          let left := runLogic Background.finish logic closed.2
          plain.1 = .done (b.target.resolve left).1 ∧ plain.2.2 = (b.target.resolve left).2.2 ∧
          plain.2.1.branches.map (·.target) =
            (branches.map (·.target)).set i (b.target.resolve left).2.1 ∧
          plain.2.1.taken = some i ∧ plain.2.1.phase = .taken ∧
          ∃ trail, (trail = [] ∨ trail = [.resolve]) ∧ next.2.2.journal = noted.2.journal ++
            (played.1.opening ++ (played.1.turns (i + 1) ++ (played.1.closing ++ trail)))) ∨
        ((∀ k < branches.length, ¬ OpensAt opened updated k) ∧
          plain.1 = .suspend ∧
          (plain.2.1.branches, plain.2.2) = turnBranches branches.length opened updated ∧
          plain.2.1.taken = none ∧ plain.2.1.phase = .running ∧
          next.2.2.journal = noted.2.journal ++
            (played.1.opening ++ played.1.turns branches.length)))) ∧
    (played.1.taken.isSome ↔ played.1.phase = .taken) ∧
    played.1.ticks = liveSteps moves made h := by
  intro made played noted plain next opened updated
  have hkept : Kept logic branches played.1 := kept_play name logic branches moves h
  refine ⟨fun hrun => ?_, hkept.taken, ?_⟩
  · have hphase : played.1.phase ≠ .taken := by
      rcases hrun with hphase | hphase <;> simp [hphase]
    have hheadings := hkept.headings hphase
    have hlength : played.1.branches.length = branches.length := by
      have := congrArg List.length hheadings
      rwa [List.length_map, List.length_map] at this
    obtain ⟨hsame, log, hjournal, hstep⟩ := step_noted name logic branches moves h hrun
    have houtcome := hkept.outcome hrun played.2
    rw [hkept.logic] at houtcome
    refine ⟨hsame, (heading_start played.1 played.2).trans hheadings, ?_⟩
    rw [hjournal]
    rcases houtcome with ⟨i, b, hb, hopen, hbefore, hdone, hhost, htargets, htaken, hover⟩ |
      ⟨hnone, hsuspend, hturned, htaken, hrunning⟩
    · obtain ⟨trail, htrail, hlog⟩ := hstep.log_of_taken hover htaken
      refine Or.inl ⟨i, b, hb, hopen, hbefore, hdone, hhost, htargets, htaken, hover, trail,
        htrail, ?_⟩
      rw [hlog]
    · refine Or.inr ⟨hnone, hsuspend, hturned, htaken, hrunning, ?_⟩
      rw [hstep.log_of_running hrunning, hlength]
  · have hticks := ticks_play moves made h
    rwa [show made.ticks = 0 from rfl, Nat.zero_add] at hticks

end Junction

end Cueflow
