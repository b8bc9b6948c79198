import Cueflow.Choice.Junction
import Cueflow.Proofs.Choice.Places
/-!
# Recorded junctions

What a junction's callbacks are, step by step and along a run.

> `step_recorded`: the recorded step is the plain step with a list of calls added to the
> journal, and that list is one of the two that `Stepped` allows.

The calls of a step are put together from `visits`, which calls every node of every branch's
condition in order, and `rounds`, which calls every piece of logic in order. `Stepped` says
how: the opening if there was none, a round of the logic, a visit of the branches up to the
winner, and, if there is one, the closing of every branch and all logic and then the trail of
the winner's target. The places in the trees of the conditions do not change, so the lists
are the same at every step.
-/

namespace Cueflow

variable {T H K C E : Type}

/-! ## Lifting branches and logic -/

/-- The branch with index `i` on a host with a journal. -/
def Branch.recorded (mark : Call T → E) (i : Nat) (b : Branch T H K C) :
    Branch T (Journaled E H) (Noted E K) C where
  label := b.label
  invert := b.invert
  condition := b.condition.recorded (fun path call => mark (.condition i path call)) []
  target := b.target.recorded (mark .resolve)

/-- The branches from place `n` on, each noting calls under its index. -/
def recordBranches (mark : Call T → E) (n : Nat) (branches : List (Branch T H K C)) :
    List (Branch T (Journaled E H) (Noted E K) C) :=
  (branches.zipIdx n).map fun x => x.1.recorded mark x.2

theorem recordBranches_cons (mark : Call T → E) (n : Nat) (b : Branch T H K C)
    (rest : List (Branch T H K C)) :
    recordBranches mark n (b :: rest) = b.recorded mark n :: recordBranches mark (n + 1) rest :=
  rfl

/-- The logic on a host with a journal. -/
def Background.recorded (mark : SessionCall → E) (l : Background H) :
    Background (Journaled E H) where
  start s := (s.act l.start).note [mark .start]
  update s := (s.act l.update).note [mark .turn]
  finish s := (s.act l.finish).note [mark .finish]

/-- The logic from place `n` on, each piece noting calls under its index. -/
def recordLogic (mark : Call T → E) (n : Nat) (logic : List (Background H)) :
    List (Background (Journaled E H)) :=
  (logic.zipIdx n).map fun x => x.1.recorded fun call => mark (.logic x.2 call)

namespace Junction

/-- The junction on a host with a journal. -/
def recorded (mark : Call T → E) (j : Junction T H K C) :
    Junction T (Journaled E H) (Noted E K) C where
  name := j.name
  branches := recordBranches mark 0 j.branches
  logic := recordLogic mark 0 j.logic
  phase := j.phase
  taken := j.taken
  ticks := j.ticks

@[simp] theorem phase_recorded (mark : Call T → E) (j : Junction T H K C) :
    (j.recorded mark).phase = j.phase := rfl

/-! ## What a junction calls -/

/-- The places in the trees of the branches' conditions. -/
def sites (branches : List (Branch T H K C)) : List (List (List Nat)) :=
  branches.map fun b => b.condition.paths []

/-- A call to every node of the conditions at these sites, the first of which belongs to
branch `n`, in order. -/
def visits (call : SessionCall) (n : Nat) (sites : List (List (List Nat))) : List (Call T) :=
  (sites.zipIdx n).flatMap fun x => x.1.map fun path => .condition x.2 path call

theorem visits_cons (call : SessionCall) (n : Nat) (places : List (List Nat))
    (rest : List (List (List Nat))) :
    (visits call n (places :: rest) : List (Call T)) =
      (places.map fun path => .condition n path call) ++ visits call (n + 1) rest := rfl

/-- A call to every piece of logic, the first of which is `n`, in order. -/
def rounds (call : SessionCall) (n count : Nat) : List (Call T) :=
  (List.range' n count).map fun i => .logic i call

/-- What resolving the target of the branch with this index notes. -/
def trailAt (branches : List (Branch T H K C)) (i : Nat) : List (Call T) :=
  match branches[i]? with
  | none => []
  | some b => b.target.trail .resolve

/-- The calls that open the sessions and start the logic. -/
def opening (j : Junction T H K C) : List (Call T) :=
  match j.phase with
  | .notStarted => visits .start 0 (sites j.branches) ++ rounds .start 0 j.logic.length
  | .running | .taken | .aborted => []

/-- The calls that close the sessions and finish the logic. -/
def closing (j : Junction T H K C) : List (Call T) :=
  visits .finish 0 (sites j.branches) ++ rounds .finish 0 j.logic.length

/-- The calls of a step that evaluates the first `k` branches: a round of the logic, and
then the branches. -/
def turns (j : Junction T H K C) (k : Nat) : List (Call T) :=
  rounds .turn 0 j.logic.length ++ visits .turn 0 ((sites j.branches).take k)

/-- Two junctions with the same places and the same logic. -/
structure SameShape (j j' : Junction T H K C) : Prop where
  sites : sites j'.branches = sites j.branches
  logic : j'.logic = j.logic

/-- What a step of a junction that is not over can do. -/
inductive Stepped (j : Junction T H K C) :
    (log : List (Call T)) → (ends : Bool) → Junction T H K C → Prop where
  | waiting {j' : Junction T H K C} : SameShape j j' → j'.phase = .running →
      j'.taken = j.taken → Stepped j (j.opening ++ j.turns j.branches.length) false j'
  | taken {i : Nat} {j' : Junction T H K C} {trail : List (Call T)} : SameShape j j' →
      i < j.branches.length → j'.phase = .taken → j'.taken = some i →
      trail = [] ∨ trail = [.resolve] →
      Stepped j (j.opening ++ (j.turns (i + 1) ++ (j.closing ++ trail))) true j'

/-! ## The parts of a recorded step -/

/-- A recorded round of the logic is the plain one, and notes a call of every piece. -/
theorem runLogic_recorded (mark : Call T → E) (call : SessionCall)
    {plain : Background H → H → H}
    {lifted : Background (Journaled E H) → Journaled E H → Journaled E H}
    (hlift : ∀ (mark : SessionCall → E) (l : Background H) (s : Journaled E H),
      lifted (l.recorded mark) s = ⟨plain l s.host, s.journal ++ [mark call]⟩)
    (n : Nat) (logic : List (Background H)) (s : Journaled E H) :
    runLogic lifted (recordLogic mark n logic) s =
      ⟨runLogic plain logic s.host, s.journal ++ (rounds call n logic.length).map mark⟩ := by
  induction logic generalizing n s with
  | nil => simp [runLogic, recordLogic, rounds]
  | cons l rest ih =>
    have hcons : runLogic lifted (recordLogic mark n (l :: rest)) s =
        runLogic lifted (recordLogic mark (n + 1) rest)
          (lifted (l.recorded fun call => mark (.logic n call)) s) := rfl
    rw [hcons, hlift, ih]
    simp [runLogic, rounds, List.range'_succ]

theorem startLogic_recorded (mark : Call T → E) (n : Nat) (logic : List (Background H))
    (s : Journaled E H) :
    runLogic Background.start (recordLogic mark n logic) s =
      ⟨runLogic Background.start logic s.host,
        s.journal ++ (rounds .start n logic.length).map mark⟩ :=
  runLogic_recorded mark .start (fun _ _ _ => rfl) n logic s

theorem updateLogic_recorded (mark : Call T → E) (n : Nat) (logic : List (Background H))
    (s : Journaled E H) :
    runLogic Background.update (recordLogic mark n logic) s =
      ⟨runLogic Background.update logic s.host,
        s.journal ++ (rounds .turn n logic.length).map mark⟩ :=
  runLogic_recorded mark .turn (fun _ _ _ => rfl) n logic s

theorem finishLogic_recorded (mark : Call T → E) (n : Nat) (logic : List (Background H))
    (s : Journaled E H) :
    runLogic Background.finish (recordLogic mark n logic) s =
      ⟨runLogic Background.finish logic s.host,
        s.journal ++ (rounds .finish n logic.length).map mark⟩ :=
  runLogic_recorded mark .finish (fun _ _ _ => rfl) n logic s

variable [Scalar T] [Host H T]

omit [Scalar T] in
theorem startBranches_recorded (mark : Call T → E) (n : Nat)
    (branches : List (Branch T H K C)) (s : Journaled E H) :
    startBranches (recordBranches mark n branches) s =
      (recordBranches mark n (startBranches branches s.host).1,
        ⟨(startBranches branches s.host).2,
          s.journal ++ (visits .start n (sites branches)).map mark⟩) := by
  induction branches generalizing n s with
  | nil => simp [startBranches, recordBranches, visits, sites]
  | cons b rest ih =>
    simp only [recordBranches_cons, startBranches, Branch.start, Branch.recorded,
      Condition.start_recorded, ih]
    simp [sites, visits_cons, Condition.visit, Function.comp_def]

omit [Scalar T] [Host H T] in
theorem finishBranches_recorded (mark : Call T → E) (n : Nat)
    (branches : List (Branch T H K C)) (s : Journaled E H) :
    finishBranches (recordBranches mark n branches) s =
      (recordBranches mark n (finishBranches branches s.host).1,
        ⟨(finishBranches branches s.host).2,
          s.journal ++ (visits .finish n (sites branches)).map mark⟩) := by
  induction branches generalizing n s with
  | nil => simp [finishBranches, recordBranches, visits, sites]
  | cons b rest ih =>
    simp only [recordBranches_cons, finishBranches, Branch.finish, Branch.recorded,
      Condition.finish_recorded, ih]
    simp [sites, visits_cons, Condition.visit, Function.comp_def]

/-- How many branches are evaluated to find this winner among `count`. -/
def evaluated (found : Option Nat) (count : Nat) : Nat :=
  match found with
  | none => count
  | some i => i + 1

theorem firstOpen_recorded (mark : Call T → E) (n : Nat)
    (branches : List (Branch T H K C)) (s : Journaled E H) :
    firstOpen (recordBranches mark n branches) s =
      ((firstOpen branches s.host).1, recordBranches mark n (firstOpen branches s.host).2.1,
        ⟨(firstOpen branches s.host).2.2,
          s.journal ++ (visits .turn n ((sites branches).take
            (evaluated (firstOpen branches s.host).1 branches.length))).map mark⟩) := by
  induction branches generalizing n s with
  | nil => simp [firstOpen, recordBranches, visits, sites]
  | cons b rest ih =>
    have hopen : (b.recorded mark n).isOpen s =
        ((b.isOpen s.host).1, (b.isOpen s.host).2.1.recorded mark n,
          ⟨(b.isOpen s.host).2.2, s.journal ++
            ((b.condition.paths []).map fun path => mark (.condition n path .turn))⟩) := by
      simp only [Branch.isOpen, Branch.recorded, Condition.isMet_recorded]
      rfl
    rw [recordBranches_cons]
    unfold firstOpen
    rw [hopen]
    rcases hb : b.isOpen s.host with ⟨isOpen, b', h⟩
    -- the branches after an open one are not evaluated
    cases isOpen with
    | true => simp [evaluated, sites, visits, recordBranches_cons, Function.comp_def]
    | false =>
      simp only [ih]
      rcases hrest : firstOpen rest h with ⟨found, rest', h'⟩
      cases found with
      | none => simp [evaluated, sites, visits_cons, recordBranches_cons, Function.comp_def]
      | some i => simp [evaluated, sites, visits_cons, recordBranches_cons, Function.comp_def]

omit [Scalar T] [Host H T] in
/-- Recorded resolving is the plain one, and leaves the trail of the target. -/
theorem resolveAt_recorded [Builder K H C] (mark : Call T → E) (n : Nat)
    (branches : List (Branch T H K C)) (i : Nat) (s : Journaled E H) :
    resolveAt (recordBranches mark n branches) i s =
      ((resolveAt branches i s.host).1, recordBranches mark n (resolveAt branches i s.host).2.1,
        ⟨(resolveAt branches i s.host).2.2, s.journal ++ (trailAt branches i).map mark⟩) := by
  induction branches generalizing n i with
  | nil => simp [resolveAt, recordBranches, trailAt]
  | cons b rest ih =>
    rw [recordBranches_cons]
    cases i with
    | zero =>
      have hresolve : (b.recorded mark n).target.resolve s = _ :=
        b.target.resolve_recorded (mark .resolve) s
      simp only [resolveAt, hresolve, trailAt, List.getElem?_cons_zero, Target.map_trail]
      rfl
    | succ i =>
      simp only [resolveAt, ih, trailAt, List.getElem?_cons_succ]
      rfl

/-! ## What a step keeps -/

omit [Scalar T] in
theorem sites_startBranches (branches : List (Branch T H K C)) (h : H) :
    sites (startBranches branches h).1 = sites branches := by
  induction branches generalizing h with
  | nil => rfl
  | cons b rest ih =>
    simp only [startBranches, Branch.start, sites, List.map_cons, Condition.paths_start]
    exact congrArg (b.condition.paths [] :: ·) (ih _)

omit [Scalar T] [Host H T] in
theorem sites_finishBranches (branches : List (Branch T H K C)) (h : H) :
    sites (finishBranches branches h).1 = sites branches := by
  induction branches generalizing h with
  | nil => rfl
  | cons b rest ih =>
    simp only [finishBranches, Branch.finish, sites, List.map_cons, Condition.paths_finish]
    exact congrArg (b.condition.paths [] :: ·) (ih _)

theorem sites_firstOpen (branches : List (Branch T H K C)) (h : H) :
    sites (firstOpen branches h).2.1 = sites branches := by
  induction branches generalizing h with
  | nil => rfl
  | cons b rest ih =>
    have hopen : (b.isOpen h).2.1.condition.paths [] = b.condition.paths [] :=
      Condition.paths_isMet [] b.condition h
    unfold firstOpen
    rcases hb : b.isOpen h with ⟨isOpen, b', h'⟩
    rw [hb] at hopen
    cases isOpen with
    | true => exact congrArg (· :: sites rest) hopen
    | false =>
      show b'.condition.paths [] :: sites (firstOpen rest h').2.1 = _
      rw [ih h']
      exact congrArg (· :: sites rest) hopen

omit [Scalar T] [Host H T] in
theorem sites_resolveAt [Builder K H C] (branches : List (Branch T H K C)) (i : Nat) (h : H) :
    sites (resolveAt branches i h).2.1 = sites branches := by
  induction branches generalizing i with
  | nil => rfl
  | cons b rest ih =>
    cases i with
    | zero => rfl
    | succ i => exact congrArg (b.condition.paths [] :: ·) (ih i)

omit [Scalar T] [Host H T] in
/-- A trail is a resolution or nothing. -/
theorem trailAt_cases (branches : List (Branch T H K C)) (i : Nat) :
    trailAt branches i = [] ∨ trailAt branches i = [(.resolve : Call T)] := by
  unfold trailAt
  split
  · exact Or.inl rfl
  · next b _ => exact b.target.trail_cases _

/-! ## Recorded steps and aborts -/

omit [Scalar T] in
/-- The recorded start is the plain one with the opening noted. -/
theorem start_recorded (mark : Call T → E) (j : Junction T H K C) (s : Journaled E H) :
    (j.recorded mark).start s =
      ((j.start s.host).1.recorded mark,
        ⟨(j.start s.host).2, s.journal ++ j.opening.map mark⟩) := by
  unfold start opening
  rw [phase_recorded]
  cases hphase : j.phase with
  | notStarted =>
    dsimp only
    rw [show (j.recorded mark).branches = recordBranches mark 0 j.branches from rfl,
      show (j.recorded mark).logic = recordLogic mark 0 j.logic from rfl,
      startBranches_recorded]
    dsimp only
    rw [startLogic_recorded]
    simp only [List.map_append, List.append_assoc]
    rfl
  | running => simp
  | taken => simp
  | aborted => simp

omit [Scalar T] [Host H T] in
/-- The recorded close is the plain one with the closing noted. -/
theorem close_recorded (mark : Call T → E) (j : Junction T H K C) (phase : JunctionPhase)
    (s : Journaled E H) :
    (j.recorded mark).close phase s =
      ((j.close phase s.host).1.recorded mark,
        ⟨(j.close phase s.host).2, s.journal ++ j.closing.map mark⟩) := by
  unfold close closing
  rw [show (j.recorded mark).branches = recordBranches mark 0 j.branches from rfl,
    show (j.recorded mark).logic = recordLogic mark 0 j.logic from rfl,
    finishBranches_recorded]
  dsimp only
  rw [finishLogic_recorded]
  simp only [List.map_append, List.append_assoc]
  rfl

omit [Scalar T] in
theorem sameShape_start (j : Junction T H K C) (h : H) : SameShape j (j.start h).1 := by
  unfold start
  split
  · exact ⟨sites_startBranches j.branches h, rfl⟩
  · exact ⟨rfl, rfl⟩

omit [Scalar T] [Host H T] in
theorem sameShape_close (j : Junction T H K C) (phase : JunctionPhase) (h : H) :
    SameShape j (j.close phase h).1 := ⟨sites_finishBranches j.branches h, rfl⟩

omit [Scalar T] [Host H T] in
theorem SameShape.closing {j j' : Junction T H K C} (h : SameShape j j') :
    j'.closing = j.closing := by
  unfold Junction.closing
  rw [h.sites, h.logic]

omit [Scalar T] [Host H T] in
theorem SameShape.trans {j j' j'' : Junction T H K C} (h : SameShape j j')
    (h' : SameShape j' j'') : SameShape j j'' :=
  ⟨h'.sites.trans h.sites, h'.logic.trans h.logic⟩

omit [Scalar T] [Host H T] in
theorem SameShape.turns {j j' : Junction T H K C} (h : SameShape j j') (k : Nat) :
    j'.turns k = j.turns k := by
  unfold Junction.turns
  rw [h.sites, h.logic]

omit [Scalar T] [Host H T] in
theorem SameShape.length {j j' : Junction T H K C} (h : SameShape j j') :
    j'.branches.length = j.branches.length := by
  have := congrArg List.length h.sites
  rw [Junction.sites, Junction.sites, List.length_map, List.length_map] at this
  exact this

/-- The end of a step that takes branch `i`: closes everything and resolves the target. -/
def win [Builder K H C] (j : Junction T H K C) (i : Nat) (h : H) :
    StepResult C × Junction T H K C × H :=
  let (j, h) := j.close .taken h
  let (next, branches, h) := resolveAt j.branches i h
  (.done next, { j with branches }, h)

theorem choose_of_none [Builder K H C] {j : Junction T H K C} {h h' : H}
    {branches : List (Branch T H K C)}
    (hfirst : firstOpen j.branches (runLogic Background.update j.logic h) =
      (none, branches, h')) :
    j.choose h = (.suspend, { j with branches, ticks := j.ticks + 1 }, h') := by
  unfold choose
  dsimp only
  rw [hfirst]

theorem choose_of_some [Builder K H C] {j : Junction T H K C} {h h' : H} {i : Nat}
    {branches : List (Branch T H K C)}
    (hfirst : firstOpen j.branches (runLogic Background.update j.logic h) =
      (some i, branches, h')) :
    j.choose h = win { j with branches, ticks := j.ticks + 1, taken := some i } i h' := by
  unfold choose
  dsimp only
  rw [hfirst]
  rfl

omit [Scalar T] [Host H T] in
/-- The recorded end of a step is the plain one, with the closing and then the trail of the
winner noted. -/
theorem win_recorded [Builder K H C] (mark : Call T → E) (j : Junction T H K C) (i : Nat)
    (s : Journaled E H) :
    ∃ trail : List (Call T), (trail = [] ∨ trail = [.resolve]) ∧
      (j.recorded mark).win i s =
        ((j.win i s.host).1, (j.win i s.host).2.1.recorded mark,
          ⟨(j.win i s.host).2.2, s.journal ++ (j.closing ++ trail).map mark⟩) ∧
      (j.win i s.host).1.isDone = true ∧ SameShape j (j.win i s.host).2.1 ∧
      (j.win i s.host).2.1.phase = .taken ∧ (j.win i s.host).2.1.taken = j.taken := by
  have hclose := close_recorded mark j .taken s
  have hshape := sameShape_close j .taken s.host
  unfold win
  rw [hclose]
  rcases hplain : j.close .taken s.host with ⟨j', h⟩
  rw [hplain] at hshape
  have hphase : j'.phase = .taken := (congrArg (fun x => x.1.phase) hplain).symm
  have htaken : j'.taken = j.taken := (congrArg (fun x => x.1.taken) hplain).symm
  have hresolve := resolveAt_recorded mark 0 j'.branches i ⟨h, s.journal ++ j.closing.map mark⟩
  refine ⟨trailAt j'.branches i, trailAt_cases _ _, ?_, rfl,
    hshape.trans ⟨sites_resolveAt j'.branches i h, rfl⟩, hphase, htaken⟩
  dsimp only
  rw [show (j'.recorded mark).branches = recordBranches mark 0 j'.branches from rfl, hresolve]
  simp only [List.map_append, List.append_assoc]
  rfl

/-- The recorded rest of a step is the plain one with a log. Together with the opening it
is what `Stepped` allows the junction that was started. -/
theorem choose_recorded [Builder K H C] (mark : Call T → E) {j₀ j : Junction T H K C}
    (hshape : SameShape j₀ j) (hphase : j.phase = .running) (htaken : j.taken = j₀.taken)
    (s : Journaled E H) :
    ∃ log,
      (j.recorded mark).choose s =
        ((j.choose s.host).1, (j.choose s.host).2.1.recorded mark,
          ⟨(j.choose s.host).2.2, s.journal ++ log.map mark⟩) ∧
      Stepped j₀ (j₀.opening ++ log) (j.choose s.host).1.isDone (j.choose s.host).2.1 := by
  -- the logic comes first, then the branches on the host that it leaves
  have hrec := (congrArg (firstOpen (recordBranches mark 0 j.branches))
    (updateLogic_recorded mark 0 j.logic s)).trans (firstOpen_recorded mark 0 j.branches _)
  dsimp only at hrec
  have hsites := sites_firstOpen j.branches (runLogic Background.update j.logic s.host)
  have hfound : ∀ i, (firstOpen j.branches (runLogic Background.update j.logic s.host)).1 =
      some i → i < j.branches.length := fun i => firstOpen_lt
  rcases hfirst : firstOpen j.branches (runLogic Background.update j.logic s.host) with
    ⟨found, branches, h⟩
  rw [hfirst] at hsites hrec hfound
  have hsites : sites branches = sites j.branches := hsites
  cases found with
  | none =>
    rw [choose_of_none hfirst, choose_of_none (j := j.recorded mark) hrec]
    refine ⟨j₀.turns j₀.branches.length, ?_,
      .waiting (hshape.trans ⟨hsites, rfl⟩) hphase htaken⟩
    rw [← hshape.turns, ← hshape.length]
    simp only [turns, evaluated, List.map_append, List.append_assoc]
    rfl
  | some i =>
    rw [choose_of_some hfirst, choose_of_some (j := j.recorded mark) hrec]
    -- the closing does not depend on what evaluating did to the conditions
    let j' : Junction T H K C := { j with branches, ticks := j.ticks + 1, taken := some i }
    have hshape' : SameShape j₀ j' := hshape.trans ⟨hsites, rfl⟩
    obtain ⟨trail, htrail, hwin, hdone, hkept, hphase', htaken'⟩ := win_recorded mark j' i
      ⟨h, s.journal ++ (rounds .turn 0 j.logic.length).map mark ++
        (visits .turn 0 ((sites j.branches).take (i + 1))).map mark⟩
    rw [hshape'.closing] at hwin
    have hi : i < j₀.branches.length := by
      rw [← hshape.length]
      exact hfound i rfl
    refine ⟨j₀.turns (i + 1) ++ (j₀.closing ++ trail), ?_, ?_⟩
    · refine hwin.trans ?_
      rw [← hshape.turns]
      simp only [turns, List.map_append, List.append_assoc]
      rfl
    · rw [hdone]
      exact .taken (hshape'.trans hkept) hi hphase' htaken' htrail

omit [Scalar T] [Host H T] in
/-- A junction is over or can still do something. -/
theorem phase_cases (j : Junction T H K C) :
    (j.phase = .notStarted ∨ j.phase = .running) ∨ j.phase = .taken ∨ j.phase = .aborted := by
  cases j.phase <;> simp

/-- A step of a junction that is not over starts it and chooses. -/
theorem step_eq_choose [Builder K H C] {j : Junction T H K C}
    (hrun : j.phase = .notStarted ∨ j.phase = .running) (h : H) :
    j.step h = (j.start h).1.choose (j.start h).2 := by
  unfold step
  rcases hrun with hphase | hphase <;> rw [hphase]

/-- The recorded step is the plain step with a log that `Stepped` allows. -/
theorem step_recorded [Builder K H C] (mark : Call T → E) {j : Junction T H K C}
    (hrun : j.phase = .notStarted ∨ j.phase = .running) (s : Journaled E H) :
    ∃ log,
      (j.recorded mark).step s =
        ((j.step s.host).1, (j.step s.host).2.1.recorded mark,
          ⟨(j.step s.host).2.2, s.journal ++ log.map mark⟩) ∧
      Stepped j log (j.step s.host).1.isDone (j.step s.host).2.1 := by
  rw [step_eq_choose hrun, step_eq_choose (j := j.recorded mark) hrun, start_recorded]
  have hphase : (j.start s.host).1.phase = .running := by
    unfold start
    rcases hrun with hphase | hphase <;> rw [hphase]
    exact hphase
  have htaken : (j.start s.host).1.taken = j.taken := by
    unfold start
    split <;> rfl
  obtain ⟨log, hlog, hstep⟩ := choose_recorded mark (sameShape_start j s.host) hphase htaken
    ⟨(j.start s.host).2, s.journal ++ j.opening.map mark⟩
  refine ⟨j.opening ++ log, hlog.trans ?_, hstep⟩
  simp only [List.map_append, List.append_assoc]

omit [Scalar T] [Host H T] in
/-- Aborting a running junction closes it. -/
theorem abort_of_running {j : Junction T H K C} (hrun : j.phase = .running) (h : H) :
    j.abort h = j.close .aborted h := by
  unfold abort
  rw [hrun]

omit [Scalar T] [Host H T] in
/-- The recorded abort of a running junction is the plain one with the closing noted. -/
theorem abort_recorded (mark : Call T → E) {j : Junction T H K C} (hrun : j.phase = .running)
    (s : Journaled E H) :
    (j.recorded mark).abort s =
        ((j.abort s.host).1.recorded mark,
          ⟨(j.abort s.host).2, s.journal ++ j.closing.map mark⟩) ∧
      SameShape j (j.abort s.host).1 ∧ (j.abort s.host).1.phase = .aborted ∧
      (j.abort s.host).1.taken = j.taken := by
  have hrun' : (j.recorded mark).phase = .running := hrun
  rw [abort_of_running hrun, abort_of_running hrun', close_recorded]
  exact ⟨rfl, sameShape_close j .aborted s.host, rfl, rfl⟩

/-- A junction that is over is left alone by every further step. -/
theorem step_of_over [Builder K H C] {j : Junction T H K C}
    (hover : j.phase = .taken ∨ j.phase = .aborted) (h : H) : j.step h = (.done none, j, h) := by
  rcases hover with hphase | hphase
  · exact step_of_taken hphase h
  · exact step_of_aborted hphase h

/-! ## Runs -/

variable [Builder K H C]

/-- The junction and the host after these moves. -/
def play (moves : List (Move H)) (j : Junction T H K C) (h : H) : Junction T H K C × H :=
  Move.run (fun j h => (j.step h).2) abort moves (j, h)

/-- The recorded run is the plain run with a log, and what every step and every abort keep
of a junction and of what was noted holds along it. -/
theorem play_recorded (mark : Call T → E) {I : Junction T H K C → List (Call T) → Prop}
    (hstep : ∀ {j j' : Junction T H K C} {calls log : List (Call T)} {ends : Bool},
      j.phase = .notStarted ∨ j.phase = .running → I j calls → Stepped j log ends j' →
      I j' (calls ++ log))
    (habort : ∀ {j j' : Junction T H K C} {calls : List (Call T)}, j.phase = .running →
      I j calls → SameShape j j' → j'.phase = .aborted → j'.taken = j.taken →
      I j' (calls ++ j.closing))
    (moves : List (Move H)) {j : Junction T H K C} {calls : List (Call T)} (hI : I j calls)
    (s : Journaled E H) :
    ∃ log,
      play (moves.map Move.journaled) (j.recorded mark) s =
        ((play moves j s.host).1.recorded mark,
          ⟨(play moves j s.host).2, s.journal ++ log.map mark⟩) ∧
      I (play moves j s.host).1 (calls ++ log) := by
  refine Move.run_recorded (recorded mark) mark (D := fun _ => True) ?_ ?_ moves hI s
    (Move.paced_true _ _ _ _)
  · intro j calls s hI _
    rcases j.phase_cases with hrun | hover
    · obtain ⟨log, hlog, hstepped⟩ := step_recorded mark hrun s
      exact ⟨log, congrArg Prod.snd hlog, hstep hrun hI hstepped⟩
    · -- nothing is called any more
      refine ⟨[], ?_, ?_⟩
      · rw [step_of_over hover, step_of_over (j := j.recorded mark) hover]
        simp
      · rw [step_of_over hover, List.append_nil]
        exact hI
  · intro j calls s hI
    by_cases hrun : j.phase = .running
    · obtain ⟨hlog, hshape, hphase, htaken⟩ := abort_recorded mark hrun s
      exact ⟨j.closing, hlog, habort hrun hI hshape hphase htaken⟩
    · refine ⟨[], ?_, ?_⟩
      · rw [abort_of_ne_running hrun, abort_of_ne_running (j := j.recorded mark) hrun]
        simp
      · rw [abort_of_ne_running hrun, List.append_nil]
        exact hI

end Junction

end Cueflow
