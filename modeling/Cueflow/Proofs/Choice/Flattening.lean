import Cueflow.Choice.Condition
import Cueflow.World.Basic
/-!
# Conjunctions flatten

How conjunctions are nested plays no part in what a condition does.

> `conjunctions_flatten`: starting, evaluating and finishing a condition is the same as calling
> its leaves once each from left to right, and it holds exactly when all of them do. Two
> conditions with the same leaves cannot be told apart by calling them, whatever happens to the
> host between the calls.

The leaves are the conditions that are not conjunctions, in the order in which they stand. On
the other side is `inTurn`, which calls one after the other whatever a list holds and knows
nothing of conditions.
-/

namespace Cueflow

variable {T H : Type}

/-- Makes a call for each member of a list in order, each on the host that the call before it
left: what the calls gave back, and the host after the last one. -/
def inTurn {A B : Type} (call : A → H → B × H) : List A → H → List B × H
  | [], h => ([], h)
  | x :: rest, h =>
    let (y, h) := call x h
    let (ys, h) := inTurn call rest h
    (y :: ys, h)

section InTurn

variable {A B : Type} (call : A → H → B × H)

/-- One result for each member: nobody is passed over. -/
theorem length_inTurn (xs : List A) (h : H) : (inTurn call xs h).1.length = xs.length := by
  induction xs generalizing h with
  | nil => rfl
  | cons x rest ih => exact congrArg (· + 1) (ih (call x h).2)

/-- Those in front are called first, and the others on the host that they left. -/
theorem inTurn_append (xs ys : List A) (h : H) :
    inTurn call (xs ++ ys) h =
      ((inTurn call xs h).1 ++ (inTurn call ys (inTurn call xs h).2).1,
        (inTurn call ys (inTurn call xs h).2).2) := by
  induction xs generalizing h with
  | nil => rfl
  | cons x rest ih =>
    show ((call x h).1 :: (inTurn call (rest ++ ys) (call x h).2).1,
      (inTurn call (rest ++ ys) (call x h).2).2) = _
    rw [ih]
    rfl

end InTurn

namespace Condition

/-! ## Leaves -/

mutual

/-- The conditions in this one that are not conjunctions, from left to right. -/
def leaves : Condition T H → List (Condition T H)
  | .all parts => leavesAll parts
  | .wait w => [.wait w]
  | .predicate label test => [.predicate label test]
  | .dependency d => [.dependency d]
  | .always => [.always]
  | .custom c => [.custom c]

/-- The leaves of the parts of a conjunction. -/
def leavesAll : List (Condition T H) → List (Condition T H)
  | [] => []
  | c :: rest => leaves c ++ leavesAll rest

end

mutual

/-- No leaf is a conjunction. -/
theorem ne_all_of_mem_leaves : ∀ (c leaf : Condition T H), leaf ∈ c.leaves →
    ∀ parts, leaf ≠ .all parts
  | .all within, leaf, hleaf => ne_all_of_mem_leavesAll within leaf hleaf
  | .wait _, leaf, hleaf | .predicate _ _, leaf, hleaf | .dependency _, leaf, hleaf
  | .always, leaf, hleaf | .custom _, leaf, hleaf => by
    intro parts hall
    rw [List.mem_singleton.1 hleaf] at hall
    cases hall

theorem ne_all_of_mem_leavesAll : ∀ (within : List (Condition T H)) (leaf : Condition T H),
    leaf ∈ leavesAll within → ∀ parts, leaf ≠ .all parts
  | [], leaf, hleaf => absurd hleaf List.not_mem_nil
  | c :: rest, leaf, hleaf => by
    rcases List.mem_append.1 hleaf with hc | hrest
    · exact ne_all_of_mem_leaves c leaf hc
    · exact ne_all_of_mem_leavesAll rest leaf hrest

end

/-! ## One call -/

mutual

/-- Finishing a condition finishes its leaves. -/
theorem inTurn_finish : ∀ (c : Condition T H) (h : H),
    inTurn finish c.leaves h = ((c.finish h).1.leaves, (c.finish h).2)
  | .all parts, h => inTurn_finishAll parts h
  | .wait _, _ | .predicate _ _, _ | .dependency _, _ | .always, _ | .custom _, _ => rfl

theorem inTurn_finishAll : ∀ (parts : List (Condition T H)) (h : H),
    inTurn finish (leavesAll parts) h = (leavesAll (finishAll parts h).1, (finishAll parts h).2)
  | [], _ => rfl
  | c :: rest, h => by
    rw [leavesAll, inTurn_append, inTurn_finish c, inTurn_finishAll rest]
    rfl

end

variable [Host H T]

mutual

/-- Starting a condition starts its leaves. -/
theorem inTurn_start : ∀ (c : Condition T H) (h : H),
    inTurn start c.leaves h = ((c.start h).1.leaves, (c.start h).2)
  | .all parts, h => inTurn_startAll parts h
  | .wait _, _ | .predicate _ _, _ | .dependency _, _ | .always, _ | .custom _, _ => rfl

theorem inTurn_startAll : ∀ (parts : List (Condition T H)) (h : H),
    inTurn start (leavesAll parts) h = (leavesAll (startAll parts h).1, (startAll parts h).2)
  | [], _ => rfl
  | c :: rest, h => by
    rw [leavesAll, inTurn_append, inTurn_start c, inTurn_startAll rest]
    rfl

end

variable [Scalar T]

/-- Evaluates a condition: its answer beside what it is afterwards. -/
def asked (c : Condition T H) (h : H) : (Bool × Condition T H) × H :=
  let (met, c, h) := c.isMet h
  ((met, c), h)

theorem isMet_eq_inTurn_of_leaf {c : Condition T H} {h : H} (hbefore : c.leaves = [c])
    (hafter : (c.isMet h).2.1.leaves = [(c.isMet h).2.1]) :
    ((c.isMet h).1, (c.isMet h).2.1.leaves, (c.isMet h).2.2) =
      ((inTurn asked c.leaves h).1.all Prod.fst, (inTurn asked c.leaves h).1.map Prod.snd,
        (inTurn asked c.leaves h).2) := by
  rw [hbefore, hafter]
  show _ = ((c.isMet h).1 && true, [(c.isMet h).2.1], (c.isMet h).2.2)
  rw [Bool.and_true]

mutual

/-- Evaluating a condition evaluates its leaves, and it holds when they all do. -/
theorem isMet_eq_inTurn : ∀ (c : Condition T H) (h : H),
    ((c.isMet h).1, (c.isMet h).2.1.leaves, (c.isMet h).2.2) =
      ((inTurn asked c.leaves h).1.all Prod.fst, (inTurn asked c.leaves h).1.map Prod.snd,
        (inTurn asked c.leaves h).2)
  | .all parts, h => allMet_eq_inTurn parts h
  | .wait _, _ | .predicate _ _, _ | .dependency _, _ | .always, _ | .custom _, _ =>
    isMet_eq_inTurn_of_leaf rfl rfl

theorem allMet_eq_inTurn : ∀ (parts : List (Condition T H)) (h : H),
    ((allMet parts h).1, leavesAll (allMet parts h).2.1, (allMet parts h).2.2) =
      ((inTurn asked (leavesAll parts) h).1.all Prod.fst,
        (inTurn asked (leavesAll parts) h).1.map Prod.snd, (inTurn asked (leavesAll parts) h).2)
  | [], _ => rfl
  | c :: rest, h => by
    have hc := isMet_eq_inTurn c h
    have hrest := allMet_eq_inTurn rest (c.isMet h).2.2
    simp only [Prod.mk.injEq] at hc hrest
    obtain ⟨hmet, hleaves, hhost⟩ := hc
    rw [leavesAll, inTurn_append, List.all_append, List.map_append, ← hmet, ← hleaves, ← hhost,
      ← hrest.1, ← hrest.2.1, ← hrest.2.2]
    rfl

end

/-! ## Any number of calls -/

/-- What may happen to a condition and its host. -/
inductive Contact (H : Type) where
  /-- A session is started. -/
  | start
  /-- The condition is evaluated. -/
  | evaluate
  /-- The session is ended. -/
  | finish
  /-- The host changes between two calls. -/
  | meanwhile (change : H → H)

/-- A condition through all of this: what its evaluations answered, and what it and its host
are in the end. -/
def undergo : List (Contact H) → Condition T H → H → List Bool × Condition T H × H
  | [], c, h => ([], c, h)
  | .start :: contacts, c, h => undergo contacts (c.start h).1 (c.start h).2
  | .evaluate :: contacts, c, h =>
    let (met, c, h) := c.isMet h
    let (answers, c, h) := undergo contacts c h
    (met :: answers, c, h)
  | .finish :: contacts, c, h => undergo contacts (c.finish h).1 (c.finish h).2
  | .meanwhile change :: contacts, c, h => undergo contacts c (change h)

/-- What can be told of a condition by calling it is a matter of its leaves. -/
theorem undergo_of_leaves_eq (contacts : List (Contact H)) {c c' : Condition T H}
    (hleaves : c'.leaves = c.leaves) (h : H) :
    (undergo contacts c' h).1 = (undergo contacts c h).1 ∧
    (undergo contacts c' h).2.1.leaves = (undergo contacts c h).2.1.leaves ∧
    (undergo contacts c' h).2.2 = (undergo contacts c h).2.2 := by
  induction contacts generalizing c c' h with
  | nil => exact ⟨rfl, hleaves, rfl⟩
  -- a call comes to the same leaves and the same host on both sides, for the rest to go on from
  | cons contact contacts ih =>
    cases contact with
    | start =>
      have hsame := inTurn_start c' h
      rw [hleaves, inTurn_start c, Prod.mk.injEq] at hsame
      obtain ⟨hafter, hhost⟩ := hsame
      rw [undergo, undergo, ← hhost]
      exact ih hafter.symm (c.start h).2
    | evaluate =>
      have hsame := isMet_eq_inTurn c' h
      rw [hleaves, ← isMet_eq_inTurn c, Prod.mk.injEq, Prod.mk.injEq] at hsame
      obtain ⟨hmet, hafter, hhost⟩ := hsame
      obtain ⟨hanswers, hend⟩ := ih hafter (c.isMet h).2.2
      rw [undergo, undergo]
      dsimp only
      rw [hmet, hhost, hanswers]
      exact ⟨rfl, hend⟩
    | finish =>
      have hsame := inTurn_finish c' h
      rw [hleaves, inTurn_finish c, Prod.mk.injEq] at hsame
      obtain ⟨hafter, hhost⟩ := hsame
      rw [undergo, undergo, ← hhost]
      exact ih hafter.symm (c.finish h).2
    | meanwhile change => exact ih hleaves (change h)

/-- A call to a condition is a call to each of its leaves once, from left to right, whatever they
answer: the host comes out as it does there, so do the leaves, and the condition holds exactly
when every leaf does, hence always without any. So conditions with the same leaves, however their
conjunctions are nested and whether or not these have any parts, answer the same and have the
same effects through every sequence of calls, with anything happening to the host in between. -/
theorem conjunctions_flatten (c : Condition T H) :
    (∀ leaf ∈ c.leaves, ∀ parts, leaf ≠ .all parts) ∧
    (∀ h, inTurn start c.leaves h = ((c.start h).1.leaves, (c.start h).2)) ∧
    (∀ h, let turns := inTurn asked c.leaves h
      turns.1.length = c.leaves.length ∧ (c.isMet h).1 = turns.1.all Prod.fst ∧
      (c.isMet h).2.1.leaves = turns.1.map Prod.snd ∧ (c.isMet h).2.2 = turns.2) ∧
    (∀ h, inTurn finish c.leaves h = ((c.finish h).1.leaves, (c.finish h).2)) ∧
    ∀ c' : Condition T H, c'.leaves = c.leaves → ∀ contacts h,
      (undergo contacts c' h).1 = (undergo contacts c h).1 ∧
      (undergo contacts c' h).2.1.leaves = (undergo contacts c h).2.1.leaves ∧
      (undergo contacts c' h).2.2 = (undergo contacts c h).2.2 := by
  refine ⟨ne_all_of_mem_leaves c, inTurn_start c, fun h => ?_, inTurn_finish c, ?_⟩
  · have hturns := isMet_eq_inTurn c h
    rw [Prod.mk.injEq, Prod.mk.injEq] at hturns
    exact ⟨length_inTurn asked c.leaves h, hturns⟩
  · intro c' hleaves contacts h
    exact undergo_of_leaves_eq contacts hleaves h

/-- A test that fails and a wait of two seconds, side by side and with conjunctions around them:
two evaluations a second apart answer no, and leave nothing of the wait. -/
theorem conjunctions_flatten_at_two :
    let refuse : Condition Float32 World := .bound "no" fun _ => false
    let flat : Condition Float32 World := .all [refuse, .wait ⟨2, 2, 2⟩]
    let nested : Condition Float32 World :=
      .all [.all [], .all [refuse, .all []], .all [.all [.wait ⟨2, 2, 2⟩]]]
    let w := (World.ofSeed none).beginTick 1
    let contacts := [.start, .evaluate, .meanwhile fun w => w.beginTick 1, .evaluate]
    nested.leaves = flat.leaves ∧ (undergo contacts nested w).1 = [false, false] ∧
    (undergo contacts nested w).2.1.leaves = [refuse, .wait ⟨2, 2, 2 - 1 - 1⟩] ∧
    (undergo contacts nested w).2.2 = (undergo contacts flat w).2.2 := by
  intro refuse flat nested w contacts
  have hleaves : nested.leaves = flat.leaves := rfl
  obtain ⟨-, -, -, -, hsame⟩ := conjunctions_flatten flat
  obtain ⟨hanswers, hend, hhost⟩ := hsame nested hleaves contacts w
  refine ⟨hleaves, hanswers.trans ?_, hend.trans ?_, hhost⟩
  · rfl
  · rfl

end Condition

end Cueflow
