import Cueflow.Proofs.Choice.Nodes
/-!
# What callbacks are held to

A statement about a host while a junction runs on it needs to know what the callbacks may do to
it. A `Conduct` is a relation between the host before a callback and the host after it that
holds of doing nothing and of one thing after another.

> `Respects.start`, `Respects.isMet`, `Respects.finish`: if every callback of a condition keeps
> to a conduct, so does every call to the condition.
> `BranchesRespect.startsAt`, `BranchesRespect.turnsAt`: and so does all that happens in a step
> before a node is called.

Calls change what a condition remembers and none of its callbacks, so it keeps to the conduct
from then on (`Junction.Respects.step`, `Junction.Respects.abort`).
-/

namespace Cueflow

variable {T H K C : Type}

/-- What may happen to a host. -/
structure Conduct (H : Type) where
  rel : H → H → Prop
  refl : ∀ h, rel h h
  trans : ∀ {h h' h''}, rel h h' → rel h' h'' → rel h h''

/-- The time since the previous tick stays the same. -/
def Conduct.sameDelta [Host H T] : Conduct H where
  rel h h' := Host.deltaTime h' = Host.deltaTime h
  refl _ := rfl
  trans h₁ h₂ := h₂.trans h₁

/-! ## Conditions -/

namespace Condition

variable [Host H T] {k : Conduct H}

/-- Every callback of the condition, and what it asks of the host, keeps to the conduct. -/
inductive Respects (k : Conduct H) : Condition T H → Prop where
  | wait {w : Wait T} : (∀ h, k.rel h (Host.draw w.min w.max h).2) → Respects k (.wait w)
  | predicate {label : String} {test : H → Bool × H} : (∀ h, k.rel h (test h).2) →
      Respects k (.predicate label test)
  | dependency {d : Dependency} : (∀ h, k.rel h (Host.lookup (T := T) d.name h).2) →
      Respects k (.dependency d)
  | always : Respects k .always
  | all {parts : List (Condition T H)} : (∀ c ∈ parts, Respects k c) → Respects k (.all parts)
  | custom {c : CustomCondition H} : (∀ h, k.rel h (c.start h)) →
      (∀ h, k.rel h (c.isMet h).2) → (∀ h, k.rel h (c.finish h)) → Respects k (.custom c)

/-- The parts keep to it as well. -/
theorem Respects.parts {c : Condition T H} (hc : c.Respects k) :
    ∀ part ∈ c.parts, part.Respects k := by
  cases hc with
  | all hparts => exact hparts
  | _ => exact fun part hpart => absurd hpart List.not_mem_nil

/-! ### Starting -/

theorem startAll_respects {parts : List (Condition T H)}
    (hparts : ∀ c ∈ parts, ∀ h, k.rel h (c.start h).2 ∧ (c.start h).1.Respects k) (h : H) :
    k.rel h (startAll parts h).2 ∧ ∀ c ∈ (startAll parts h).1, c.Respects k := by
  induction parts generalizing h with
  | nil => exact ⟨k.refl h, fun c hc => absurd hc List.not_mem_nil⟩
  | cons c rest ih =>
    obtain ⟨hc, hrest⟩ := List.forall_mem_cons.1 hparts
    obtain ⟨hrel, hkept⟩ := ih hrest (c.start h).2
    exact ⟨k.trans (hc h).1 hrel, List.forall_mem_cons.2 ⟨(hc h).2, hkept⟩⟩

/-- Starting keeps to the conduct, and leaves the callbacks as they are. -/
theorem Respects.start {c : Condition T H} (hc : c.Respects k) (h : H) :
    k.rel h (c.start h).2 ∧ (c.start h).1.Respects k := by
  induction hc generalizing h with
  | wait hdraw => exact ⟨hdraw h, .wait hdraw⟩
  | predicate htest => exact ⟨k.refl h, .predicate htest⟩
  | dependency hlookup => exact ⟨hlookup h, .dependency hlookup⟩
  | always => exact ⟨k.refl h, .always⟩
  | all _ ih =>
    obtain ⟨hrel, hkept⟩ := startAll_respects ih h
    exact ⟨hrel, .all hkept⟩
  | custom hstart hmet hfinish => exact ⟨hstart h, .custom hstart hmet hfinish⟩

/-- What comes before a node is started keeps to the conduct. -/
theorem Respects.startsOn {c : Condition T H} (hc : c.Respects k) (path : List Nat) (h : H) :
    k.rel h (c.startsOn path h) := by
  induction path generalizing c h with
  | nil => exact k.refl h
  | cons i path ih =>
    unfold Condition.startsOn
    split
    · exact k.refl h
    · next part hpart =>
      have hbefore : ∀ part ∈ c.parts.take i, part.Respects k :=
        fun part hmem => hc.parts part (List.mem_of_mem_take hmem)
      have hrel := (startAll_respects (fun part hmem => (hbefore part hmem).start) h).1
      exact k.trans hrel (ih (hc.parts part (List.mem_of_getElem? hpart)) _)

/-! ### Finishing -/

omit [Host H T] in
theorem rel_finishAll {parts : List (Condition T H)}
    (hparts : ∀ c ∈ parts, ∀ h, k.rel h (c.finish h).2) (h : H) :
    k.rel h (finishAll parts h).2 := by
  induction parts generalizing h with
  | nil => exact k.refl h
  | cons c rest ih =>
    obtain ⟨hc, hrest⟩ := List.forall_mem_cons.1 hparts
    exact k.trans (hc h) (ih hrest (c.finish h).2)

/-- Finishing keeps to the conduct. -/
theorem Respects.finish {c : Condition T H} (hc : c.Respects k) (h : H) :
    k.rel h (c.finish h).2 := by
  induction hc generalizing h with
  | wait _ => exact k.refl h
  | predicate _ => exact k.refl h
  | dependency _ => exact k.refl h
  | always => exact k.refl h
  | all _ ih => exact rel_finishAll ih h
  | custom _ _ hfinish => exact hfinish h

/-- A released condition has the callbacks that it had. -/
theorem Respects.released {c : Condition T H} (hc : c.Respects k) : c.released.Respects k := by
  induction hc with
  | wait hdraw => exact .wait hdraw
  | predicate htest => exact .predicate htest
  | dependency hlookup => exact .dependency hlookup
  | always => exact .always
  | @all parts _ ih =>
    refine .all fun c hc => ?_
    obtain ⟨i, hi⟩ := List.mem_iff_getElem?.1 hc
    rw [getElem?_releasedAll] at hi
    obtain ⟨part, hpart, rfl⟩ := Option.map_eq_some_iff.1 hi
    exact ih part (List.mem_of_getElem? hpart)
  | custom hstart hmet hfinish => exact .custom hstart hmet hfinish

/-! ### Evaluating -/

variable [Scalar T]

theorem allMet_respects {parts : List (Condition T H)}
    (hparts : ∀ c ∈ parts, ∀ h, k.rel h (c.isMet h).2.2 ∧ (c.isMet h).2.1.Respects k) (h : H) :
    k.rel h (allMet parts h).2.2 ∧ ∀ c ∈ (allMet parts h).2.1, c.Respects k := by
  induction parts generalizing h with
  | nil => exact ⟨k.refl h, fun c hc => absurd hc List.not_mem_nil⟩
  | cons c rest ih =>
    obtain ⟨hc, hrest⟩ := List.forall_mem_cons.1 hparts
    obtain ⟨hrel, hkept⟩ := ih hrest (c.isMet h).2.2
    exact ⟨k.trans (hc h).1 hrel, List.forall_mem_cons.2 ⟨(hc h).2, hkept⟩⟩

/-- Evaluating keeps to the conduct, and leaves the callbacks as they are. -/
theorem Respects.isMet {c : Condition T H} (hc : c.Respects k) (h : H) :
    k.rel h (c.isMet h).2.2 ∧ (c.isMet h).2.1.Respects k := by
  induction hc generalizing h with
  | wait hdraw => exact ⟨k.refl h, .wait hdraw⟩
  | predicate htest => exact ⟨htest h, .predicate htest⟩
  | dependency hlookup => exact ⟨k.refl h, .dependency hlookup⟩
  | always => exact ⟨k.refl h, .always⟩
  | all _ ih =>
    obtain ⟨hrel, hkept⟩ := allMet_respects ih h
    exact ⟨hrel, .all hkept⟩
  | custom hstart hmet hfinish => exact ⟨hmet h, .custom hstart hmet hfinish⟩

/-- What comes before a node is evaluated keeps to the conduct. -/
theorem Respects.turnsOn {c : Condition T H} (hc : c.Respects k) (path : List Nat) (h : H) :
    k.rel h (c.turnsOn path h) := by
  induction path generalizing c h with
  | nil => exact k.refl h
  | cons i path ih =>
    unfold Condition.turnsOn
    split
    · exact k.refl h
    · next part hpart =>
      have hbefore : ∀ part ∈ c.parts.take i, part.Respects k :=
        fun part hmem => hc.parts part (List.mem_of_mem_take hmem)
      have hrel := (allMet_respects (fun part hmem => (hbefore part hmem).isMet) h).1
      exact k.trans hrel (ih (hc.parts part (List.mem_of_getElem? hpart)) _)

end Condition

/-! ## Junctions -/

/-- Every callback of the logic keeps to the conduct. -/
structure Background.Respects (k : Conduct H) (l : Background H) : Prop where
  start : ∀ h, k.rel h (l.start h)
  update : ∀ h, k.rel h (l.update h)
  finish : ∀ h, k.rel h (l.finish h)

namespace Junction

/-- Logic of which one kind of callback keeps to the conduct does so in every round. -/
theorem rel_runLogic {k : Conduct H} {callback : Background H → H → H}
    {logic : List (Background H)} (hlogic : ∀ l ∈ logic, ∀ h, k.rel h (callback l h)) (h : H) :
    k.rel h (runLogic callback logic h) := by
  induction logic generalizing h with
  | nil => exact k.refl h
  | cons l rest ih =>
    obtain ⟨hl, hrest⟩ := List.forall_mem_cons.1 hlogic
    exact k.trans (hl h) (ih hrest (callback l h))

variable [Host H T] {k : Conduct H} {branches : List (Branch T H K C)}

/-- Every callback of these branches keeps to the conduct. -/
def BranchesRespect (k : Conduct H) (branches : List (Branch T H K C)) : Prop :=
  ∀ b ∈ branches, b.condition.Respects k

theorem BranchesRespect.start (hb : BranchesRespect k branches) (h : H) :
    k.rel h (startBranches branches h).2 ∧ BranchesRespect k (startBranches branches h).1 := by
  induction branches generalizing h with
  | nil => exact ⟨k.refl h, hb⟩
  | cons b rest ih =>
    obtain ⟨hc, hrest⟩ := List.forall_mem_cons.1 hb
    obtain ⟨hrel, hkept⟩ := ih hrest (b.start h).2
    exact ⟨k.trans (hc.start h).1 hrel, List.forall_mem_cons.2 ⟨(hc.start h).2, hkept⟩⟩

theorem BranchesRespect.finish (hb : BranchesRespect k branches) (h : H) :
    k.rel h (finishBranches branches h).2 ∧ BranchesRespect k (finishBranches branches h).1 := by
  induction branches generalizing h with
  | nil => exact ⟨k.refl h, hb⟩
  | cons b rest ih =>
    obtain ⟨hc, hrest⟩ := List.forall_mem_cons.1 hb
    obtain ⟨hrel, hkept⟩ := ih hrest (b.finish h).2
    have hkept' : (b.finish h).1.condition.Respects k := by
      show (b.condition.finish h).1.Respects k
      rw [Condition.finish_eq_released]
      exact hc.released
    exact ⟨k.trans (hc.finish h) hrel, List.forall_mem_cons.2 ⟨hkept', hkept⟩⟩

theorem BranchesRespect.startsAt (hb : BranchesRespect k branches) (b : Nat) (path : List Nat)
    (h : H) : k.rel h (startsAt branches b path h) := by
  have hbefore : BranchesRespect k (branches.take b) :=
    fun branch hmem => hb branch (List.mem_of_mem_take hmem)
  unfold Junction.startsAt
  dsimp only
  split
  · exact (hbefore.start h).1
  · next branch hbranch =>
    exact k.trans (hbefore.start h).1 ((hb branch (List.mem_of_getElem? hbranch)).startsOn path _)

variable [Scalar T]

theorem BranchesRespect.turn (hb : BranchesRespect k branches) (n : Nat) (h : H) :
    k.rel h (turnBranches n branches h).2 ∧ BranchesRespect k (turnBranches n branches h).1 := by
  induction branches generalizing n h with
  | nil => cases n <;> exact ⟨k.refl h, hb⟩
  | cons b rest ih =>
    cases n with
    | zero => exact ⟨k.refl h, hb⟩
    | succ n =>
      obtain ⟨hc, hrest⟩ := List.forall_mem_cons.1 hb
      obtain ⟨hrel, hkept⟩ := ih hrest n (b.isOpen h).2.2
      exact ⟨k.trans (hc.isMet h).1 hrel, List.forall_mem_cons.2 ⟨(hc.isMet h).2, hkept⟩⟩

theorem BranchesRespect.turnsAt (hb : BranchesRespect k branches) (b : Nat) (path : List Nat)
    (h : H) : k.rel h (turnsAt branches b path h) := by
  unfold Junction.turnsAt
  dsimp only
  split
  · exact (hb.turn b h).1
  · next branch hbranch =>
    exact k.trans (hb.turn b h).1 ((hb branch (List.mem_of_getElem? hbranch)).turnsOn path _)

/-! ### Along a run -/

omit [Scalar T] in
theorem BranchesRespect.resolveAt [Builder K H C] (hb : BranchesRespect k branches) (i : Nat)
    (h : H) : BranchesRespect k (resolveAt branches i h).2.1 := by
  induction branches generalizing i with
  | nil => exact hb
  | cons b rest ih =>
    obtain ⟨hc, hrest⟩ := List.forall_mem_cons.1 hb
    cases i with
    | zero => exact List.forall_mem_cons.2 ⟨hc, hrest⟩
    | succ i => exact List.forall_mem_cons.2 ⟨hc, ih hrest i⟩

/-- Every callback of the junction keeps to the conduct. -/
structure Respects (k : Conduct H) (j : Junction T H K C) : Prop where
  branches : BranchesRespect k j.branches
  logic : ∀ l ∈ j.logic, l.Respects k

namespace Respects

variable {j : Junction T H K C}

omit [Scalar T] in
/-- Opening the sessions and starting the logic keeps to the conduct. -/
theorem start (hj : j.Respects k) (h : H) :
    k.rel h (j.start h).2 ∧ (j.start h).1.Respects k := by
  unfold Junction.start
  split
  · obtain ⟨hrel, hkept⟩ := hj.branches.start h
    exact ⟨k.trans hrel (rel_runLogic (fun l hl => (hj.logic l hl).start) _), hkept, hj.logic⟩
  · exact ⟨k.refl h, hj⟩

omit [Scalar T] in
theorem close (hj : j.Respects k) (phase : JunctionPhase) (h : H) :
    (j.close phase h).1.Respects k := ⟨(hj.branches.finish h).2, hj.logic⟩

omit [Scalar T] in
theorem abort (hj : j.Respects k) (h : H) : (j.abort h).1.Respects k := by
  unfold Junction.abort
  split
  · exact hj.close .aborted h
  all_goals exact hj

/-- A step leaves the callbacks as they are. -/
theorem step [Builder K H C] (hj : j.Respects k) (h : H) : (j.step h).2.1.Respects k := by
  rcases j.phase_cases with hrun | hover
  · have hstart := (hj.start h).2
    rcases first_or_none (j.start h).1.branches
      (runLogic Background.update j.logic (j.start h).2) with ⟨i, hopen, hbefore⟩ | hnone
    · rw [step_of_first hrun hopen hbefore]
      have hturned := (hstart.branches.turn (i + 1)
        (runLogic Background.update j.logic (j.start h).2)).2
      exact ⟨(hturned.finish _).2.resolveAt i _, hj.logic⟩
    · rw [step_of_none hrun hnone]
      exact ⟨(hstart.branches.turn _ _).2, hj.logic⟩
  · rw [step_of_over hover]
    exact hj

end Respects

end Junction

end Cueflow
