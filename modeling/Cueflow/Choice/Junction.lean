import Cueflow.Choice.Condition
import Cueflow.Flow.Target
/-!
# Junctions — waiting for one of several ways on

A junction has branches in order of priority and background logic. The first step opens
a session of every branch's condition and starts the logic. Every step updates the logic
and then evaluates the branches in order up to the first one that is open. That branch
wins: all sessions are closed, all logic is finished, and the target of the winner is
resolved. A junction without a branch that ever opens waits for ever.
-/

namespace Cueflow

/-- Work that runs beside a junction, before its branches are evaluated. -/
structure Background (H : Type) where
  /-- Runs when the junction starts. -/
  start : H → H
  /-- Runs at every step. -/
  update : H → H
  /-- Runs when the junction is over. -/
  finish : H → H

/-- Background logic that only updates. -/
def Background.ofUpdate {H : Type} (update : H → H) : Background H where
  start h := h
  update
  finish h := h

/-- A way on from a junction. -/
structure Branch (T H K C : Type) where
  /-- Shown in diagnostics. -/
  label : String
  /-- Whether the branch is open when its condition does not hold. -/
  invert : Bool
  /-- What is tested. -/
  condition : Condition T H
  /-- Where the branch leads. -/
  target : Target K C

namespace Branch

variable {T H K C : Type}

/-- A branch that is open when the condition holds, labelled with its kind. -/
def when (condition : Condition T H) (target : Target K C) : Branch T H K C :=
  ⟨condition.kind, false, condition, target⟩

/-- A branch that is open when the condition does not hold. -/
def whenNot (condition : Condition T H) (target : Target K C) : Branch T H K C :=
  ⟨condition.kind, true, condition, target⟩

/-- The same branch under another label. -/
def withLabel (b : Branch T H K C) (label : String) : Branch T H K C := { b with label }

/-- The same branch, open when its condition does not hold or when it does. -/
def inverted (b : Branch T H K C) (invert : Bool) : Branch T H K C := { b with invert }

variable [Scalar T] [Host H T]

/-- Opens a session of the condition. -/
def start (b : Branch T H K C) (h : H) : Branch T H K C × H :=
  let (condition, h) := b.condition.start h
  ({ b with condition }, h)

/-- Evaluates the condition; whether the branch is open. -/
def isOpen (b : Branch T H K C) (h : H) : Bool × Branch T H K C × H :=
  let (met, condition, h) := b.condition.isMet h
  (met != b.invert, { b with condition }, h)

/-- Closes the session of the condition. -/
def finish (b : Branch T H K C) (h : H) : Branch T H K C × H :=
  let (condition, h) := b.condition.finish h
  ({ b with condition }, h)

end Branch

/-- How far a junction has come. -/
inductive JunctionPhase where
  /-- Never stepped. -/
  | notStarted
  /-- Its branches are evaluated at every step. -/
  | running
  /-- A branch was taken. -/
  | taken
  /-- Stopped from outside. -/
  | aborted
deriving DecidableEq, Repr

/-- Branches in order of priority, and the logic that runs beside them. -/
structure Junction (T H K C : Type) where
  /-- Shown in diagnostics. -/
  name : String
  /-- The ways on, the most urgent first. -/
  branches : List (Branch T H K C)
  /-- The logic in the order in which it runs. -/
  logic : List (Background H)
  /-- How far the junction has come. -/
  phase : JunctionPhase
  /-- The index of the branch that was taken. -/
  taken : Option Nat
  /-- The steps taken while the junction was not over. -/
  ticks : Nat

namespace Junction

variable {T H K C : Type}

/-- A junction that has not started. -/
def ofBranches (name : String) (logic : List (Background H))
    (branches : List (Branch T H K C)) : Junction T H K C where
  name
  branches
  logic
  phase := .notStarted
  taken := none
  ticks := 0

/-- Runs one callback of every piece of logic in order. -/
def runLogic (callback : Background H → H → H) (logic : List (Background H)) (h : H) : H :=
  logic.foldl (fun h l => callback l h) h

variable [Scalar T] [Host H T]

/-- Opens the sessions of all branches in order. -/
def startBranches : List (Branch T H K C) → H → List (Branch T H K C) × H
  | [], h => ([], h)
  | b :: rest, h =>
    let (b, h) := b.start h
    let (rest, h) := startBranches rest h
    (b :: rest, h)

/-- Closes the sessions of all branches in order. -/
def finishBranches : List (Branch T H K C) → H → List (Branch T H K C) × H
  | [], h => ([], h)
  | b :: rest, h =>
    let (b, h) := b.finish h
    let (rest, h) := finishBranches rest h
    (b :: rest, h)

/-- Evaluates the branches in order up to the first that is open, and gives its
index. -/
def firstOpen : List (Branch T H K C) → H → Option Nat × List (Branch T H K C) × H
  | [], h => (none, [], h)
  | b :: rest, h =>
    match b.isOpen h with
    | (true, b, h) => (some 0, b :: rest, h)
    | (false, b, h) =>
      let (found, rest, h) := firstOpen rest h
      (found.map (· + 1), b :: rest, h)

/-- Resolves the target of the branch with this index. -/
def resolveAt [Builder K H C] : List (Branch T H K C) → Nat → H →
    Option C × List (Branch T H K C) × H
  | [], _, h => (none, [], h)
  | b :: rest, 0, h =>
    let (next, target, h) := b.target.resolve h
    (next, { b with target } :: rest, h)
  | b :: rest, i + 1, h =>
    let (next, rest, h) := resolveAt rest i h
    (next, b :: rest, h)

/-- Opens every session and starts the logic, unless that has been done. -/
def start (j : Junction T H K C) (h : H) : Junction T H K C × H :=
  match j.phase with
  | .notStarted =>
    let (branches, h) := startBranches j.branches h
    ({ j with branches, phase := .running }, runLogic Background.start j.logic h)
  | _ => (j, h)

/-- Closes every session and finishes the logic. -/
def close (j : Junction T H K C) (phase : JunctionPhase) (h : H) : Junction T H K C × H :=
  let (branches, h) := finishBranches j.branches h
  ({ j with branches, phase }, runLogic Background.finish j.logic h)

/-- The part of a step after the start: updates the logic, looks for an open branch and
takes it. -/
def choose [Builder K H C] (j : Junction T H K C) (h : H) :
    StepResult C × Junction T H K C × H :=
  let h := runLogic Background.update j.logic h
  match firstOpen j.branches h with
  | (none, branches, h) => (.suspend, { j with branches, ticks := j.ticks + 1 }, h)
  | (some i, branches, h) =>
    let (j, h) := close { j with branches, ticks := j.ticks + 1, taken := some i } .taken h
    let (next, branches, h) := resolveAt j.branches i h
    (.done next, { j with branches }, h)

/-- One step. A junction that is over has nothing left to do. -/
def step [Builder K H C] (j : Junction T H K C) (h : H) :
    StepResult C × Junction T H K C × H :=
  match j.phase with
  | .notStarted | .running =>
    let (j, h) := j.start h
    j.choose h
  | .taken | .aborted => (.done none, j, h)

/-- Stops a running junction from outside: closes everything and resolves nothing. -/
def abort (j : Junction T H K C) (h : H) : Junction T H K C × H :=
  match j.phase with
  | .running => close j .aborted h
  | .notStarted | .taken | .aborted => (j, h)

/-! ## What the parts of a step keep -/

/-- The winner is one of the branches. -/
theorem firstOpen_lt {branches : List (Branch T H K C)} {h : H} {i : Nat}
    (hi : (firstOpen branches h).1 = some i) : i < branches.length := by
  induction branches generalizing h i with
  | nil => simp [firstOpen] at hi
  | cons b rest ih =>
    simp only [firstOpen] at hi
    split at hi
    · obtain rfl : 0 = i := by simpa using hi
      exact Nat.succ_pos _
    · next b' h' _ =>
      obtain ⟨k, hk, rfl⟩ := Option.map_eq_some_iff.1 hi
      have := ih hk
      simp only [List.length_cons]
      omega

/-- A junction that is over is left alone by every further step. -/
theorem step_of_taken [Builder K H C] {j : Junction T H K C} (hj : j.phase = .taken)
    (h : H) : j.step h = (.done none, j, h) := by
  simp [step, hj]

/-- An aborted junction is left alone by every further step. -/
theorem step_of_aborted [Builder K H C] {j : Junction T H K C} (hj : j.phase = .aborted)
    (h : H) : j.step h = (.done none, j, h) := by
  simp [step, hj]

omit [Scalar T] [Host H T] in
/-- Only a running junction can be aborted. -/
theorem abort_of_ne_running {j : Junction T H K C} (hj : j.phase ≠ .running) (h : H) :
    j.abort h = (j, h) := by
  unfold abort
  split
  · next hr => exact absurd hr hj
  all_goals rfl

end Junction

end Cueflow
