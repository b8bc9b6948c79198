import Cueflow.Choice.Wait
/-!
# Conditions — what a branch can test

Conditions are waits, dependencies, predicates over the host, the condition that always
holds, conditions supplied by an author, and conjunctions of any depth. A conjunction
passes every call on to every part, left to right, and goes on after a part that does
not hold, so that the waits in later parts keep counting. Without parts it holds.
-/

namespace Cueflow

/-- A condition supplied by an author. -/
structure CustomCondition (H : Type) where
  /-- Runs when a session starts. -/
  start : H → H
  /-- Evaluates the condition. -/
  isMet : H → Bool × H
  /-- Runs when a session ends. -/
  finish : H → H

/-- An author's condition that only evaluates. -/
def CustomCondition.ofTest {H : Type} (isMet : H → Bool × H) : CustomCondition H where
  start h := h
  isMet
  finish h := h

/-- What a branch can test. -/
inductive Condition (T H : Type) where
  /-- A time drawn anew for each session has passed. -/
  | wait (w : Wait T)
  /-- A predicate of the host holds. -/
  | predicate (label : String) (test : H → Bool × H)
  /-- A named machine is running. -/
  | dependency (d : Dependency)
  /-- Always holds. -/
  | always
  /-- Every part holds. -/
  | all (parts : List (Condition T H))
  /-- Whatever an author supplies. -/
  | custom (c : CustomCondition H)

namespace Condition

variable {T H : Type}

/-- The name of the kind of condition. -/
def kind : Condition T H → String
  | .wait _ => "after_time"
  | .predicate _ _ => "predicate"
  | .dependency _ => "dependency_running"
  | .always => "default"
  | .all _ => "and"
  | .custom _ => "custom"

/-- A predicate that reads an object and leaves the host alone. -/
def bound (label : String) (test : H → Bool) : Condition T H :=
  .predicate label fun h => (test h, h)

variable [Scalar T] [Host H T]

mutual

/-- Starts a session. -/
def start : Condition T H → H → Condition T H × H
  | .wait w, h => let (w, h) := w.start h; (.wait w, h)
  | .predicate label test, h => (.predicate label test, h)
  | .dependency d, h => let (d, h) := d.start h; (.dependency d, h)
  | .always, h => (.always, h)
  | .all parts, h => let (parts, h) := startAll parts h; (.all parts, h)
  | .custom c, h => (.custom c, c.start h)

/-- Starts a session of every part in order. -/
def startAll : List (Condition T H) → H → List (Condition T H) × H
  | [], h => ([], h)
  | c :: rest, h =>
    let (c, h) := start c h
    let (rest, h) := startAll rest h
    (c :: rest, h)

end

mutual

/-- Evaluates the condition for the current tick. -/
def isMet : Condition T H → H → Bool × Condition T H × H
  | .wait w, h => let (met, w, h) := w.isMet h; (met, .wait w, h)
  | .predicate label test, h => let (met, h) := test h; (met, .predicate label test, h)
  | .dependency d, h => (d.isMet h, .dependency d, h)
  | .always, h => (true, .always, h)
  | .all parts, h => let (met, parts, h) := allMet parts h; (met, .all parts, h)
  | .custom c, h => let (met, h) := c.isMet h; (met, .custom c, h)

/-- Evaluates every part in order, whatever the parts before it answered. -/
def allMet : List (Condition T H) → H → Bool × List (Condition T H) × H
  | [], h => (true, [], h)
  | c :: rest, h =>
    let (met, c, h) := isMet c h
    let (restMet, rest, h) := allMet rest h
    (met && restMet, c :: rest, h)

end

mutual

/-- Ends a session. -/
def finish : Condition T H → H → Condition T H × H
  | .wait w, h => (.wait w, h)
  | .predicate label test, h => (.predicate label test, h)
  | .dependency d, h => (.dependency d.finish, h)
  | .always, h => (.always, h)
  | .all parts, h => let (parts, h) := finishAll parts h; (.all parts, h)
  | .custom c, h => (.custom c, c.finish h)

/-- Ends a session of every part in order. -/
def finishAll : List (Condition T H) → H → List (Condition T H) × H
  | [], h => ([], h)
  | c :: rest, h =>
    let (c, h) := finish c h
    let (rest, h) := finishAll rest h
    (c :: rest, h)

end

/-- A conjunction without parts holds and acts on nothing. -/
@[simp] theorem isMet_all_nil (h : H) :
    (Condition.all [] : Condition T H).isMet h = (true, .all [], h) := by
  simp [isMet, allMet]

omit [Scalar T] in
/-- Starting keeps the number of parts. -/
theorem length_startAll (parts : List (Condition T H)) (h : H) :
    (startAll parts h).1.length = parts.length := by
  induction parts generalizing h with
  | nil => simp [startAll]
  | cons c rest ih => simp [startAll, ih]

/-- Evaluating keeps the number of parts. -/
theorem length_allMet (parts : List (Condition T H)) (h : H) :
    (allMet parts h).2.1.length = parts.length := by
  induction parts generalizing h with
  | nil => simp [allMet]
  | cons c rest ih => simp [allMet, ih]

omit [Scalar T] [Host H T] in
/-- Ending keeps the number of parts. -/
theorem length_finishAll (parts : List (Condition T H)) (h : H) :
    (finishAll parts h).1.length = parts.length := by
  induction parts generalizing h with
  | nil => simp [finishAll]
  | cons c rest ih => simp [finishAll, ih]

end Condition

end Cueflow
