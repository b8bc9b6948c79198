/-!
# Targets — where a flow goes next

A part of a flow that ends resolves its target into the next thing to run, its
*continuation*. A target hands over a continuation that was prepared beforehand, or
names one that is built on demand by its key, or is the end of the flow. Keys are what
lets a flow go round for ever: the continuation that a key stands for may hold the same
key again.
-/

namespace Cueflow

/-- Building on demand: what a key stands for. Building may act on the host, and may
come to nothing. -/
class Builder (K H C : Type) where
  /-- Builds the continuation that the key stands for. -/
  build : K → H → Option C × H

/-- Where to go next. -/
inductive Target (K C : Type) where
  /-- Nowhere: the flow ends. -/
  | stop
  /-- A prepared continuation, until it has been handed over. -/
  | handOver (next : Option C)
  /-- A continuation built anew each time. -/
  | build (key : K)

namespace Target

variable {K H C : Type}

/-- The target that goes on with `next`. -/
def goto (next : C) : Target K C := .handOver (some next)

/-- The continuation, and the target as it is afterwards: a prepared continuation can
be handed over once. -/
def resolve [Builder K H C] : Target K C → H → Option C × Target K C × H
  | .stop, h => (none, .stop, h)
  | .handOver next, h => (next, .handOver none, h)
  | .build key, h =>
    let (next, h) := Builder.build key h
    (next, .build key, h)

variable [Builder K H C]

@[simp] theorem resolve_stop (h : H) :
    (Target.stop : Target K C).resolve h = (none, .stop, h) := rfl

@[simp] theorem resolve_handOver (next : Option C) (h : H) :
    (Target.handOver next : Target K C).resolve h = (next, .handOver none, h) := rfl

/-- A prepared continuation is handed over as it is, without a trace on the host. -/
@[simp] theorem resolve_goto (next : C) (h : H) :
    (goto next : Target K C).resolve h = (some next, .handOver none, h) := rfl

/-- What was handed over is not handed over again. -/
theorem resolve_resolve_goto (next : C) (h h' : H) :
    ((goto next : Target K C).resolve h).2.1.resolve h' = (none, .handOver none, h') := rfl

end Target

/-- The outcome of one step. -/
inductive StepResult (C : Type) where
  /-- Still running; step again at the next tick. -/
  | suspend
  /-- Over; the continuation runs next, or nothing does. -/
  | done (next : Option C)

namespace StepResult

variable {C : Type}

/-- Whether the step left its flow running. -/
def isSuspend : StepResult C → Bool
  | .suspend => true
  | .done _ => false

/-- Whether the step ended its flow. -/
def isDone : StepResult C → Bool
  | .suspend => false
  | .done _ => true

/-- The continuation of a step that ended its flow. -/
def next? : StepResult C → Option C
  | .suspend => none
  | .done next => next

/-- A step either suspends or ends its flow. -/
theorem isDone_eq_not_isSuspend (r : StepResult C) : r.isDone = !r.isSuspend := by
  cases r <;> rfl

/-- Only a step that ends its flow has a continuation. -/
theorem isDone_of_next? {r : StepResult C} {c : C} (h : r.next? = some c) :
    r.isDone = true := by
  cases r with
  | suspend => simp [next?] at h
  | done next => rfl

end StepResult

/-- Keys of flows that build nothing on demand: there are none. -/
instance {H C : Type} : Builder Empty H C where
  build key _ := nomatch key

end Cueflow
