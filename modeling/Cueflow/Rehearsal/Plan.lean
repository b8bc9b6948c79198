import Cueflow.Rehearsal.Cue
import Cueflow.Schedule.Event
/-!
# Plans — flows as data

A plan describes a flow before it is built: its events with their behaviour as cues, its
conditions, its logic and its targets. A plan may name another one; names are looked up
when the plan is built, so that plans can go round in a circle as long as one link of it
is built on demand.
-/

namespace Cueflow.Rehearsal

/-- What a planned event does. -/
inductive ActionPlan where
  /-- Runs cues once. -/
  | call (cues : List Cue)
  /-- Runs cues with its progress. -/
  | span (cues : List Cue)
  /-- Stops the timeline. -/
  | exitState
  /-- Journals all callbacks. It answers its trigger with `status`, and its updates from
  the script, or with an exit from a certain time on, or when its time is up. -/
  | custom (id : String) (onTrigger : List Cue) (status : EventStatus)
      (onUpdate : List Cue) (script : List EventStatus) (exitAt : Option Float32)
      (onEnd : List Cue)
  /-- Journals its trigger and answers it with `status`. -/
  | pulse (id : String) (onTrigger : List Cue) (status : EventStatus)

/-- A planned event. -/
structure EventPlan where
  /-- When it starts. -/
  time : Float32
  /-- How long it lasts. -/
  duration : Float32
  /-- Shown instead of the kind of action. -/
  label : Option String
  /-- What it does. -/
  action : ActionPlan

/-- A planned condition. -/
inductive ConditionPlan where
  /-- A wait of a time from a range. -/
  | after (min max : Float32)
  /-- A wait of one length. -/
  | fixed (seconds : Float32)
  /-- A predicate that journals, runs cues and then answers. -/
  | predicate (name : String) (probe : Probe) (onEval : List Cue) (script : List Bool)
  /-- A predicate that only looks. -/
  | bound (name : String) (probe : Probe)
  /-- A named machine is running. -/
  | dependency (name : String)
  /-- Every part holds. -/
  | all (parts : List ConditionPlan)
  /-- Always holds. -/
  | always
  /-- Journals all callbacks and runs cues in each. -/
  | custom (name : String) (probe : Probe) (script : List Bool)
      (onStart onEval onEnd : List Cue)
  /-- An author's condition that only looks. -/
  | bare (probe : Probe)

/-- Planned background logic. -/
structure LogicPlan where
  /-- Shown in diagnostics. -/
  label : String
  /-- Runs when the junction starts. -/
  start : List Cue
  /-- Runs at every step. -/
  update : List Cue
  /-- Runs when the junction is over. -/
  finish : List Cue

mutual

/-- A planned flow. -/
inductive FlowPlan where
  /-- A timeline; one whose events are not given is empty. -/
  | timeline (name : String) (events : Option (List EventPlan)) (target : Option TargetPlan)
  /-- A junction. -/
  | junction (name : String) (logic : List LogicPlan) (branches : List BranchPlan)
  /-- A countdown of steps. -/
  | script (name : String) (left : Nat) (target : TargetPlan)
  /-- The plan of this name. -/
  | named (name : String)

/-- A planned target. -/
inductive TargetPlan where
  /-- The end of the flow. -/
  | stop
  /-- A flow that is built with this one. -/
  | goto (flow : FlowPlan)
  /-- A flow that is built on demand, after some cues. -/
  | build (flow : FlowPlan) (cues : List Cue)

/-- A planned branch. -/
inductive BranchPlan where
  /-- The condition, whether it is to hold, where to go, and the label if not the kind of
  condition. -/
  | mk (condition : ConditionPlan) (invert : Bool) (target : TargetPlan)
      (label : Option String)

end

instance : Inhabited ConditionPlan := ⟨.always⟩

instance : Inhabited FlowPlan := ⟨.timeline "" none none⟩

instance : Inhabited TargetPlan := ⟨.stop⟩

instance : Inhabited BranchPlan := ⟨.mk .always false .stop none⟩

end Cueflow.Rehearsal
