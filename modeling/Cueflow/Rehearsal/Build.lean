import Cueflow.Rehearsal.Part
/-!
# Building plans

A plan is built depth first in the order in which it is written, and the first thing
that is wrong with it is the answer. Each scripted behaviour gets a counter of its own
when it is built. Plans that refer to one another are followed to a depth that no
well-founded set of plans reaches.
-/

namespace Cueflow.Rehearsal

/-- Builds something on a stage, or finds out what is wrong with its plan. -/
abbrev Building := StateT Stage (Except (BuildError Float32))

/-- A counter of one's own. -/
def newCounter : Building Nat := fun s => .ok s.newCounter

/-- A planned action. -/
def ActionPlan.build : ActionPlan → Building (EventAction Float32 Stage)
  | .call cues => return .call (runCues 0 cues)
  | .span cues => return .span fun p s => runCues p cues s
  | .exitState => return .exitState
  | .custom id onTrigger status onUpdate script exitAt onEnd => do
    let counter ← newCounter
    let hex := Number.singleHex
    return .custom {
      trigger := fun s => (status, runCues 0 onTrigger (s.log s!"trigger:{id}"))
      update := fun elapsed duration s =>
        let s := s.log s!"update:{id}:{hex elapsed}:{hex duration}"
        let s := runCues elapsed onUpdate s
        match script, exitAt with
        | [], none => (.until elapsed duration, s)
        | [], some t => (if t ≤ elapsed then .exit else .until elapsed duration, s)
        | script, _ =>
          let (answer, s) := s.nextAnswer script counter
          (answer.getD .finished, s)
      close := fun s => runCues 0 onEnd (s.log s!"end:{id}") }
  | .pulse id onTrigger status =>
    return .custom (.ofTrigger fun s => (status, runCues 0 onTrigger (s.log s!"pulse:{id}")))

/-- A planned event. -/
def EventPlan.build (plan : EventPlan) : Building (Event Float32 Stage) := do
  let event := Event.make plan.time plan.duration (← plan.action.build)
  match plan.label with
  | some label => return event.withLabel label
  | none => return event

mutual

/-- A planned condition. -/
def ConditionPlan.build : ConditionPlan → Building (Condition Float32 Stage)
  | .after min max => return .wait (← Wait.between min max)
  | .fixed seconds => return .wait (← Wait.fixed seconds)
  | .predicate name probe onEval script => do
    let counter ← newCounter
    return .predicate name fun s =>
      probe.answerOr script counter (runCues 0 onEval (s.log s!"{name}:probe"))
  | .bound name probe => return .bound name probe.answer
  | .dependency name => return .dependency (.on name)
  | .all parts => return .all (← ConditionPlan.buildAll parts)
  | .always => return .always
  | .custom name probe script onStart onEval onEnd => do
    let counter ← newCounter
    return .custom {
      start := fun s => runCues 0 onStart (s.log s!"{name}:start")
      isMet := fun s =>
        probe.answerOr script counter (runCues 0 onEval (s.log s!"{name}:eval"))
      finish := fun s => runCues 0 onEnd (s.log s!"{name}:end") }
  | .bare probe => return .custom (.ofTest fun s => (probe.answer s, s))

/-- Planned conditions in order. -/
def ConditionPlan.buildAll : List ConditionPlan → Building (List (Condition Float32 Stage))
  | [] => return []
  | plan :: rest => do
    let c ← ConditionPlan.build plan
    return c :: (← ConditionPlan.buildAll rest)

end

/-- Planned background logic. -/
def LogicPlan.build (plan : LogicPlan) : Background Stage where
  start := runCues 0 plan.start
  update := runCues 0 plan.update
  finish := runCues 0 plan.finish

/-- A planned target, with a way to build the flow that it may hold. -/
def TargetPlan.buildWith (plans : List (String × FlowPlan)) (flow : FlowPlan → Building Part) :
    TargetPlan → Building (Target Recipe Part)
  | .stop => return .stop
  | .goto plan => return .goto (← flow plan)
  | .build plan cues => return .build ⟨plans, plan, cues⟩

/-- A planned branch. -/
def BranchPlan.buildWith (plans : List (String × FlowPlan)) (flow : FlowPlan → Building Part) :
    BranchPlan → Building (Branch Float32 Stage Recipe Part)
  | .mk condition invert target label => do
    let condition ← condition.build
    let target ← target.buildWith plans flow
    let branch := (Branch.when condition target).inverted invert
    match label with
    | some label => return branch.withLabel label
    | none => return branch

/-- A planned flow, with flows inside it up to this depth. -/
def FlowPlan.buildTo (plans : List (String × FlowPlan)) :
    (depth : Nat) → FlowPlan → Building Part
  | 0, plan => return .playback (.ofTimeline (.empty (nameOf plan)))
  | depth + 1, plan =>
    let flow := FlowPlan.buildTo plans depth
    match plan with
    | .timeline name events target => do
      let timeline ← match events with
        | none => pure (Timeline.empty name)
        | some events => do
          let events ← events.mapM EventPlan.build
          Timeline.ofEvents name events
      let playback := Playback.ofTimeline timeline
      match target with
      | none => return .playback playback
      | some target => return .playback (playback.andThen (← target.buildWith plans flow))
    | .junction name logic branches => do
      let branches ← branches.mapM (BranchPlan.buildWith plans flow)
      return .junction (.ofBranches name (logic.map LogicPlan.build) branches)
    | .script name left target => return .script name left (← target.buildWith plans flow)
    | .named name =>
      match plans.lookup name with
      | some plan => flow plan
      | none => return .playback (.ofTimeline (.empty name))
where
  /-- The name that stands for a plan. -/
  nameOf : FlowPlan → String
    | .timeline name _ _ => name
    | .junction name _ _ => name
    | .script name _ _ => name
    | .named name => name

/-- A depth that no set of plans reaches whose references end: texts nest less deep than
this, and each name is followed once at most. -/
def depthOf (plans : List (String × FlowPlan)) : Nat := 256 * (plans.length + 1)

/-- A planned flow. -/
def FlowPlan.build (plans : List (String × FlowPlan)) (plan : FlowPlan) : Building Part :=
  plan.buildTo plans (depthOf plans)

/-- A planned target. -/
def TargetPlan.toTarget (plans : List (String × FlowPlan)) (target : TargetPlan) :
    Building (Target Recipe Part) :=
  target.buildWith plans (FlowPlan.build plans)

/-- Building on demand is journalled, and comes to nothing if the plan is rejected. -/
instance : Builder Recipe Stage Part where
  build recipe s :=
    let s := runCues 0 recipe.cues s
    match (recipe.plan.build recipe.plans).run s with
    | .ok (part, s) => (some part, s.log s!"built:{part.name}")
    | .error e => (none, s.log s!"build failed: {e.message}")

end Cueflow.Rehearsal
