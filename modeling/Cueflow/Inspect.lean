import Cueflow.Number.Text
import Cueflow.Text.Quoted
import Cueflow.Schedule.Timeline
import Cueflow.Choice.Junction
/-!
# Inspection texts

Timelines, conditions and branches can be shown for debugging: the name of the kind of
thing, its fields by name in braces, numbers in the debug style and texts quoted. The
identities of events are not shown.
-/

namespace Cueflow.Inspect

/-- A text in quotes, with apostrophes as they are. -/
def quoted (s : String) : String := Text.quoted false s

/-- A number in the debug style. -/
def number (x : Float32) : String := Number.NumberStyle.debug.text x

/-- The name of a structure with its fields. -/
def fields (name : String) (fs : List (String × String)) : String :=
  name ++ " \x7b " ++ String.intercalate ", " (fs.map fun f => f.1 ++ ": " ++ f.2) ++ " \x7d"

/-- Texts in brackets. -/
def bracketed (items : List String) : String :=
  "[" ++ String.intercalate ", " items ++ "]"

variable {H K C : Type}

/-- An event, without its identity. -/
def event (e : Event Float32 H) : String :=
  fields "TimelineEvent"
    [("id", "EventId(_)"), ("label", quoted e.label), ("time", number e.time),
      ("duration", number e.duration), ("kind", quoted e.action.kind)]

/-- A timeline with its events. -/
def timeline (t : Timeline Float32 H) : String :=
  fields "Timeline" [("name", quoted t.name), ("events", bracketed (t.events.map event))]

mutual

/-- A condition with its parts. -/
def condition : Condition Float32 H → String
  | .wait w =>
    fields "AfterTime"
      [("min", number w.min), ("max", number w.max), ("remaining", number w.remaining)]
  | .predicate label _ => fields "PredicateCall" [("label", quoted label)]
  | .dependency d =>
    fields "DependencyRunning"
      [("name", quoted d.name), ("resolved", toString d.isResolved)]
  | .always => "default"
  | .all parts => "And(" ++ bracketed (conditions parts) ++ ")"
  | .custom _ => "custom"

/-- Conditions in order. -/
def conditions : List (Condition Float32 H) → List String
  | [] => []
  | c :: rest => condition c :: conditions rest

end

/-- A branch, without its target. -/
def branch (b : Branch Float32 H K C) : String :=
  fields "Branch"
    [("label", quoted b.label), ("invert", toString b.invert),
      ("condition", condition b.condition)]

/-- The outcome of a step, with the name of the continuation. -/
def stepResult (name : C → String) : StepResult C → String
  | .suspend => "Suspend"
  | .done none => "Done(None)"
  | .done (some next) => "Done(" ++ name next ++ ")"

end Cueflow.Inspect
