import Cueflow.Flow.Basic
import Cueflow.Flow.Host
/-!
# Directors — one chain of interpreters, one step a tick

A director holds the interpreter that is running and steps it once a tick. When a step
ends it, the continuation it handed back is installed and runs from the next tick on.
Whether anything is installed is posted on the host under the director's handle, after
every change, for other flows to depend on.
-/

namespace Cueflow

/-- Runs a chain of interpreters. -/
structure Director (C : Type) where
  /-- Shown in diagnostics. -/
  name : String
  /-- What is running. -/
  current : Option C
  /-- Where the director's running status is posted. -/
  status : Handle
  /-- Hand-overs so far, the final one to nothing included. -/
  transitions : Nat
  /-- Ticks in which something was stepped. -/
  ticks : Nat

/-- What a tick of a director came to. -/
structure Tick (C : Type) where
  /-- Whether something is running after the tick. -/
  running : Bool
  /-- What was stepped, as the step left it. -/
  stepped : Option C

namespace Director

variable {C H : Type} [StatusBoard H]

/-- An idle director, and the host on which its status is posted from now on. -/
def idle (name : String) (h : H) : Director C × H :=
  let (status, h) := StatusBoard.newStatus h
  (⟨name, none, status, 0, 0⟩, h)

/-- Whether anything is running. -/
def isRunning (d : Director C) : Bool := d.current.isSome

/-- Makes `next` the running interpreter and posts whether there is one. -/
def install (d : Director C) (next : Option C) (h : H) : Director C × H :=
  ({ d with current := next }, StatusBoard.post d.status next.isSome h)

/-- Runs `flow` instead of whatever was running. -/
def start (d : Director C) (flow : C) (h : H) : Director C × H := d.install (some flow) h

/-- Replaces what is running without any clean-up. -/
def redirect (d : Director C) (next : Option C) (h : H) : Director C × H := d.install next h

variable [Interpreter C H]

/-- The name of what is running. -/
def currentName (d : Director C) : Option String :=
  d.current.map fun c => Interpreter.name (H := H) c

/-- Steps what is running once. -/
def tick (d : Director C) (h : H) : Tick C × Director C × H :=
  match d.current with
  | none => (⟨false, none⟩, d, h)
  | some c =>
    let d := { d with ticks := d.ticks + 1 }
    match Interpreter.step c h with
    | (.suspend, c, h) => (⟨true, some c⟩, { d with current := some c }, h)
    | (.done next, c, h) =>
      let (d, h) := { d with transitions := d.transitions + 1 }.install next h
      (⟨d.isRunning, some c⟩, d, h)

/-- Stops what is running and cleans up after it; the answer holds it as it is then. -/
def abort (d : Director C) (h : H) : Option C × Director C × H :=
  match d.current with
  | none => (none, d, h)
  | some c =>
    let (c, h) := Interpreter.abort c h
    let (d, h) := d.install none h
    (some c, d, h)

/-- An idle director leaves the host alone. -/
theorem tick_of_idle {d : Director C} (hd : d.current = none) (h : H) :
    d.tick h = (⟨false, none⟩, d, h) := by
  simp [tick, hd]

/-- Aborting an idle director changes nothing. -/
theorem abort_of_idle {d : Director C} (hd : d.current = none) (h : H) :
    d.abort h = (none, d, h) := by
  simp [abort, hd]

/-- A tick reports what is true of the director afterwards. -/
theorem running_tick (d : Director C) (h : H) :
    (d.tick h).1.running = (d.tick h).2.1.isRunning := by
  unfold tick
  split
  · next hd => simp [isRunning, hd]
  · dsimp only
    split <;> rfl

end Director

end Cueflow
