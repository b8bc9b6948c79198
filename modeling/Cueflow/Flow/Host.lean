/-!
# Hosts — what a flow may ask of the program that drives it

A flow owns neither a clock nor a source of chance. It runs on a `Host`, an arbitrary
state that answers four questions: how much time passed since the last tick, a number
from a range, the handle of a named machine, and whether the machine behind a handle is
running. Callbacks are functions from host to host, so whatever memory a callback has of
its own is part of the host as well.

Directors report on themselves through the same handles; a host that keeps directors is
also a `StatusBoard`.
-/

namespace Cueflow

/-- A reference to the running status of some machine. -/
structure Handle where
  /-- Where the host keeps the status. -/
  index : Nat
deriving DecidableEq, Repr

/-- What drives flows, with times measured in `T`. -/
class Host (H : Type) (T : outParam Type) where
  /-- The time since the previous tick. -/
  deltaTime : H → T
  /-- A number from a range, given by its lower and upper bound. -/
  draw : T → T → H → T × H
  /-- The handle of the machine with this name, if there is one. -/
  lookup : String → H → Option Handle × H
  /-- Whether the machine behind a handle is running at the moment. -/
  isRunning : Handle → H → Bool

/-- A host on which running statuses are posted. -/
class StatusBoard (H : Type) where
  /-- A handle not in use so far, for a machine that is not running. -/
  newStatus : H → Handle × H
  /-- Posts whether the machine behind a handle is running. -/
  post : Handle → Bool → H → H

end Cueflow
