import Cueflow.Flow.Director
import Cueflow.World.Basic
/-!
# The guard patrol

Two flows share a world. *Ambience* is one long span. The main flow fades the lights in
and then patrols, with noise rising and the guard tiring, until the guard is down
(victory), the noise has been high for a while (alarm), or the ambience is over (the
end). The alarm stops early, so that its reinforcements never come.
-/

namespace Cueflow.Patrol

/-- Flows of the show: nothing is built on demand. -/
abbrev Scene := Flow Float32 World Empty

/-- Writes a number on the board. -/
def set (key : String) (value : Float32) : World → World :=
  World.onBoard fun b => b.insert key value

/-- Adds to a number on the board. -/
def add (key : String) (amount : Float32) : World → World :=
  World.onBoard fun b => (b.add key amount).2

/-- The name of the ambience, as a flow and as a machine. -/
def ambienceName : String := "ambience"

/-- Lights off, a fade over one second, and then a guard. -/
def introEvents : List (Event Float32 World) :=
  [(Event.call 0 (set "light" 0)).withLabel "lights_off",
    (Event.span 0 1 (set "light")).withLabel "fade_in",
    (Event.call 1 (set "guard_hp" 3)).withLabel "spawn_guard"]

/-- Fades the lights in and gives the guard its health. -/
def intro : Except (BuildError Float32) (Timeline Float32 World) :=
  Timeline.ofEvents "intro" introEvents

/-- A siren of two seconds, an exit before its end, and reinforcements after the exit. -/
def alarmEvents : List (Event Float32 World) :=
  [(Event.call 0 (set "alarm" 1)).withLabel "raise_alarm",
    (Event.span 0 2 (set "siren")).withLabel "siren",
    (Event.exitState 0.5).withLabel "cut",
    (Event.call 1 (set "reinforcements" 1)).withLabel "reinforcements"]

/-- Sounds the alarm; the exit cuts the siren short. -/
def alarm : Except (BuildError Float32) (Timeline Float32 World) :=
  Timeline.ofEvents "alarm" alarmEvents

/-- The one event of victory. -/
def victoryEvents : List (Event Float32 World) :=
  [(Event.call 0 (set "victory" 1)).withLabel "victory"]

/-- Declares victory. -/
def victory : Except (BuildError Float32) (Timeline Float32 World) :=
  Timeline.ofEvents "victory" victoryEvents

/-- The noise rises while the guard patrols. -/
def noise : Background World where
  start := set "noise" 0
  update w := add "noise" (w.deltaTime * 10) w
  finish w := w

/-- The guard tires while it patrols. -/
def stamina : Background World :=
  .ofUpdate fun w => add "guard_hp" (-w.deltaTime * 0.5) w

/-- The guard has no health left. -/
def guardDown : Condition Float32 World :=
  .bound "guard_down" fun w => decide (Board.get w.board "guard_hp" ≤ 0)

/-- The noise is high. -/
def noisy : Condition Float32 World :=
  .bound "noisy" fun w => decide (15 ≤ Board.get w.board "noise")

/-- A playback of a timeline as a part of the show. -/
def play (t : Timeline Float32 World) : Playback Float32 World Empty Scene := .ofTimeline t

/-- Victory, once the guard is down. -/
def downBranch (victory : Timeline Float32 World) : Branch Float32 World Empty Scene :=
  (Branch.when guardDown (.goto (.playback (play victory)))).withLabel "guard_down"

/-- The alarm, once a short wait has passed and it is noisy. -/
def alarmBranch (wait : Wait Float32) (alarm : Timeline Float32 World) :
    Branch Float32 World Empty Scene :=
  (Branch.when (.all [.wait wait, noisy]) (.goto (.playback (play alarm)))).withLabel "alarm"

/-- The end, once the ambience is over. -/
def overBranch (ambience : Dependency) : Branch Float32 World Empty Scene :=
  (Branch.whenNot (.dependency ambience) .stop).withLabel "ambience_over"

/-- The ways on from the patrol; the first of them that is open wins. -/
def patrolBranches (wait : Wait Float32) (ambience : Dependency)
    (alarm victory : Timeline Float32 World) : List (Branch Float32 World Empty Scene) :=
  [downBranch victory, alarmBranch wait alarm, overBranch ambience]

/-- Patrols until one of the branches is open. -/
def patrol : Except (BuildError Float32) (Junction Float32 World Empty Scene) := do
  let wait ← Wait.between 0.5 1
  let alarm ← alarm
  let victory ← victory
  return .ofBranches "patrol" [noise, stamina]
    (patrolBranches wait (.on ambienceName) alarm victory)

/-- The intro and then the patrol. -/
def guardFlow : Except (BuildError Float32) Scene := do
  let patrol ← patrol
  let intro ← intro
  return .playback ((play intro).andThen (.goto (.junction patrol)))

/-- A single span of four seconds. -/
def ambienceEvents : List (Event Float32 World) :=
  [(Event.span 0 4 (set ambienceName)).withLabel "wind"]

/-- The wind for as long as it lasts. -/
def ambience : Except (BuildError Float32) Scene := do
  let t ← Timeline.ofEvents ambienceName ambienceEvents
  return .playback (play t)

end Cueflow.Patrol
