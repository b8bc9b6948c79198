import Cueflow.Player.FrameClock
import Cueflow.Player.Patrol
import Cueflow.SettingsText.Reader
/-!
# The show — both flows of the guard patrol on a frame clock

A run plays frames until both directors are idle or the frame limit is reached. In every
step the ambience is ticked before the main flow, so that the main flow sees in the same
step that the ambience has stopped.
-/

namespace Cueflow

open Patrol

/-- A run in progress. -/
structure Show where
  /-- What the flows act on. -/
  world : World
  /-- Decides how many steps a frame has. -/
  clock : FrameClock Float
  /-- Runs the ambience. -/
  ambience : Director Scene
  /-- Runs the main flow. -/
  main : Director Scene
  /-- Frames played. -/
  frames : Nat
  /-- Steps played. -/
  steps : Nat

namespace Show

/-- A show about to begin: the ambience is running and registered, the main flow is
running. -/
def opening (generator : Chance.Generator) (s : Settings) :
    Except (BuildError Float32) Show := do
  let w := World.ofGenerator generator
  let ambienceFlow ← Patrol.ambience
  let (ambience, w) := Director.idle ambienceName w
  let (ambience, w) := ambience.start ambienceFlow w
  let w := w.register ambienceName ambience.status
  let guardFlow ← Patrol.guardFlow
  let (main, w) := Director.idle "main" w
  let (main, w) := main.start guardFlow w
  return {
    world := w
    clock := .ofSettings s
    ambience
    main
    frames := 0
    steps := 0 }

/-- Whether a flow is running. -/
def isRunning (s : Show) : Bool := s.main.isRunning || s.ambience.isRunning

/-- One step: a tick of the world, of the ambience and of the main flow. -/
def step (s : Show) : Show :=
  let w := s.world.beginTick s.clock.stepDelta
  let (_, ambience, w) := s.ambience.tick w
  let (_, main, w) := s.main.tick w
  { s with world := w, ambience, main, steps := s.steps + 1 }

/-- So many steps. -/
def playSteps : Nat → Show → Show
  | 0, s => s
  | n + 1, s => playSteps n s.step

/-- One frame of this length. -/
def frame (frameTime : Float) (s : Show) : Show :=
  let (n, clock) := s.clock.advance frameTime
  let s := playSteps n { s with clock }
  { s with frames := s.frames + 1 }

/-- Frames of this length while a flow is running, at most `limit` of them. -/
def playFrames (frameTime : Float) : (limit : Nat) → Show → Show
  | 0, s => s
  | limit + 1, s =>
    if s.isRunning then playFrames frameTime limit (s.frame frameTime) else s

end Show

/-- The outcome of a run. -/
structure Summary where
  /-- Frames played. -/
  frames : Nat
  /-- Steps played. -/
  steps : Nat
  /-- Simulated seconds. -/
  elapsedTime : Float
  /-- Hand-overs of the main flow. -/
  mainTransitions : Nat
  /-- Hand-overs of the ambience. -/
  ambienceTransitions : Nat
  /-- Both flows were over before the frame limit. -/
  finished : Bool
  /-- What was on the board in the end. -/
  board : Board

/-- The outcome of a show as it stands. -/
def Show.summary (s : Show) : Summary where
  frames := s.frames
  steps := s.steps
  elapsedTime := s.world.elapsedTime
  mainTransitions := s.main.transitions
  ambienceTransitions := s.ambience.transitions
  finished := !s.isRunning
  board := s.world.board

/-- Checks the settings and plays the show to its end, with chance from this generator. -/
def Show.playOn (generator : Chance.Generator) (s : Settings) : Except PlayError Show := do
  s.check.mapError PlayError.settings
  let opening ← (Show.opening generator s).mapError PlayError.flow
  return opening.playFrames (Number.widen s.frameTime) s.maxFrames.toNat

/-- A run with these settings: chance comes from their seed, or from seed 0. -/
def Show.run (s : Settings) : Except PlayError Summary :=
  (Show.playOn (.ofSeed (s.seed.getD 0)) s).map Show.summary

/-- The board as a listing, one line for each name. -/
def Summary.listing (s : Summary) : String :=
  String.join (s.board.entries.map fun (key, value) =>
    key ++ " = " ++ Number.NumberStyle.plain.text value ++ "\n")

/-- What a run of the program prints and the status it ends with. -/
structure CommandResult where
  /-- Zero for success. -/
  exitCode : UInt8
  /-- What goes to standard output. -/
  output : String

/-- The program: settings from the file that was named, or the defaults, and the listing
of the show that they give. A failure prints nothing and ends with status 1. -/
def Show.command (settings : Except PlayError Settings) : CommandResult :=
  match settings.bind Show.run with
  | .ok summary => ⟨0, summary.listing⟩
  | .error _ => ⟨1, ""⟩

end Cueflow
