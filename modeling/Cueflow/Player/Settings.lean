import Cueflow.Flow.BuildError
/-!
# Settings — how a run is played

The settings of a run, their defaults, and the check that a clock can run with them. The
check goes through the fields in order and names the first that is out of range.
-/

namespace Cueflow

/-- How a run is played. -/
structure Settings where
  /-- The length of a simulation step in seconds. -/
  fixedTimestep : Float32 := 1 / 60
  /-- The length of a simulated frame in seconds. -/
  frameTime : Float32 := 1 / 30
  /-- How fast simulated time passes. -/
  timeScale : Float32 := 1
  /-- The most steps played in one frame. -/
  maxStepsPerFrame : UInt32 := 8
  /-- Where the stream of chance starts; not reproducible if absent. -/
  seed : Option UInt64 := none
  /-- The run stops after this many frames. -/
  maxFrames : UInt64 := 600
  /-- What is logged. -/
  logFilter : String := "ordoplay_flow_player=info,ordoplay_state_flow=debug"

/-- The settings with this seed, unless they name one. -/
def Settings.seededBy (s : Settings) (seed : UInt64) : Settings :=
  { s with seed := some (s.seed.getD seed) }

/-- Which setting is out of range. -/
inductive SettingsFault where
  /-- The simulation step is not finite or not above 0. -/
  | fixedTimestep (value : Float32)
  /-- The frame length is not finite or below 0. -/
  | frameTime (value : Float32)
  /-- The time scale is not finite. -/
  | timeScale
  /-- No step is allowed in a frame. -/
  | maxStepsPerFrame
  /-- No frame is allowed. -/
  | maxFrames

/-- The message for a reader. -/
def SettingsFault.message : SettingsFault → String
  | .fixedTimestep value =>
    "fixed_timestep must be positive, got " ++ Number.NumberStyle.plain.text value
  | .frameTime value =>
    "frame_time must not be negative, got " ++ Number.NumberStyle.plain.text value
  | .timeScale => "time_scale must be finite"
  | .maxStepsPerFrame => "max_steps_per_frame must be at least 1"
  | .maxFrames => "max_frames must be at least 1"

/-- The first setting that is out of range. -/
def Settings.check (s : Settings) : Except SettingsFault Unit :=
  if !s.fixedTimestep.isFinite || decide (s.fixedTimestep ≤ 0) then
    .error (.fixedTimestep s.fixedTimestep)
  else if !s.frameTime.isFinite || decide (s.frameTime < 0) then
    .error (.frameTime s.frameTime)
  else if !s.timeScale.isFinite then .error .timeScale
  else if s.maxStepsPerFrame = 0 then .error .maxStepsPerFrame
  else if s.maxFrames = 0 then .error .maxFrames
  else .ok ()

/-- Why a run could not be played. -/
inductive PlayError where
  /-- The settings file cannot be read as text. -/
  | unreadable
  /-- The settings text is not well formed. -/
  | malformed
  /-- A setting is out of range. -/
  | settings (fault : SettingsFault)
  /-- A flow was rejected. -/
  | flow (error : BuildError Float32)

/-- The message for a reader. -/
def PlayError.message : PlayError → String
  | .unreadable => "IO error: the settings file cannot be read"
  | .malformed => "Config parse error: the settings are not well formed"
  | .settings fault => "Invalid config: " ++ fault.message
  | .flow error => "Flow configuration error: " ++ error.message

end Cueflow
