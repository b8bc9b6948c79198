import Cueflow.Player.Settings
import Cueflow.SettingsText.Skip
/-!
# Reading a settings text

A settings text is an optional list of extensions, an optional name that must be the
name of the settings, and fields in parentheses. Every field may be missing and keeps
its default; a field may be given once; fields of other names are skipped. Nothing but
blanks may follow.
-/

namespace Cueflow.SettingsText

/-- The fields that a text gives. -/
structure Fields where
  fixedTimestep : Option Float32 := none
  frameTime : Option Float32 := none
  timeScale : Option Float32 := none
  maxStepsPerFrame : Option UInt32 := none
  seed : Option (Option UInt64) := none
  maxFrames : Option UInt64 := none
  logFilter : Option String := none

/-- The settings with these fields, and defaults for the others. -/
def Fields.settings (f : Fields) : Settings :=
  let d : Settings := {}
  { fixedTimestep := f.fixedTimestep.getD d.fixedTimestep
    frameTime := f.frameTime.getD d.frameTime
    timeScale := f.timeScale.getD d.timeScale
    maxStepsPerFrame := f.maxStepsPerFrame.getD d.maxStepsPerFrame
    seed := f.seed.getD d.seed
    maxFrames := f.maxFrames.getD d.maxFrames
    logFilter := f.logFilter.getD d.logFilter }

/-- Takes the value of a field that has none so far. -/
def once {α : Type} (seen : Option α) (value : Reader α) : Reader (Option α) := do
  match seen with
  | some _ => failure
  | none => return some (← value)

/-- Takes an optional seed. Where the word for an option may be left out, it may also
stand without parentheses. -/
def seed (e : Extensions) : Reader (Option UInt64) := do
  if ← word? "None" then return none
  let wrapped ← if ← word? "Some" then do blanks; char? '(' else pure false
  if wrapped then
    blanks
    let n ← unsigned 64
    let _ ← comma?
    char ')'
    return some (UInt64.ofNat n)
  else if e.implicitSome then return some (UInt64.ofNat (← unsigned 64))
  else failure

/-- How deep the value of an unknown field may nest. -/
def unknownDepth : Nat := 126

/-- Takes the value of the field with this name. -/
def field (e : Extensions) (f : Fields) : String → Reader Fields
  | "fixed_timestep" =>
    return { f with fixedTimestep := ← once f.fixedTimestep float }
  | "frame_time" => return { f with frameTime := ← once f.frameTime float }
  | "time_scale" => return { f with timeScale := ← once f.timeScale float }
  | "max_steps_per_frame" =>
    return { f with
      maxStepsPerFrame := ← once f.maxStepsPerFrame (UInt32.ofNat <$> unsigned 32) }
  | "seed" => return { f with seed := ← once f.seed (seed e) }
  | "max_frames" =>
    return { f with maxFrames := ← once f.maxFrames (UInt64.ofNat <$> unsigned 64) }
  | "log_filter" => return { f with logFilter := ← once f.logFilter text }
  | _ => do
    skipValue e unknownDepth
    return f

/-- Takes the fields and the closing parenthesis; at most `fuel` fields. -/
def fields (e : Extensions) : (fuel : Nat) → Fields → Reader Fields
  | 0, _ => failure
  | fuel + 1, f => do
    blanks
    if ← char? ')' then return f
    let key ← name
    colon
    let f ← field e f key
    if ← comma? then fields e fuel f
    else
      char ')'
      return f

/-- Takes the name in front of the fields, which may be missing. -/
def structName (e : Extensions) : Reader Unit := do
  match ← peek? with
  | some c =>
    if Text.continuesName c then
      if (← name) != "PlayerConfig" then failure
    else if e.explicitNames then failure
  | none => failure

/-- Takes a whole settings text. -/
def document : Reader Settings := do
  blanks
  let e ← extensions (← get).length .none
  structName e
  blanks
  char '('
  let f ← fields e ((← get).length + 1) {}
  blanks
  if (← get).isEmpty then return f.settings else failure

end SettingsText

open SettingsText

/-- Reads settings from a text, without checking them. -/
def Settings.read? (source : String) : Option Settings :=
  (document.run source.toList).map Prod.fst

/-- Reads settings from a text and checks them. -/
def Settings.parse (source : String) : Except PlayError Settings :=
  match Settings.read? source with
  | none => .error .malformed
  | some s =>
    match s.check with
    | .error fault => .error (.settings fault)
    | .ok () => .ok s

/-- Reads settings from the bytes of a file, if it could be opened. -/
def Settings.load (file : Option ByteArray) : Except PlayError Settings :=
  match file.bind String.fromUTF8? with
  | none => .error .unreadable
  | some source => Settings.parse source

end Cueflow
