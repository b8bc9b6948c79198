import Cueflow.Player.Settings
import Cueflow.Text.Quoted
/-!
# Writing a settings text

Settings are written one field to a line in the order of the fields, with the structure
around them. Numbers are written without an exponent and whole ones end in `.0`; texts
are quoted, apostrophes escaped like quotes.
-/

namespace Cueflow.SettingsText

/-- An optional seed. -/
def seedText : Option UInt64 → String
  | none => "None"
  | some n => s!"Some({n.toNat})"

/-- The fields by name, in order, with their values as texts. -/
def fieldTexts (s : Settings) : List (String × String) :=
  let number := Number.NumberStyle.setting.text
  [("fixed_timestep", number s.fixedTimestep),
    ("frame_time", number s.frameTime),
    ("time_scale", number s.timeScale),
    ("max_steps_per_frame", toString s.maxStepsPerFrame.toNat),
    ("seed", seedText s.seed),
    ("max_frames", toString s.maxFrames.toNat),
    ("log_filter", Text.quoted true s.logFilter)]

end SettingsText

/-- The settings as a text. -/
def Settings.render (s : Settings) : String :=
  let lines := (SettingsText.fieldTexts s).map fun (name, value) => s!"    {name}: {value},\n"
  "(\n" ++ String.join lines ++ ")"

end Cueflow
