import Cueflow.SettingsText.Token
/-!
# Extensions of a settings text

A settings text may ask its reader to be more lenient, or stricter: lists of extensions
stand in front of the settings, each between parentheses and brackets after a hash sign.
-/

namespace Cueflow.SettingsText

/-- What a text asks of its reader. -/
structure Extensions where
  /-- An optional value may be written without `Some`, or without its parentheses. -/
  implicitSome : Bool
  /-- The name in front of the fields must be there. -/
  explicitNames : Bool
  /-- The parentheses of an option may be at once those of the structure in it. -/
  unwrapVariants : Bool
deriving DecidableEq, Repr

namespace Extensions

/-- No extension. -/
def none : Extensions := ⟨false, false, false⟩

/-- The extensions with the one of this name added; other names are refused. Settings are
not wrapped in a structure of one value, so that unwrapping such structures changes
nothing. -/
def add (e : Extensions) : String → Option Extensions
  | "implicit_some" => some { e with implicitSome := true }
  | "explicit_struct_names" => some { e with explicitNames := true }
  | "unwrap_variant_newtypes" => some { e with unwrapVariants := true }
  | "unwrap_newtypes" => some e
  | _ => .none

end Extensions

/-- Takes the names of extensions, at least one and at most `fuel`. -/
def extensionNames : (fuel : Nat) → Extensions → Reader Extensions
  | 0, _ => failure
  | fuel + 1, e => do
    match e.add (← name) with
    | none => failure
    | some e =>
      if ← comma? then
        match ← peek? with
        | some c => if Text.continuesName c then extensionNames fuel e else return e
        | none => return e
      else return e

/-- Takes each of these texts, with blanks after it. -/
def eachThenBlanks : List String → Reader Unit
  | [] => pure ()
  | s :: rest => do
    if ← string? s then
      blanks
      eachThenBlanks rest
    else failure

/-- Takes the lists of extensions in front of a text, at most `fuel` of them. -/
def extensions : (fuel : Nat) → Extensions → Reader Extensions
  | 0, e => return e
  | fuel + 1, e => do
    if ← isNext '#' then
      eachThenBlanks ["#", "!", "[", "enable", "("]
      let e ← extensionNames ((← get).length + 1) e
      blanks
      eachThenBlanks [")", "]"]
      extensions fuel e
    else return e

end Cueflow.SettingsText
