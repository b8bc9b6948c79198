import Cueflow.Text.Unprinted
/-!
# Quoted texts

A quoted text stands between double quotes. Inside it the double quote, the backslash
and the common controls are written with a backslash, and a character that would not be
printed as it is is written by number. Whether the apostrophe is escaped too is the only
choice.
-/

namespace Cueflow.Text

/-- A character of a quoted text. -/
def escaped (apostrophe : Bool) (c : Char) : List Char :=
  if c == '"' || c == '\\' || (apostrophe && c == '\'') then ['\\', c]
  else if c == '\n' then ['\\', 'n']
  else if c == '\t' then ['\\', 't']
  else if c == '\r' then ['\\', 'r']
  else if c == '\x00' then ['\\', '0']
  else if isUnprinted c then ['\\', 'u', '\x7b'] ++ Nat.toDigits 16 c.toNat ++ ['\x7d']
  else [c]

/-- A text between double quotes. -/
def quoted (apostrophe : Bool) (s : String) : String :=
  String.ofList ('"' :: s.toList.flatMap (escaped apostrophe) ++ ['"'])

/-- The end of a quoted text can be told from a quote inside it: a quote is never written
without its backslash. -/
theorem escaped_quote (apostrophe : Bool) : escaped apostrophe '"' = ['\\', '"'] := rfl

end Cueflow.Text
