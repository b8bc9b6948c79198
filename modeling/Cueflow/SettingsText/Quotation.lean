import Cueflow.SettingsText.Numeral
/-!
# Quotations of a settings text

Texts are quoted, with escapes, or raw; characters and single bytes stand between single
quotes. The bytes of a text must spell characters, those of a text of bytes need not. A
text whose end is missing is told apart from one that is malformed otherwise: who looks
ahead gives up at the first, and may read on at the second.
-/

namespace Cueflow.SettingsText

/-- How a quotation at the front of a text ends. -/
inductive Quotation (α : Type) where
  /-- It is closed, and `rest` follows it. -/
  | closed (value : α) (rest : List Char)
  /-- Its end is missing. -/
  | unclosed
  /-- It does not begin, or is malformed before its end. -/
  | malformed

namespace Quotation

variable {α β : Type}

/-- The quotation with its value read on, which may fail. -/
def filterMap (f : α → Option β) : Quotation α → Quotation β
  | .closed value rest =>
    match f value with
    | some value => .closed value rest
    | none => .malformed
  | .unclosed => .unclosed
  | .malformed => .malformed

/-- Takes a quotation. -/
def take (read : List Char → Quotation α) : Reader α := fun cs =>
  match read cs with
  | .closed value rest => some (value, rest)
  | _ => none

/-- Passes over a quotation if one is at the front; one whose end is missing cannot be
passed. -/
def pass (read : List Char → Quotation α) : Reader Unit := fun cs =>
  match read cs with
  | .closed _ rest => some ((), rest)
  | .unclosed => none
  | .malformed => some ((), cs)

/-- What cannot be passed cannot be taken. -/
theorem take_eq_none_of_pass {read : List Char → Quotation α} {cs : List Char}
    (h : pass read cs = none) : take read cs = none := by
  unfold pass at h
  unfold take
  split at h
  · exact absurd h (by simp)
  next hread => rw [hread]
  · exact absurd h (by simp)

end Quotation

/-- Takes `count` digits in base sixteen. -/
def hexDigits : (count : Nat) → (acc : Nat) → Reader Nat
  | 0, acc => return acc
  | count + 1, acc => do
    match digitValue? (← anyChar) with
    | some d => hexDigits count (16 * acc + d)
    | none => failure

/-- Takes up to `limit` digits in base sixteen and the brace after them; there must be
one digit. -/
def bracedHex : (limit : Nat) → (acc : Nat) → (seen : Bool) → Reader Nat
  | 0, acc, seen => do
    char '\x7d'
    if seen then return acc else failure
  | limit + 1, acc, seen => do
    if ← char? '\x7d' then
      if seen then return acc else failure
    else
      match digitValue? (← anyChar) with
      | some d => bracedHex limit (16 * acc + d) true
      | none => failure

/-- The text that bytes spell, if they do. -/
def spelled? (bytes : List UInt8) : Option String := String.fromUTF8? ⟨bytes.toArray⟩

/-- Takes the escapes of at most `more` bytes that are missing after `bytes` to spell a
character. -/
def spellOut : (more : Nat) → (bytes : List UInt8) → Reader (List UInt8)
  | 0, bytes => if (spelled? bytes).isSome then return bytes else failure
  | more + 1, bytes => do
    if (spelled? bytes).isSome then return bytes
    else if ← string? "\\x" then
      spellOut more (bytes ++ [UInt8.ofNat (← hexDigits 2 0)])
    else failure

/-- Takes what follows the backslash of an escape and gives the bytes that it stands
for; `byByte` completes an escape that names a byte. -/
def escape (byByte : UInt8 → Reader (List UInt8)) : Reader (List UInt8) := do
  match ← anyChar with
  | '\'' => return [39]
  | '"' => return [34]
  | '\\' => return [92]
  | 'n' => return [10]
  | 'r' => return [13]
  | 't' => return [9]
  | '0' => return [0]
  | 'x' => byByte (UInt8.ofNat (← hexDigits 2 0))
  | 'u' =>
    char '\x7b'
    let n ← bracedHex 6 0 false
    if n.isValidChar then return (String.singleton (Char.ofNat n)).toUTF8.toList
    else failure
  | _ => failure

/-- Takes an escape in a text: a character may take up to four of them, one for each of
its bytes. -/
def textEscape : Reader (List UInt8) := escape fun b => spellOut 3 [b]

/-- Takes an escape that is a character on its own. -/
def charEscape : Reader (List UInt8) := escape fun b => spellOut 0 [b]

/-- Takes an escape in a text of bytes. -/
def byteEscape : Reader (List UInt8) := escape fun b => return [b]

/-- Reads the rest of a quoted text, of at most `fuel` characters and escapes, after the
bytes in `acc`, which are in reverse. Where no quote is left its end is missing, even if
an escape is malformed too. -/
def quoted (escape : Reader (List UInt8)) : (fuel : Nat) → (acc : List UInt8) → List Char →
    Quotation (List UInt8)
  | 0, _, _ => .unclosed
  | _ + 1, _, [] => .unclosed
  | _ + 1, acc, '"' :: cs => .closed acc.reverse cs
  | fuel + 1, acc, '\\' :: cs =>
    match escape.run cs with
    | some (bytes, rest) => quoted escape fuel (bytes.reverse ++ acc) rest
    | none => if cs.contains '"' then .malformed else .unclosed
  | fuel + 1, acc, c :: cs =>
    quoted escape fuel ((String.singleton c).toUTF8.toList.reverse ++ acc) cs

/-- The characters up to the first place where `ending` stands, and what follows it. -/
def splitAtEnding (ending : List Char) : List Char → Option (List Char × List Char)
  | [] => none
  | c :: cs =>
    if ending.isPrefixOf (c :: cs) then some ([], (c :: cs).drop ending.length)
    else (splitAtEnding ending cs).map fun (taken, rest) => (c :: taken, rest)

/-- Reads a raw text after its mark: it ends at a quote with as many hash signs as it
began with. -/
def raw (cs : List Char) : Quotation String :=
  match cs.span (· == '#') with
  | (hashes, '"' :: rest) =>
    match splitAtEnding ('"' :: hashes) rest with
    | some (taken, rest) => .closed (String.ofList taken) rest
    | none => .unclosed
  | _ => .malformed

/-- Reads a text. -/
def textQuotation : List Char → Quotation String
  | '"' :: cs => (quoted textEscape (cs.length + 1) [] cs).filterMap spelled?
  | 'r' :: cs => raw cs
  | _ => .malformed

/-- Reads a text of bytes. -/
def bytesQuotation : List Char → Quotation Unit
  | 'b' :: '"' :: cs => (quoted byteEscape (cs.length + 1) [] cs).filterMap fun _ => some ()
  | 'b' :: 'r' :: cs => (raw cs).filterMap fun _ => some ()
  | _ => .malformed

/-- Takes a text. -/
def text : Reader String := Quotation.take textQuotation

/-- Takes a character in single quotes. -/
def character : Reader Unit := do
  char '\''
  match ← anyChar with
  | '\\' => let _ ← charEscape
  | _ => pure ()
  char '\''

/-- Takes one byte in single quotes, after its mark: a character of ASCII, or an escape that
does not name a character by its number. -/
def byte : Reader Unit := do
  char '\''
  match ← anyChar with
  | '\\' => if ← isNext 'u' then failure else let _ ← byteEscape
  | c => if c.toNat < 0x80 then pure () else failure
  char '\''

end Cueflow.SettingsText
