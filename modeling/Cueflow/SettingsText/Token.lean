import Cueflow.Text.Letter
/-!
# Tokens of a settings text

A settings text is read from left to right. A `Reader` takes characters off the front of
the text, or fails; why it fails is not recorded, because a malformed text is one case
whatever is wrong with it. Blanks and comments may stand between any two tokens, and
block comments nest.
-/

namespace Cueflow.SettingsText

open Text (startsName continuesName)

/-- Takes something off the front of a text, or fails. -/
abbrev Reader := StateT (List Char) Option

/-- The blank characters: the white space of patterns, with its marks of direction and its
line and paragraph separators. -/
def isBlank (c : Char) : Bool :=
  c == ' ' || c == '\t' || c == '\n' || c == '\r' || c == '\x0b' || c == '\x0c' ||
    c == '\u0085' || c == '\u200e' || c == '\u200f' || c == '\u2028' || c == '\u2029'

/-- Characters of a raw name, which is marked as one. -/
def inRawName (c : Char) : Bool := continuesName c || c == '.' || c == '+' || c == '-'

/-- What follows a name at the front of the text, if the name ends there. -/
def afterWord (word : List Char) (cs : List Char) : Option (List Char) :=
  if word.isPrefixOf cs then
    let rest := cs.drop word.length
    if (rest.head?.map continuesName).getD false then none else some rest
  else none

/-- Where a text of blanks and comments is read. -/
inductive BlankMode where
  /-- Between comments. -/
  | outside
  /-- In a comment that ends with the line. -/
  | line
  /-- In this many block comments. -/
  | block (depth : Nat)

/-- The text after its blanks and comments; nothing if a comment is malformed. -/
def dropBlanks : BlankMode → List Char → Option (List Char)
  | .outside, '/' :: '/' :: cs => dropBlanks .line cs
  | .outside, '/' :: '*' :: cs => dropBlanks (.block 0) cs
  | .outside, '/' :: _ => none
  | .outside, c :: cs => if isBlank c then dropBlanks .outside cs else some (c :: cs)
  | .outside, [] => some []
  | .line, '\n' :: cs => dropBlanks .outside cs
  | .line, _ :: cs => dropBlanks .line cs
  | .line, [] => some []
  | .block depth, '/' :: '*' :: cs => dropBlanks (.block (depth + 1)) cs
  | .block 0, '*' :: '/' :: cs => dropBlanks .outside cs
  | .block (depth + 1), '*' :: '/' :: cs => dropBlanks (.block depth) cs
  | .block depth, _ :: cs => dropBlanks (.block depth) cs
  | .block _, [] => none

/-- Takes blanks and comments. -/
def blanks : Reader Unit := fun cs => (dropBlanks .outside cs).map ((), ·)

/-- The character at the front, without taking it. -/
def peek? : Reader (Option Char) := fun cs => some (cs.head?, cs)

/-- Whether this character is at the front, without taking it. -/
def isNext (c : Char) : Reader Bool := return (← peek?) == some c

/-- Takes one character. -/
def anyChar : Reader Char := fun cs =>
  match cs with
  | c :: cs => some (c, cs)
  | [] => none

/-- Takes this character if it is at the front. -/
def char? (c : Char) : Reader Bool := fun cs =>
  match cs with
  | d :: rest => some (if c == d then (true, rest) else (false, cs))
  | [] => some (false, [])

/-- Takes this character. -/
def char (c : Char) : Reader Unit := do
  if !(← char? c) then failure

/-- Takes these characters if they are at the front. -/
def string? (s : String) : Reader Bool := fun cs =>
  some (if s.toList.isPrefixOf cs then (true, cs.drop s.length) else (false, cs))

/-- Takes this word if it is at the front and ends there. -/
def word? (s : String) : Reader Bool := fun cs =>
  match afterWord s.toList cs with
  | some rest => some (true, rest)
  | none => some (false, cs)

/-- Takes one of these words, the first that is at the front; whether there was one. -/
def oneOf? : List String → Reader Bool
  | [] => return false
  | w :: rest => do if ← word? w then return true else oneOf? rest

/-- Takes what `part` takes, if it succeeds, and otherwise nothing. -/
def attempt (part : Reader Unit) : Reader Unit := part <|> pure ()

/-- Takes the longest run of such characters. -/
def charsWhile (p : Char → Bool) : Reader (List Char) := fun cs => some (cs.span p)

/-- Takes a comma and the blanks around it; whether there was one. -/
def comma? : Reader Bool := do
  blanks
  if ← char? ',' then
    blanks
    return true
  else return false

/-- What follows the mark of a raw name, if such a name is at the front: one that does
not open a raw string. -/
def afterRawMark : List Char → Option (List Char)
  | 'r' :: '#' :: '"' :: _ => none
  | 'r' :: '#' :: '#' :: _ => none
  | 'r' :: '#' :: cs => some cs
  | _ => none

/-- Whether a text of bytes, or one byte, is at the front. -/
def opensBytes : List Char → Bool
  | 'b' :: '"' :: _ => true
  | 'b' :: '\'' :: _ => true
  | 'b' :: 'r' :: '"' :: _ => true
  | 'b' :: 'r' :: '#' :: _ => true
  | _ => false

/-- Takes a name. Text that opens a raw string or bytes is none. -/
def name : Reader String := fun cs =>
  if opensBytes cs then none
  else
    match afterRawMark cs, cs with
    | some raw, _ =>
      let (taken, rest) := raw.span inRawName
      if taken.isEmpty then none else some (String.ofList taken, rest)
    | none, 'r' :: '"' :: _ => none
    | none, 'r' :: '#' :: _ => none
    | none, c :: rest =>
      if startsName c then
        let (taken, rest) := rest.span continuesName
        some (String.ofList (c :: taken), rest)
      else none
    | none, [] => none

/-- Takes a name if one is at the front; whether there was one. -/
def name? : Reader Bool := (do let _ ← name; return true) <|> return false

end Cueflow.SettingsText
