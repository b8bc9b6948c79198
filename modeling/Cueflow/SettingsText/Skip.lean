import Cueflow.SettingsText.Extensions
import Cueflow.SettingsText.Quotation
/-!
# Values of unknown fields

A field that no setting has is skipped together with its value, which must be well
formed: a number, a text, a character, a word, an option, a list, a map, or a structure
with or without a name and with or without field names. Values nest to a bounded depth.

Where the parentheses of an option may be those of a structure in it, a look ahead decides
what they hold. It goes by commas and brackets outside texts, characters and comments, and
does not judge what it passes over; only a text without an end stops it. A comment right
after a text or a character is not seen as one.
-/

namespace Cueflow.SettingsText

/-- Takes items with commas between them, and perhaps after the last, as long as `close` is
not at the front; at most `fuel` of them. -/
def items (item : Reader Unit) (close : Char) : (fuel : Nat) → Reader Unit
  | 0 => failure
  | fuel + 1 => do
    blanks
    if ← isNext close then return
    item
    if ← comma? then items item close fuel
    else if ← isNext close then return
    else failure

/-- Takes items up to where they are closed, as many as there are. -/
def allItems (item : Reader Unit) (close : Char) : Reader Unit := do
  items item close ((← get).length + 1)

/-- Takes a colon between blanks. -/
def colon : Reader Unit := do
  blanks
  char ':'
  blanks

/-- Takes a value that holds no others. -/
def scalar : Reader Unit := do
  match ← get with
  | 'b' :: '\'' :: rest => set ('\'' :: rest); byte
  | 'b' :: _ => Quotation.take bytesQuotation
  | '\'' :: _ => character
  | '"' :: _ => let _ ← text
  | 'r' :: _ => let _ ← text
  | _ => anyNumber

/-- What parentheses hold. -/
inductive Content where
  /-- Nothing. -/
  | empty
  /-- One value. -/
  | single
  /-- Several values. -/
  | listed
  /-- Values with field names. -/
  | named
deriving DecidableEq, Repr

/-- Passes over the rest of what a parenthesis holds, up to its end or to the first comma
that stands in no inner brackets, of which `depth` are open; whether something comes after
that comma. Passes over at most `fuel` characters. -/
def passesComma : (fuel depth : Nat) → Reader Bool
  | 0, _ => failure
  | fuel + 1, depth => do
    blanks
    attempt character
    Quotation.pass textQuotation
    Quotation.pass bytesQuotation
    let c ← anyChar
    if c == '(' || c == '[' || c == '\x7b' then passesComma fuel (depth + 1)
    else if c == ')' || c == ']' || c == '\x7d' then
      match depth with
      | 0 => return false
      | depth + 1 => passesComma fuel depth
    else if c == ',' && depth == 0 then
      blanks
      return !(← isNext ')')
    else passesComma fuel depth

/-- Passes over what an opened parenthesis holds, as far as needed to know it. -/
def passContent : Reader Content := do
  blanks
  if ← isNext ')' then return .empty
  if ← name? then
    blanks
    if ← isNext ':' then return .named
    if ← isNext ')' then return .single
  return if ← passesComma ((← get).length + 1) 0 then .listed else .single

/-- What an opened parenthesis holds, without taking it. -/
def content : Reader Content := fun cs => (passContent.run cs).map fun (c, _) => (c, cs)

example : (content.run "1, 2)".toList).map Prod.fst = some .listed := by decide +kernel

example : (content.run "[1, 2],)".toList).map Prod.fst = some .single := by decide +kernel

example : (content.run "a: 1)".toList).map Prod.fst = some .named := by decide +kernel

/-- Whether the fields of the structure that was just opened have names: a name with a
colon after it comes first. -/
def hasNamedFields : Reader Bool := fun cs =>
  let named : Reader Unit := do
    blanks
    let _ ← name
    colon
  some ((named.run cs).isSome, cs)

/-- What a value may hold where it stands. -/
structure Inside where
  /-- Fails if nothing may be opened any more. -/
  enter : Reader Unit
  /-- Takes a value of a list, a map or a structure. -/
  item : Reader Unit
  /-- Takes what an option holds in parentheses. -/
  held : Reader Unit
  /-- Takes what an option holds without parentheses. -/
  bare : Reader Unit

/-- Takes the values of a structure, with field names or without. -/
def Inside.values (i : Inside) (named : Bool) : Reader Unit := do
  i.enter
  allItems (if named then do let _ ← name; colon; i.item else i.item) ')'

/-- Takes the rest of a structure after its opening parenthesis. -/
def Inside.structured (i : Inside) : Reader Unit := do
  i.values (← hasNamedFields)
  char ')'

/-- Takes an option after its word. -/
def Inside.option (i : Inside) : Reader Unit := do
  blanks
  if ← char? '(' then
    blanks
    i.held
    let _ ← comma?
    char ')'
  else i.bare

/-- Takes a value as it stands anywhere. -/
def Inside.value (i : Inside) : Reader Unit := do
  if ← oneOf? ["true", "false", "None", "inf", "inff32", "inff64", "NaN", "NaNf32", "NaNf64"]
  then return
  else if ← word? "Some" then i.option
  else if ← string? "()" then return
  else if ← name? then
    blanks
    if ← char? '(' then i.structured
  else if ← char? '(' then i.structured
  else if ← char? '[' then
    i.enter
    allItems i.item ']'
    char ']'
  else if ← char? '\x7b' then
    i.enter
    allItems (do i.item; colon; i.item) '\x7d'
    char '\x7d'
  else scalar

/-- Takes what an option holds whose parentheses may be those of a structure. -/
def Inside.unwrapped (i : Inside) : Reader Unit := do
  match ← content with
  | .empty => pure ()
  | .single => i.value
  | .listed => i.values false
  | .named => i.values true

/-- Takes a well-formed value, or what an option holds in its parentheses; `depth` bounds
how deep it may nest. What a value opens counts once, and what it holds once more; what
an option holds counts once. -/
def skipNested (e : Extensions) : (depth : Nat) → (unwrap : Bool) → Reader Unit
  | depth, unwrap => fun cs =>
    let inside : Inside :=
      match depth with
      | 0 => ⟨failure, failure, failure, failure⟩
      | 1 =>
        { enter := pure ()
          item := failure
          held := skipNested e 0 e.unwrapVariants
          bare := if e.implicitSome then skipNested e 0 false else failure }
      | depth + 2 =>
        { enter := pure ()
          item := skipNested e depth false
          held := skipNested e (depth + 1) e.unwrapVariants
          bare := if e.implicitSome then skipNested e (depth + 1) false else failure }
    (if unwrap then inside.unwrapped else inside.value).run cs

/-- Takes a well-formed value that nests at most to this depth. -/
def skipValue (e : Extensions) (depth : Nat) : Reader Unit := skipNested e depth false

example : (skipValue .none 2).run "[true]".toList = some ((), []) := by decide +kernel

example : (skipValue .none 1).run "[true]".toList = none := by decide +kernel

end Cueflow.SettingsText
