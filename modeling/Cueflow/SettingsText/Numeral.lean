import Cueflow.Number.Binary
import Cueflow.SettingsText.Token
/-!
# Numbers of a settings text

Numbers are read by the type that a field asks for. A floating-point number is the
longest run of characters that such numbers are made of, judged as a decimal without its
underscores, or one of the words for infinity and the undefined value. A whole number
has an optional sign and base, may name its type, and must fit it.
-/

namespace Cueflow.SettingsText

/-- The value of a digit in bases up to sixteen. -/
def digitValue? (c : Char) : Option Nat :=
  if '0' ≤ c ∧ c ≤ '9' then some (c.toNat - '0'.toNat)
  else if 'a' ≤ c ∧ c ≤ 'f' then some (c.toNat - 'a'.toNat + 10)
  else if 'A' ≤ c ∧ c ≤ 'F' then some (c.toNat - 'A'.toNat + 10)
  else none

/-- Characters of a floating-point number. -/
def inFloat (c : Char) : Bool :=
  c.isDigit || c == 'e' || c == 'E' || c == '.' || c == '+' || c == '-' || c == '_'

/-- Characters of a whole number. -/
def inInteger (c : Char) : Bool := (digitValue? c).isSome || c == '_'

/-- The value of a run of decimal digits, counted on from `acc`. -/
def decimalValue (digits : List Char) (acc : Nat) : Nat :=
  digits.foldl (fun n c => 10 * n + (c.toNat - '0'.toNat)) acc

/-- A sign at the front, and what follows it. -/
def splitSign : List Char → Bool × List Char
  | '+' :: cs => (false, cs)
  | '-' :: cs => (true, cs)
  | cs => (false, cs)

/-- The power of ten that an exponent part names; an empty part names 0. -/
def exponentPart? : List Char → Option Int
  | [] => some 0
  | c :: cs =>
    let (negative, digits) := splitSign cs
    if (c == 'e' || c == 'E') && !digits.isEmpty && digits.all Char.isDigit then
      let e : Int := decimalValue digits 0
      some (if negative then -e else e)
    else none

/-- A decimal with an optional sign, point and exponent and at least one digit: whether
it is negative, its digits, and the power of ten of the last one. -/
def decimal? (cs : List Char) : Option (Bool × Nat × Int) :=
  let (negative, cs) := splitSign cs
  let (whole, cs) := cs.span Char.isDigit
  let (fraction, cs) := match cs with
    | '.' :: cs => cs.span Char.isDigit
    | cs => ([], cs)
  if whole.isEmpty && fraction.isEmpty then none
  else (exponentPart? cs).map fun e =>
    (negative, decimalValue fraction (decimalValue whole 0), e - fraction.length)

/-- The characters of a number without its underscores. An underscore may stand after a
digit or the mark of an exponent, also repeated, but neither in front nor right after
the point. -/
def withoutUnderscores? : (allowed : Bool) → List Char → Option (List Char)
  | _, [] => some []
  | allowed, c :: cs =>
    if c == '_' then if allowed then withoutUnderscores? allowed cs else none
    else
      let allowed := c != '.' && (allowed || (c != '+' && c != '-'))
      (withoutUnderscores? allowed cs).map (c :: ·)

example : withoutUnderscores? false "1_000.5".toList = some "1000.5".toList := by decide +kernel

example : withoutUnderscores? false "0._5".toList = none := by decide +kernel

/-- The words for numbers that have no digits. -/
def floatWords : List (String × Float32) :=
  let infinity : Float32 := 1 / 0
  let undefined : Float32 := 0 / 0
  [("inf", infinity), ("+inf", infinity), ("-inf", -infinity),
    ("NaN", undefined), ("+NaN", undefined), ("-NaN", undefined)]

/-- Takes one of the words for numbers without digits, which may name one of these
types. -/
def floatWord? (types : List String) : List (String × Float32) → Reader (Option Float32)
  | [] => return none
  | (word, value) :: rest => do
    if ← oneOf? (word :: types.map (word ++ ·)) then return some value
    else floatWord? types rest

/-- Takes a floating-point number, which may name one of these types, and rounds it to
single width. -/
def floatNaming (types : List String) : Reader Float32 := do
  match ← floatWord? types floatWords with
  | some value => return value
  | none =>
    let run ← charsWhile inFloat
    match (withoutUnderscores? false run).bind decimal? with
    | some (negative, digits, e) =>
      let _ ← oneOf? types
      return Number.singleOfDecimal negative digits e
    | none => failure

/-- Takes a number of single width, which may say so. -/
def float : Reader Float32 := floatNaming ["f32"]

/-- The value of a run of digits in a base, underscores ignored. -/
def digitsValue? (base : Nat) : List Char → Nat → Option Nat
  | [], acc => some acc
  | c :: cs, acc =>
    if c == '_' then digitsValue? base cs acc
    else
      match digitValue? c with
      | some d => if d < base then digitsValue? base cs (base * acc + d) else none
      | none => none

/-- Takes the mark of a base; ten has none. -/
def base : Reader Nat := do
  if ← string? "0b" then return 2
  else if ← string? "0o" then return 8
  else if ← string? "0x" then return 16
  else return 10

/-- Takes the digits of a whole number, after its sign. -/
def natural : Reader Nat := do
  let base ← base
  let run ← charsWhile inInteger
  match run with
  | [] => failure
  | '_' :: _ => failure
  | run =>
    match digitsValue? base run 0 with
    | some n => return n
    | none => failure

/-- A type of whole numbers. -/
structure IntegerType where
  /-- Whether there are numbers below 0 in it. -/
  signed : Bool
  /-- How many bits its numbers have. -/
  bits : Nat
deriving DecidableEq, Repr

namespace IntegerType

-- powers are those of the core library, whatever else is imported
attribute [local instance (high)] instPowNat

/-- The types that a number can name. -/
def all : List IntegerType :=
  [true, false].flatMap fun signed => [8, 16, 32, 64].map (mk signed)

/-- The name of a type, as it stands after a number. -/
def name (t : IntegerType) : String := (if t.signed then "i" else "u") ++ toString t.bits

/-- Whether the number at this distance from 0 belongs to a type. -/
def holds (t : IntegerType) (negative : Bool) (distance : Nat) : Bool :=
  if !t.signed then distance < 2 ^ t.bits && (!negative || distance == 0)
  else if negative then distance ≤ 2 ^ (t.bits - 1)
  else distance < 2 ^ (t.bits - 1)

example : (mk true 8).holds true 128 ∧ !(mk true 8).holds false 128 := by decide

example : (mk false 64).holds true 0 ∧ !(mk false 64).holds true 1 := by decide

end IntegerType

/-- The type named by the whole number at the front, whose sign is already taken. The
name stands right after a run of digits, and only the mark of base two is made of digits:
a number with another mark names no type. -/
def namedType? : Reader (Option IntegerType) := fun cs =>
  let rest := cs.dropWhile inInteger
  some (IntegerType.all.find? fun t => (afterWord t.name.toList rest).isSome, cs)

/-- A whole number as it is written. -/
structure Whole where
  /-- The type that it names. -/
  type : Option IntegerType
  /-- Whether it has a minus in front. -/
  negative : Bool
  /-- How far it is from 0. -/
  distance : Nat
deriving DecidableEq, Repr

/-- Takes a whole number of any size. -/
def whole : Reader Whole := do
  let negative ← char? '-'
  if !negative then let _ ← char? '+'
  let type ← namedType?
  let distance ← natural
  match type with
  | none => return ⟨none, negative, distance⟩
  | some t => if ← word? t.name then return ⟨some t, negative, distance⟩ else failure

/-- Takes a number that is not below 0 and less than `2 ^ bits`; if it names a type, then
this one. -/
def unsigned (bits : Nat) : Reader Nat := do
  let t : IntegerType := ⟨false, bits⟩
  let n ← whole
  if n.type.all (· == t) && t.holds n.negative n.distance then return n.distance else failure

/-- Takes a whole number of any type: of the one that it names, and otherwise of the
widest that has it. -/
def anyWhole : Reader Unit := do
  let n ← whole
  let t := n.type.getD ⟨n.negative, 64⟩
  if t.holds n.negative n.distance then return else failure

example : (anyWhole.run "-128i8".toList).isSome ∧ (anyWhole.run "128i8".toList).isNone := by
  decide +kernel

/-- Whether the number at the front reads on as a floating-point number where the digits
of a whole one end. -/
def opensFloat (cs : List Char) : Bool :=
  let cs := (splitSign cs).2
  (cs.takeWhile inInteger).length < (cs.takeWhile inFloat).length

/-- Takes a number of any type. A whole number that is too large for its type is still a
number if it reads as a floating-point one. -/
def anyNumber : Reader Unit := do
  let real : Reader Unit := do let _ ← floatNaming ["f32", "f64"]
  if opensFloat (← get) then real else anyWhole <|> real

end Cueflow.SettingsText
