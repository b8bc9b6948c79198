import Cueflow.Number.Shortest
/-!
# Numbers as text — one record per way of writing them

The digits of a number come from `shortest`; how they are laid out is a `NumberStyle`.
Three styles are in use: `plain` for messages and listings, `debug` for inspection
texts, and `setting` for settings files, which is `plain` with a mark on whole numbers.
-/

namespace Cueflow.Number

/-- The decisions of one way of writing a number. -/
structure NumberStyle where
  /-- Whether a leading digit at this power of ten is written without an exponent. -/
  positional : Int → Bool
  /-- What follows a whole number that is written without an exponent. -/
  wholeMark : String

namespace NumberStyle

/-- Never an exponent, and nothing after a whole number. -/
def plain : NumberStyle := ⟨fun _ => true, ""⟩

/-- An exponent below `10 ^ -4` and from `10 ^ 16` on, and `.0` after a whole number. -/
def debug : NumberStyle := ⟨fun e => -4 ≤ e && e < 16, ".0"⟩

/-- Never an exponent, and `.0` after a whole number. -/
def setting : NumberStyle := ⟨fun _ => true, ".0"⟩

/-- The digits around their decimal point. -/
def positionalText (style : NumberStyle) (digits : List Char) (exponent : Int) : String :=
  if 0 ≤ exponent then
    String.ofList (digits ++ List.replicate exponent.toNat '0') ++ style.wholeMark
  else
    let places := (-exponent).toNat
    let padded := List.replicate (places + 1 - digits.length) '0' ++ digits
    let whole := padded.length - places
    String.ofList (padded.take whole ++ '.' :: padded.drop whole)

/-- One digit, the others after a point, and the power of ten of the first. -/
def exponentText (digits : List Char) (leading : Int) : String :=
  let mantissa := match digits with
    | d :: r@(_ :: _) => d :: '.' :: r
    | ds => ds
  String.ofList mantissa ++ "e" ++ toString leading

/-- A decimal in this style. -/
def decimalText (style : NumberStyle) (x : Decimal) : String :=
  let digits := Nat.toDigits 10 x.digits
  let leading := (digits.length : Int) - 1 + x.exponent
  if x.digits = 0 ∨ style.positional leading then style.positionalText digits x.exponent
  else exponentText digits leading

/-- A pattern of format `f` in this style. -/
def patternText (style : NumberStyle) (f : BinaryFormat) (bits : Nat) : String :=
  let magnitude := bits % f.signBit
  let sign := if f.signBit ≤ bits then "-" else ""
  if f.infinity < magnitude then "NaN"
  else if magnitude = f.infinity then sign ++ "inf"
  else sign ++ style.decimalText (f.shortest magnitude)

/-- A single-width number in this style. -/
def text (style : NumberStyle) (x : Float32) : String :=
  style.patternText .binary32 x.toBits.toNat

/-! ## The styles at the edges of their ranges -/

example : plain.patternText .binary32 0x3dcccccd = "0.1" := by decide +kernel

example : plain.patternText .binary32 0x80000000 = "-0" := by decide +kernel

example : setting.patternText .binary32 0x3f800000 = "1.0" := by decide +kernel

example : debug.patternText .binary32 0x00000001 = "1e-45" := by decide +kernel

example : debug.patternText .binary32 0x7f7fffff = "3.4028235e38" := by decide +kernel

end NumberStyle

end Cueflow.Number
