/-!
# Bit patterns as text

A number is told apart from every other by its bit pattern, written in base sixteen with
all leading zeros. The undefined value has many patterns and one spelling.
-/

namespace Cueflow.Number

/-- A natural number in base sixteen with at least `width` digits. -/
def hexText (width n : Nat) : String :=
  let digits := Nat.toDigits 16 n
  String.ofList (List.replicate (width - digits.length) '0' ++ digits)

/-- The pattern of a single-width number. -/
def singleHex (x : Float32) : String :=
  if x.isNaN then "NaN" else hexText 8 x.toBits.toNat

/-- The pattern of a double-width number. -/
def doubleHex (x : Float) : String :=
  if x.isNaN then "NaN" else hexText 16 x.toBits.toNat

end Cueflow.Number
