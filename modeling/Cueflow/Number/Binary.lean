/-!
# Binary floating point — patterns, values and rounding to nearest

A binary format writes a magnitude as `m · 2 ^ q` with a bounded `m` and a bounded
`q`. `decode` reads that pair off a bit pattern and `nearest` goes the other way for
any non-negative ratio: it picks the last place, rounds the quotient to nearest with
ties to even, and lays the result out. The layout needs no cases: with `q` counted
from the smallest exponent, the pattern of `m · 2 ^ q` is `m + (q - minExponent) *
2 ^ fractionBits`, for small numbers, for normal ones, and for an `m` that rounding
carried to the next power of two.

Changing width (`widen`, `narrow`) and reading decimals (`ofDecimal`) are `nearest` at
the right ratio.
-/

namespace Cueflow.Number

-- powers are those of the core library, whatever else is imported
attribute [local instance (high)] instPowNat

/-- The quotient rounded to the nearest natural number, an exact half going to the
even neighbour. -/
def roundHalfEven (num den : Nat) : Nat :=
  let q := num / den
  let r := num % den
  if 2 * r < den then q else if den < 2 * r then q + 1 else q + q % 2

/-- Rounding never leaves the two neighbours of the quotient. -/
theorem roundHalfEven_bounds (num den : Nat) :
    num / den ≤ roundHalfEven num den ∧ roundHalfEven num den ≤ num / den + 1 := by
  unfold roundHalfEven
  dsimp only
  split
  · omega
  · split <;> omega

/-- A whole quotient is not changed. -/
theorem roundHalfEven_mul_self (n : Nat) {den : Nat} (h : 0 < den) :
    roundHalfEven (n * den) den = n := by
  simp [roundHalfEven, Nat.mul_div_cancel n h, h]

/-- `num / den · 2 ^ k` as a ratio of natural numbers. -/
def scaleByTwoPow (k : Int) (num den : Nat) : Nat × Nat :=
  if 0 ≤ k then (num * 2 ^ k.toNat, den) else (num, den * 2 ^ (-k).toNat)

/-- The `e` with `2 ^ e ≤ num / den < 2 ^ (e + 1)`, for a positive ratio. -/
def floorLog2 (num den : Nat) : Int :=
  let e : Int := (num.log2 : Int) - (den.log2 : Int)
  let (a, b) := scaleByTwoPow (-e) num den
  if b ≤ a then e else e - 1

/-- A binary interchange format. -/
structure BinaryFormat where
  /-- Significant bits, the leading one included. -/
  precision : Nat
  /-- Bits of the exponent field. -/
  exponentBits : Nat
deriving DecidableEq, Repr

namespace BinaryFormat

/-- Single width. -/
def binary32 : BinaryFormat := ⟨24, 8⟩

/-- Double width. -/
def binary64 : BinaryFormat := ⟨53, 11⟩

variable (f : BinaryFormat)

/-- Bits of the stored fraction. -/
def fractionBits : Nat := f.precision - 1

/-- The exponent of the last place of the smallest numbers. -/
def minExponent : Int := 3 - 2 ^ (f.exponentBits - 1) - f.precision

/-- The pattern of the positive infinity; every larger magnitude is undefined. -/
def infinity : Nat := (2 ^ f.exponentBits - 1) * 2 ^ f.fractionBits

/-- The pattern of the undefined value. -/
def undefined : Nat := f.infinity + 2 ^ (f.fractionBits - 1)

/-- The bit that marks a negative number. -/
def signBit : Nat := 2 ^ (f.fractionBits + f.exponentBits)

/-- The magnitude `m · 2 ^ q` of a finite pattern without its sign bit. -/
def decode (bits : Nat) : Nat × Int :=
  let e := bits / 2 ^ f.fractionBits
  let fraction := bits % 2 ^ f.fractionBits
  if e = 0 then (fraction, f.minExponent)
  else (fraction + 2 ^ f.fractionBits, f.minExponent + (e - 1 : Nat))

/-- The pattern of the magnitude nearest to `num / den`, ties to even; from half a
last place above the largest number on, the infinity. -/
def nearest (num den : Nat) : Nat :=
  if num = 0 then 0
  else
    let q := max (floorLog2 num den - f.fractionBits) f.minExponent
    let (a, b) := scaleByTwoPow (-q) num den
    let bits := roundHalfEven a b + (q - f.minExponent).toNat * 2 ^ f.fractionBits
    min bits f.infinity

/-- The pattern of `digits · 10 ^ e` rounded to nearest. Exponents that put the number
far outside every format are answered without computing the power. -/
def ofDecimal (digits : Nat) (e : Int) : Nat :=
  let size : Int := (Nat.toDigits 10 digits).length
  if digits = 0 ∨ size + e < -400 then 0
  else if 400 < size + e then f.infinity
  else if 0 ≤ e then f.nearest (digits * 10 ^ e.toNat) 1
  else f.nearest digits (10 ^ (-e).toNat)

/-- The pattern in format `g` of the number that `bits` denotes in format `f`. -/
def convert (g : BinaryFormat) (bits : Nat) : Nat :=
  let sign := if f.signBit ≤ bits then g.signBit else 0
  let magnitude := bits % f.signBit
  if f.infinity < magnitude then g.undefined
  else if magnitude = f.infinity then sign + g.infinity
  else
    let (m, q) := f.decode magnitude
    let (a, b) := scaleByTwoPow q m 1
    sign + g.nearest a b

end BinaryFormat

open BinaryFormat

/-- The same number in double width; nothing is rounded. -/
def widen (x : Float32) : Float :=
  Float.ofBits (UInt64.ofNat (binary32.convert binary64 x.toBits.toNat))

/-- The nearest number of single width. -/
def narrow (x : Float) : Float32 :=
  Float32.ofBits (UInt32.ofNat (binary64.convert binary32 x.toBits.toNat))

/-- The single-width number nearest to `± digits · 10 ^ e`. -/
def singleOfDecimal (negative : Bool) (digits : Nat) (e : Int) : Float32 :=
  let sign := if negative then binary32.signBit else 0
  Float32.ofBits (UInt32.ofNat (sign + binary32.ofDecimal digits e))

/-- The double-width number nearest to `± digits · 10 ^ e`. -/
def doubleOfDecimal (negative : Bool) (digits : Nat) (e : Int) : Float :=
  let sign := if negative then binary64.signBit else 0
  Float.ofBits (UInt64.ofNat (sign + binary64.ofDecimal digits e))

/-! ## Patterns and numbers at the edges -/

example : binary32.infinity = 0x7f800000 ∧ binary64.infinity = 0x7ff0000000000000 := by decide

example : binary32.nearest 1 1 = 0x3f800000 ∧ binary64.nearest 1 1 = 0x3ff0000000000000 := by
  decide +kernel

example : binary32.nearest (2 ^ 24 + 1) 1 = binary32.nearest (2 ^ 24) 1 := by decide +kernel

example : binary32.nearest (2 ^ 128 - 2 ^ 103) 1 = binary32.infinity := by decide +kernel

example : widen 0.1 = 0.10000000149011612 := by decide +kernel

example : narrow 0.1 = 0.1 := by decide +kernel

example : singleOfDecimal true 1 400 = -1 / 0 := by decide +kernel

end Cueflow.Number
