import Cueflow.Number.Binary
/-!
# Shortest decimals — the fewest digits that read back

A finite binary number stands for every real that rounds to it: an interval around its
value, whose ends belong to it exactly when the significand is even. Among the decimals
in that interval the shortest is the one on the coarsest grid of powers of ten, and of
two on that grid the nearer one; a tie goes away from zero.

All of it is integer arithmetic. A magnitude `m · 2 ^ q` and its two ends are whole
multiples of `10 ^ -k` for a large enough `k`, so the interval becomes a `Window` of
natural numbers and the grids are the multiples of `10 ^ j`. The search runs from the
coarse grids down to `j = 0`, where the value itself lies on the grid.
-/

namespace Cueflow.Number

-- powers are those of the core library, whatever else is imported
attribute [local instance (high)] instPowNat

/-- An interval of natural numbers with a distinguished value inside. -/
structure Window where
  /-- The lower end. -/
  low : Nat
  /-- The value to be written. -/
  value : Nat
  /-- The upper end. -/
  high : Nat
  /-- Whether the two ends belong to the interval. -/
  closed : Bool

namespace Window

variable (w : Window)

/-- Whether `n` lies in the interval. -/
def admits (n : Nat) : Bool :=
  if w.closed then w.low ≤ n && n ≤ w.high else w.low < n && n < w.high

/-- The multiple of `step` that is nearest to the value among the value's two
neighbours on that grid and lies in the interval, as a multiple count. -/
def onGrid (step : Nat) : Option Nat :=
  let d := w.value / step
  match w.admits (d * step), w.admits ((d + 1) * step) with
  | true, true => some (if step ≤ 2 * (w.value % step) then d + 1 else d)
  | true, false => some d
  | false, true => some (d + 1)
  | false, false => none

/-- A count found on a grid lies in the interval. -/
theorem admits_of_onGrid {step d : Nat} (h : w.onGrid step = some d) :
    w.admits (d * step) = true := by
  unfold onGrid at h
  dsimp only at h
  split at h
  · next below above =>
    obtain rfl := Option.some.inj h
    split
    · exact above
    · exact below
  · next below _ =>
    obtain rfl := Option.some.inj h
    exact below
  · next _ above =>
    obtain rfl := Option.some.inj h
    exact above
  · cases h

/-- The coarsest grid `10 ^ j` with a point in the interval, `j` at most the given
bound, and that point as a count of `10 ^ j`. -/
def coarsest : Nat → Nat × Nat
  | 0 => (w.value, 0)
  | j + 1 =>
    match w.onGrid (10 ^ (j + 1)) with
    | some d => (d, j + 1)
    | none => coarsest j

/-- The point that was found lies in the interval, if the value does. -/
theorem admits_coarsest (h : w.admits w.value = true) (places : Nat) :
    w.admits ((w.coarsest places).1 * 10 ^ (w.coarsest places).2) = true := by
  induction places with
  | zero => simpa [coarsest] using h
  | succ j ih =>
    unfold coarsest
    split
    · next d hd => exact w.admits_of_onGrid hd
    · exact ih

end Window

/-- A decimal `digits · 10 ^ exponent`; the last digit is not zero unless it is the
only one. -/
structure Decimal where
  /-- The digits, read as one natural number. -/
  digits : Nat
  /-- The power of ten of the last digit. -/
  exponent : Int
deriving DecidableEq, Repr

/-- Moves zeros at the end of the digits into the exponent; `bound` is at least their
count. -/
def stripZeros : (bound digits : Nat) → Int → Decimal
  | 0, d, e => ⟨d, e⟩
  | n + 1, d, e =>
    if d % 10 = 0 ∧ d ≠ 0 then stripZeros n (d / 10) (e + 1) else ⟨d, e⟩

/-- Every zero that is taken off the digits is counted in the exponent. -/
theorem exists_stripZeros (bound digits : Nat) (e : Int) :
    ∃ k : Nat, (stripZeros bound digits e).exponent = e + k ∧
      (stripZeros bound digits e).digits * 10 ^ k = digits := by
  induction bound generalizing digits e with
  | zero => exact ⟨0, by simp [stripZeros]⟩
  | succ n ih =>
    unfold stripZeros
    split
    · next h =>
      obtain ⟨k, he, hd⟩ := ih (digits / 10) (e + 1)
      refine ⟨k + 1, by rw [he]; omega, ?_⟩
      rw [Nat.pow_succ, ← Nat.mul_assoc, hd]
      omega
    · exact ⟨0, by simp⟩

namespace BinaryFormat

variable (f : BinaryFormat)

/-- The interval of reals that round to the finite magnitude `m · 2 ^ q`, in units of
`10 ^ -k`, with that `k`. Below a power of two the lower neighbour is half as far. -/
def window (m : Nat) (q : Int) : Window × Nat :=
  let k := (2 - q).toNat
  let u := if q < 2 then 5 ^ k else 2 ^ (q - 2).toNat
  let down := if m = 2 ^ f.fractionBits ∧ f.minExponent < q then 1 else 2
  (⟨(4 * m - down) * u, 4 * m * u, (4 * m + 2) * u, m % 2 == 0⟩, k)

/-- The shortest decimal that reads back to the finite magnitude with this pattern. -/
def shortest (bits : Nat) : Decimal :=
  let (m, q) := f.decode bits
  if m = 0 then ⟨0, 0⟩
  else
    let (w, k) := f.window m q
    let places := (Nat.toDigits 10 w.value).length
    let (d, j) := w.coarsest places
    stripZeros (places + 1) d ((j : Int) - k)

end BinaryFormat

end Cueflow.Number
