/-!
# Scalars — the numbers in which time is measured

Flows add deltas, subtract start times, divide for progress and compare. They ask
nothing else of a number, so everything about them is stated over a `Scalar`: the
operations, with comparisons that can be decided, and no law at all. Rounding,
infinities and values that compare with nothing are allowed, and binary32 is the
instance that plays.
-/

namespace Cueflow

/-- Numbers with the arithmetic and the comparisons of a clock. No law is part of the
class: what a statement needs of the arithmetic it names as a hypothesis. -/
class Scalar (T : Type) extends Zero T, One T, Add T, Sub T, Div T, LT T, LE T where
  /-- Whether one number is below another can be decided. -/
  decLt : DecidableLT T
  /-- Whether one number is at most another can be decided. -/
  decLe : DecidableLE T
  /-- Neither infinite nor undefined. -/
  isFinite : T → Bool

namespace Scalar

variable {T : Type} [Scalar T]

instance instDecidableLT : DecidableLT T := Scalar.decLt

instance instDecidableLE : DecidableLE T := Scalar.decLe

/-- The nearest point of `[lo, hi]`. A number that compares with neither bound is
returned as it is. -/
def clamp (lo hi x : T) : T :=
  if x < lo then lo else if hi < x then hi else x

end Scalar

instance : Scalar Float32 where
  zero := 0
  one := 1
  decLt := inferInstance
  decLe := inferInstance
  isFinite := Float32.isFinite

instance : Scalar Float where
  zero := 0
  one := 1
  decLt := inferInstance
  decLe := inferInstance
  isFinite := Float.isFinite

end Cueflow
