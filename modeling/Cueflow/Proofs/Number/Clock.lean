import Cueflow.Number.Scalar
/-!
# Laws of a clock

What a statement about time may need of the numbers that measure it. `Scalar` promises
nothing, since undefined values compare with nothing and sums are rounded; `ClockLaws` are
the laws that rounding leaves: numbers that are at most themselves are compared by a total
preorder, and a clock that moves by a delta that is not below 0 does not go back.
-/

namespace Cueflow

/-- Comparison is a total preorder on the numbers that compare with themselves, and adding
what is not below 0 leads to nothing smaller. -/
class ClockLaws (T : Type) [Scalar T] : Prop where
  zero_le_zero : (0 : T) ≤ 0
  le_self_of_isFinite {x : T} : Scalar.isFinite x = true → x ≤ x
  le_self_of_le {x y : T} : x ≤ y → y ≤ y
  le_trans {x y z : T} : x ≤ y → y ≤ z → x ≤ z
  le_of_not_lt {x y : T} : x ≤ x → y ≤ y → ¬ x < y → y ≤ x
  not_le_of_lt {x y : T} : x < y → ¬ y ≤ x
  le_add {x d : T} : 0 ≤ x → 0 ≤ d → x ≤ x + d

namespace ClockLaws

variable {T : Type} [Scalar T] [ClockLaws T] {x y z d : T}

/-- What is not after one time is not after a later one. -/
theorem not_lt_of_le (h : x ≤ y) : ¬ y < x := fun hlt => not_le_of_lt hlt h

/-- What is after one time is after an earlier one. -/
theorem lt_of_lt_of_le (hx : x ≤ x) (hz : z ≤ z) (hxy : x < y) (hyz : y ≤ z) : x < z := by
  by_cases hlt : x < z
  · exact hlt
  · exact absurd (le_trans hyz (le_of_not_lt hx hz hlt)) (not_le_of_lt hxy)

theorem lt_of_not_le (hx : x ≤ x) (hy : y ≤ y) (h : ¬ x ≤ y) : y < x := by
  by_cases hlt : y < x
  · exact hlt
  · exact absurd (le_of_not_lt hy hx hlt) h

theorem lt_of_le_of_lt (hx : x ≤ x) (hz : z ≤ z) (hxy : x ≤ y) (hyz : y < z) : x < z :=
  lt_of_not_le hz hx fun hzx => not_le_of_lt hyz (le_trans hzx hxy)

/-- A clock that has not gone below 0 does not go below 0. -/
theorem zero_le_add (hx : 0 ≤ x) (hd : 0 ≤ d) : 0 ≤ x + d := le_trans hx (le_add hx hd)

end ClockLaws

namespace Scalar

variable {T : Type} [Scalar T] [ClockLaws T] {lo hi x y : T}

/-- What is defined is kept between the bounds. -/
theorem clamp_mem (hlo : lo ≤ lo) (hhi : hi ≤ hi) (hle : lo ≤ hi) (hx : x ≤ x) :
    lo ≤ clamp lo hi x ∧ clamp lo hi x ≤ hi := by
  unfold clamp
  split
  · exact ⟨hlo, hle⟩
  next hnot =>
    split
    · exact ⟨hle, hhi⟩
    next hnot' =>
      exact ⟨ClockLaws.le_of_not_lt hx hlo hnot, ClockLaws.le_of_not_lt hhi hx hnot'⟩

/-- Above the lower bound, the order is kept. -/
theorem clamp_mono (hlo : lo ≤ x) (hhi : hi ≤ hi) (hx : x ≤ x) (hxy : x ≤ y) :
    clamp lo hi x ≤ clamp lo hi y := by
  unfold clamp
  rw [if_neg (ClockLaws.not_lt_of_le hlo),
    if_neg (ClockLaws.not_lt_of_le (ClockLaws.le_trans hlo hxy))]
  by_cases hlt : hi < x
  · rw [if_pos hlt, if_pos (ClockLaws.lt_of_lt_of_le hhi (ClockLaws.le_self_of_le hxy) hlt hxy)]
    exact hhi
  · rw [if_neg hlt]
    split
    · exact ClockLaws.le_of_not_lt hhi hx hlt
    · exact hxy

end Scalar

/-- The time since a fixed start, and its share of a fixed duration, do not become less when time
passes, and the share is at least 1 once the duration has passed. -/
class SpanLaws (T : Type) [Scalar T] : Prop extends ClockLaws T where
  zero_le_one : (0 : T) ≤ 1
  eq_one {x : T} : 1 ≤ x → x ≤ 1 → x = 1
  sub_le_sub {c x y : T} : Scalar.isFinite c = true → c ≤ x → x ≤ y → x - c ≤ y - c
  sub_nonneg {c x : T} : Scalar.isFinite c = true → c ≤ x → 0 ≤ x - c
  div_le_div {d x y : T} : Scalar.isFinite d = true → 0 < d → 0 ≤ x → x ≤ y → x / d ≤ y / d
  div_nonneg {d x : T} : Scalar.isFinite d = true → 0 < d → 0 ≤ x → 0 ≤ x / d
  one_le_div {d x : T} : Scalar.isFinite d = true → 0 < d → d ≤ x → 1 ≤ x / d

end Cueflow
