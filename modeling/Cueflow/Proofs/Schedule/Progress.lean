import Cueflow.Schedule.Event
import Cueflow.Proofs.Number.Clock
/-!
# Progress

The progress of a span is the share of its duration that has passed, kept in `[0, 1]`.

> `progress_mono`: progress does not go back while time passes.

> `progress_eq_one`: it is 1 when the span is over.

Whether a span is over and how far it has come are found in two ways, by a comparison and by a
division. They agree at the end: a number that is not below the duration has a share of at least
1, which is kept down to 1.
-/

namespace Cueflow.EventAction

variable {T : Type} [Scalar T] [SpanLaws T] {d x y : T}

theorem one_le_one : (1 : T) ≤ 1 := ClockLaws.le_self_of_le SpanLaws.zero_le_one

theorem progress_mem (hd : Scalar.isFinite d = true) (hx : 0 ≤ x) :
    0 ≤ progress x d ∧ progress x d ≤ 1 := by
  unfold progress
  split
  next hpos =>
    have hshare := SpanLaws.div_nonneg hd hpos hx
    exact Scalar.clamp_mem ClockLaws.zero_le_zero one_le_one SpanLaws.zero_le_one
      (ClockLaws.le_self_of_le hshare)
  · exact ⟨SpanLaws.zero_le_one, one_le_one⟩

/-- Progress does not go back while time passes. -/
theorem progress_mono (hd : Scalar.isFinite d = true) (hx : 0 ≤ x) (hxy : x ≤ y) :
    progress x d ≤ progress y d := by
  unfold progress
  split
  next hpos =>
    have hshare := SpanLaws.div_nonneg hd hpos hx
    exact Scalar.clamp_mono hshare one_le_one (ClockLaws.le_self_of_le hshare)
      (SpanLaws.div_le_div hd hpos hx hxy)
  · exact one_le_one

/-- The progress of a span that is over is 1. -/
theorem progress_eq_one (hd : Scalar.isFinite d = true) (h : d ≤ x) : progress x d = 1 := by
  unfold progress
  split
  next hpos =>
    have hshare := SpanLaws.one_le_div hd hpos h
    unfold Scalar.clamp
    rw [if_neg (ClockLaws.not_lt_of_le (ClockLaws.le_trans SpanLaws.zero_le_one hshare))]
    split
    · rfl
    next hnot =>
      exact SpanLaws.eq_one hshare
        (ClockLaws.le_of_not_lt one_le_one (ClockLaws.le_self_of_le hshare) hnot)
  · rfl

end Cueflow.EventAction
