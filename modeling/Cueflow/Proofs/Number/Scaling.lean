import Mathlib
import Cueflow.Proofs.Number.BinaryClock
/-!
# A share of a difference

The number `v * (high - low) + low` for a share `v` that is below 1, every operation rounded.

> `Rounds.share_le`: a share that is below 1 by a last place of 1 or more is not rounded beyond the
> exact difference, even where the difference itself was rounded up.

> `Single.share_mem`: so the number lies between `low` and `high`, for all finite bounds that are
> not below 0.

Where a difference is rounded up it is too large by half a last place at most, and the share takes
a whole one away. Numbers in the last place of the smallest ones are not rounded at all.
-/

namespace Cueflow.Number

open Float.Model (Format UnpackedFloat)
open Float.Model.UnpackedFloat
open BinaryFormat Binary

namespace BinaryFormat

variable {g : BinaryFormat} {d s v p : ℚ}

/-- A whole number of last places is not rounded. -/
theorem rounds_of_whole {n : ℕ} (h : v = n * 2 ^ g.lastPlace v) : g.Rounds v v := by
  refine ⟨n, ?_, h⟩
  rw [(div_eq_iff (by positivity)).2 h]
  exact nearest_natCast n

/-- A mantissa with no more bits than there are is not rounded, wherever it stands. -/
theorem rounds_self {m : ℕ} {q : ℤ} (hm : m ≤ 2 * 2 ^ g.fractionBits) (hq : g.minExponent ≤ q) :
    g.Rounds (m * 2 ^ q) (m * 2 ^ q) := by
  rcases Nat.lt_or_eq_of_le hm with hlt | rfl
  · rcases Nat.eq_zero_or_pos m with rfl | hpos
    · refine rounds_of_whole (n := 0) ?_
      rw [Nat.cast_zero, zero_mul, zero_mul]
    · have hlog : m.log2 ≤ g.fractionBits := by
        rw [← Nat.pow_succ'] at hlt
        exact Nat.lt_succ_iff.1 ((Nat.log2_lt hpos.ne').2 hlt)
      have hplace : g.lastPlace (m * 2 ^ q) ≤ q := by
        rw [BinaryFormat.lastPlace, log_scaled q hpos.ne' le_rfl (lt_add_one _)]
        omega
      obtain ⟨k, hk⟩ := Int.le.dest hplace
      refine rounds_of_whole (n := m * 2 ^ k) ?_
      calc (m : ℚ) * 2 ^ q = m * 2 ^ (g.lastPlace (m * 2 ^ q) + k) := by rw [hk]
        _ = (m * 2 ^ k : ℕ) * 2 ^ g.lastPlace (m * 2 ^ q) := by
          rw [zpow_add₀ two_ne_zero, zpow_natCast]
          push_cast
          ring
  · -- one bit more: the next power of two
    have hfits : g.Fits (2 ^ g.fractionBits) (q + 1) :=
      ⟨by have := Nat.two_pow_pos g.fractionBits; omega, by omega, Or.inr le_rfl⟩
    have hcarry : ((2 * 2 ^ g.fractionBits : ℕ) : ℚ) * 2 ^ q =
        (2 ^ g.fractionBits : ℕ) * 2 ^ (q + 1) := by
      rw [zpow_add_one₀ two_ne_zero]
      push_cast
      ring
    rw [hcarry]
    exact hfits.rounds

/-- A share that is below 1 by a last place of 1 does not lead beyond the exact difference. The
difference is one of numbers that the format writes. -/
theorem Rounds.share_le {n : ℕ} (hd : d = n * 2 ^ g.minExponent) (hs : g.Rounds d s) (hv0 : 0 ≤ v)
    (hv : v ≤ 1 - 1 / 2 ^ g.fractionBits) (hp : g.Rounds (v * s) p) : p ≤ d := by
  obtain ⟨r, hr, hsr⟩ := hs
  have hd0 : 0 ≤ d := by rw [hd]; positivity
  have hs0 : 0 ≤ s := by rw [hsr]; positivity
  have hr2 : r ≤ 2 * 2 ^ g.fractionBits := hr.mono (nearest_natCast _) (quotient_lt d).le
  have hplace : g.minExponent ≤ g.lastPlace d := le_max_right _ _
  rcases le_or_gt s d with hle | hgt
  · -- rounding a part of `s` does not lead above `s`
    have hself : g.Rounds s s := by
      rw [hsr]
      exact rounds_self hr2 hplace
    have hone : v ≤ 1 := hv.trans (by
      have : (0 : ℚ) < 1 / 2 ^ g.fractionBits := by positivity
      linarith)
    exact (hp.mono (mul_nonneg hv0 hs0) (mul_le_of_le_one_left hs0 hone) hself).trans hle
  · -- `s` was rounded up, so its last place is not that of the smallest numbers
    have hlarge : g.minExponent < g.lastPlace d := by
      refine lt_of_le_of_ne hplace fun heq => ?_
      rw [← heq] at hr hsr
      have : r ≤ n := hr.mono (nearest_natCast n) (by rw [hd]; field_simp; exact le_rfl)
      have : s ≤ d := by rw [hsr, hd]; gcongr
      linarith
    have hpos : 0 < d := by
      refine lt_of_le_of_ne hd0 fun heq => ?_
      have : r ≤ 0 := hr.mono (nearest_natCast 0) (by rw [← heq, zero_div, Nat.cast_zero])
      obtain rfl : r = 0 := by omega
      rw [Nat.cast_zero, zero_mul] at hsr
      linarith
    have hfull : 2 ^ g.fractionBits ≤ r := (nearest_natCast _).mono hr (le_quotient hpos hlarge)
    obtain ⟨k, rfl⟩ : ∃ k, r = k + 1 :=
      Nat.exists_eq_succ_of_ne_zero (by have := Nat.two_pow_pos g.fractionBits; omega)
    have hge := hr.ge
    push_cast at hge hsr
    -- the share takes away a whole last place, which is more than rounding has added
    have hshare : v * s ≤ k * 2 ^ g.lastPlace d := by
      have hplaces : (1 : ℚ) ≤ (k + 1) / 2 ^ g.fractionBits := by
        rw [one_le_div (by positivity)]
        exact_mod_cast hfull
      calc v * s ≤ (1 - 1 / 2 ^ g.fractionBits) * ((k + 1) * 2 ^ g.lastPlace d) := by
            rw [← hsr]
            gcongr
        _ = (k + 1 - (k + 1) / 2 ^ g.fractionBits) * 2 ^ g.lastPlace d := by ring
        _ ≤ k * 2 ^ g.lastPlace d := by
          gcongr
          linarith
    calc p ≤ k * 2 ^ g.lastPlace d :=
          hp.mono (mul_nonneg hv0 hs0) hshare (rounds_self (by omega) hplace)
      _ ≤ d / 2 ^ g.lastPlace d * 2 ^ g.lastPlace d := by
        gcongr
        linarith
      _ = d := div_mul_cancel₀ _ (by positivity)

end BinaryFormat

section Results

variable {g : BinaryFormat} {u : UnpackedFloat} {v : ℚ}

/-- Finite numbers are made of last places of the smallest ones. -/
theorem Written.whole (h : Written g u) :
    ∃ k : ℤ, value u = k * 2 ^ g.minExponent := by
  rcases h.cases with ⟨s, rfl⟩ | ⟨s, m, q, hm, rfl⟩
  · exact ⟨0, by rw [value_zero, Int.cast_zero, zero_mul]⟩
  · obtain ⟨k, hk⟩ := Int.le.dest (Fits.le h)
    refine ⟨s.apply m * 2 ^ k, ?_⟩
    rw [value, ← hk, zpow_add₀ two_ne_zero, zpow_natCast]
    push_cast
    ring

/-- What is delivered is rounded, unless it is infinite. -/
theorem Delivers.rounds (h : Delivers g v u) (hu : u.isFinite = true) :
    g.Rounds v (value u) := by
  obtain ⟨w, hw, ⟨-, -, rfl⟩ | ⟨-, rfl⟩⟩ := h
  · exact hw
  · cases hu

/-- What is not rounded is delivered as it is. -/
theorem Delivers.exact {u : UnpackedFloat} (h : Delivers g v u) (hv : 0 ≤ v)
    (hself : g.Rounds v v) (hlt : v < g.limit) : u.isFinite = true ∧ value u = v := by
  obtain ⟨w, hw, hu⟩ := h
  obtain rfl : w = v := le_antisymm (hw.mono hv le_rfl hself) (hself.mono hv le_rfl hw)
  rcases hu with ⟨-, hwritten, hvalue⟩ | ⟨hge, -⟩
  · refine ⟨?_, hvalue⟩
    rcases hwritten.cases with ⟨s, rfl⟩ | ⟨s, m, q, hm, rfl⟩ <;> rfl
  · exact absurd hlt (not_lt.2 hge)

end Results

namespace Single

variable {low high v : Float32}

theorem delivers_read_mul {x y : Float32} (hx : x.isFinite = true) (hy : y.isFinite = true)
    (hx0 : 0 ≤ value (read x)) (hy0 : 0 ≤ value (read y)) :
    Delivers (ofFormat (format Float32)) (value (read x) * value (read y)) (read (x * y)) :=
  delivers_mul (by decide) (written_read hx) (written_read hy) hx0 hy0

theorem delivers_read_add {x y : Float32} (hx : x.isFinite = true) (hy : y.isFinite = true)
    (hx0 : 0 ≤ value (read x)) (hy0 : 0 ≤ value (read y)) :
    Delivers (ofFormat (format Float32)) (value (read x) + value (read y)) (read (x + y)) :=
  delivers_add (by decide) (written_read hx) (written_read hy) hx0 hy0

/-- A share of a difference leads from one bound to nothing beyond the other, and the difference is
finite. -/
theorem share_mem (hlow : low.isFinite = true) (hhigh : high.isFinite = true) (h0 : 0 ≤ low)
    (hle : low ≤ high) (hv : v.isFinite = true) (hv0 : 0 ≤ value (read v))
    (hv1 : value (read v) ≤ 1 - 1 / 2 ^ 23) :
    (high - low).isFinite = true ∧ low ≤ v * (high - low) + low ∧
      v * (high - low) + low ≤ high := by
  have hlow0 : 0 ≤ value (read low) := value_nonneg hlow h0
  have hle' : value (read low) ≤ value (read high) := (le_iff_value hlow hhigh).1 hle
  have hhigh0 := hlow0.trans hle'
  -- the difference
  have hdifference := delivers_read_sub hlow hhigh hle
  have hd0 : 0 ≤ high - low := zero_le_sub hlow hle
  have hd : (high - low).isFinite = true := by
    refine isFinite_of_between isFinite_zero hhigh hd0 ?_
    exact le_iff.2 (hdifference.precedes (sub_nonneg.2 hle') (sub_le_self _ hlow0)
      (delivers_read hhigh (ClockLaws.le_trans h0 hle)))
  have hs0 : 0 ≤ value (read (high - low)) := value_nonneg hd hd0
  -- the share of it
  have hproduct := delivers_read_mul hv hd hv0 hs0
  have hp0 : 0 ≤ v * (high - low) := by
    refine le_of_delivers isFinite_zero ClockLaws.zero_le_zero ?_ hproduct
    rw [value_read_zero]
    exact mul_nonneg hv0 hs0
  have hp : (v * (high - low)).isFinite = true := by
    refine isFinite_of_between isFinite_zero hd hp0 ?_
    refine le_iff.2 (hproduct.precedes (mul_nonneg hv0 hs0) ?_ (delivers_read hd hd0))
    exact mul_le_of_le_one_left hs0 (hv1.trans (by norm_num))
  have hshare : value (read (v * (high - low))) ≤ value (read high) - value (read low) := by
    obtain ⟨a, ha⟩ := Written.whole (written_read (x := high) hhigh)
    obtain ⟨b, hb⟩ := Written.whole (written_read (x := low) hlow)
    have hwhole : value (read high) - value (read low) =
        ((a - b : ℤ) : ℚ) * 2 ^ (ofFormat (format Float32)).minExponent := by
      rw [ha, hb]
      push_cast
      ring
    have hab : 0 ≤ a - b := by
      have h := sub_nonneg.2 hle'
      rw [hwhole] at h
      exact_mod_cast nonneg_of_mul_nonneg_left h (by positivity)
    obtain ⟨n, hn⟩ := Int.eq_ofNat_of_zero_le hab
    rw [hn] at hwhole
    exact (hdifference.rounds hd).share_le hwhole hv0 hv1 (hproduct.rounds hp)
  -- the sum
  have hsum := delivers_read_add hp hlow (value_nonneg hp hp0) hlow0
  refine ⟨hd, le_of_delivers hlow h0 (le_add_of_nonneg_left (value_nonneg hp hp0)) hsum, ?_⟩
  exact le_iff.2 (hsum.precedes (add_nonneg (value_nonneg hp hp0) hlow0) (by linarith)
    (delivers_read hhigh (ClockLaws.le_trans h0 hle)))

end Single

end Cueflow.Number
