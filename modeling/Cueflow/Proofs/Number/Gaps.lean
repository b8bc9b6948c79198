import Mathlib
import Cueflow.Proofs.Number.Scaling
/-!
# Gaps between numbers

A rounded sum may be the number that something was added to.

> `lt_add_iff`: adding what is positive leads to a larger number, unless it takes the number less
> than half of the way to the next one above it, or half of the way if the number is the one with
> the even mantissa (`Absorbs`).

> `sub_lt_iff`: so does taking away, downwards.

The gap to the next number is a last place, but for one case: below a power of two the last place
is half of what it is above. Away from zero, that is from a mantissa to its successor; towards
zero, from a mantissa to its predecessor. Between the two the last place does not change
(`Fits.lastPlace_of_between`), so that rounding chooses between them by the half.
-/

namespace Cueflow.Number

open Float.Model (Format UnpackedFloat)
open Float.Model.UnpackedFloat
open BinaryFormat

/-! ## Between two mantissas -/

/-- What is less than half of a step from a mantissa, or half of it where the mantissa is even. -/
def FallsShort (n : ℕ) (step d : ℚ) : Prop := d < step / 2 ∨ d = step / 2 ∧ n % 2 = 0

instance (n : ℕ) (step d : ℚ) : Decidable (FallsShort n step d) :=
  inferInstanceAs (Decidable (_ ∨ _))

theorem FallsShort.lt {n : ℕ} {step d : ℚ} (hstep : 0 < step) (h : FallsShort n step d) :
    d < step := by
  rcases h with h | ⟨h, -⟩ <;> linarith

/-- Steps of any length are as good as steps of 1. -/
theorem fallsShort_scaled {n : ℕ} {step d : ℚ} (hstep : 0 < step) :
    FallsShort n step (d * step) ↔ FallsShort n 1 d := by
  unfold FallsShort
  rw [div_eq_mul_one_div step, mul_comm step, mul_lt_mul_iff_left₀ hstep, mul_left_inj' hstep.ne']

section Nearest

variable {r n : ℕ} {x : ℚ}

/-- Where rounding does not go up from a mantissa. -/
theorem Nearest.le_iff (hr : Nearest r x) (hn : n ≤ x) :
    r ≤ n ↔ FallsShort n 1 (x - n) := by
  have hle := hr.le
  have hge := hr.ge
  constructor
  · intro h
    have hcast : (r : ℚ) ≤ n := by exact_mod_cast h
    rcases lt_or_eq_of_le (show x - n ≤ 1 / 2 by linarith) with hlt | heq
    · exact Or.inl hlt
    · have hrn : (r : ℚ) = n := by linarith
      obtain rfl : r = n := by exact_mod_cast hrn
      exact Or.inr ⟨heq, hr.even (Or.inl (by linarith))⟩
  · intro h
    by_contra hlt
    have hcast : (n : ℚ) + 1 ≤ r := by exact_mod_cast not_le.1 hlt
    rcases h with h | ⟨h, heven⟩
    · linarith
    · have hrn : (r : ℚ) = n + 1 := by linarith
      obtain rfl : r = n + 1 := by exact_mod_cast hrn
      have := hr.even (Or.inr (by linarith))
      omega

/-- Where rounding does not go down from a mantissa. -/
theorem Nearest.ge_iff (hr : Nearest r x) (hn : x ≤ n) :
    n ≤ r ↔ FallsShort n 1 (n - x) := by
  have hle := hr.le
  have hge := hr.ge
  constructor
  · intro h
    have hcast : (n : ℚ) ≤ r := by exact_mod_cast h
    rcases lt_or_eq_of_le (show n - x ≤ 1 / 2 by linarith) with hlt | heq
    · exact Or.inl hlt
    · have hrn : (r : ℚ) = n := by linarith
      obtain rfl : r = n := by exact_mod_cast hrn
      exact Or.inr ⟨heq, hr.even (Or.inr (by linarith))⟩
  · intro h
    by_contra hlt
    have hcast : (r : ℚ) + 1 ≤ n := by exact_mod_cast not_le.1 hlt
    rcases h with h | ⟨h, heven⟩
    · linarith
    · have hrn : (n : ℚ) = r + 1 := by linarith
      obtain rfl : n = r + 1 := by exact_mod_cast hrn
      have := hr.even (Or.inl (by linarith))
      omega

end Nearest

namespace BinaryFormat

variable {g : BinaryFormat} {m : ℕ} {q : ℤ} {v w : ℚ}

/-- The last place does not change between a mantissa and the next. -/
theorem Fits.lastPlace_of_between (h : g.Fits m q) (hv : 0 < v) (hle : m * 2 ^ q ≤ v)
    (hlt : v < (m + 1) * 2 ^ q) : g.lastPlace v = q := by
  by_cases hm : m = 0
  · -- the smallest numbers
    have hq : q = g.minExponent := h.normal.resolve_right (by
      have := Nat.two_pow_pos g.fractionBits
      omega)
    have hlog : Int.log 2 v < q := by
      refine (Int.lt_zpow_iff_log_lt (by omega) hv).1 ?_
      rw [hm, Nat.cast_zero, zero_add, one_mul] at hlt
      exact_mod_cast hlt
    unfold BinaryFormat.lastPlace
    omega
  · have hscaled : v = v / 2 ^ q * 2 ^ q := (div_mul_cancel₀ _ (by positivity)).symm
    have hlog := h.log2_le
    have hmin := h.le
    unfold BinaryFormat.lastPlace
    rw [hscaled, log_scaled q hm ((le_div_iff₀ (by positivity)).2 hle)
      ((div_lt_iff₀ (by positivity)).2 hlt)]
    rcases h.normal with rfl | hfull
    · omega
    · have := (Nat.le_log2 hm).2 hfull
      omega

/-- Where rounding does not go up from a number. -/
theorem Fits.rounds_le_iff (h : g.Fits m q) (hv : m * 2 ^ q < v) (hw : g.Rounds v w) :
    w ≤ m * 2 ^ q ↔ FallsShort m (2 ^ q) (v - m * 2 ^ q) := by
  have hplace : (0 : ℚ) < 2 ^ q := by positivity
  have hv0 : 0 < v := lt_of_le_of_lt (by positivity) hv
  rcases lt_or_ge v ((m + 1) * 2 ^ q) with hlt | hge
  · obtain ⟨r, hr, rfl⟩ := hw
    rw [h.lastPlace_of_between hv0 hv.le hlt] at hr ⊢
    have hscaled : v - m * 2 ^ q = (v / 2 ^ q - m) * 2 ^ q := by field_simp
    rw [mul_le_mul_iff_left₀ hplace, Nat.cast_le, hr.le_iff ((le_div_iff₀ hplace).2 hv.le),
      hscaled, fallsShort_scaled hplace]
  · -- the next mantissa is reached, and rounding does not lead below it
    have hnext : g.Rounds (((m + 1 : ℕ) : ℚ) * 2 ^ q) (((m + 1 : ℕ) : ℚ) * 2 ^ q) :=
      rounds_self h.lt h.le
    push_cast at hnext
    have hw' := hnext.mono (by positivity) hge hw
    have hstep : ((m : ℚ) + 1) * 2 ^ q = m * 2 ^ q + 2 ^ q := by ring
    exact iff_of_false (by linarith) fun h => by linarith [h.lt hplace]

/-- Where rounding does not go down from the number after one. -/
theorem Fits.le_rounds_iff (h : g.Fits m q) (hv : 0 < v) (hlt : v < ((m : ℚ) + 1) * 2 ^ q)
    (hw : g.Rounds v w) :
    ((m : ℚ) + 1) * 2 ^ q ≤ w ↔ FallsShort (m + 1) (2 ^ q) (((m : ℚ) + 1) * 2 ^ q - v) := by
  have hplace : (0 : ℚ) < 2 ^ q := by positivity
  rcases le_or_gt ((m : ℚ) * 2 ^ q) v with hle | hgt
  · obtain ⟨r, hr, rfl⟩ := hw
    rw [h.lastPlace_of_between hv hle hlt] at hr ⊢
    have hscaled : ((m : ℚ) + 1) * 2 ^ q - v = ((m + 1 : ℕ) - v / 2 ^ q) * 2 ^ q := by
      push_cast
      field_simp
    have hle' : v / 2 ^ q ≤ ((m + 1 : ℕ) : ℚ) := by
      rw [div_le_iff₀ hplace]
      push_cast
      exact hlt.le
    rw [mul_le_mul_iff_left₀ hplace, hscaled, fallsShort_scaled hplace, ← hr.ge_iff hle']
    exact_mod_cast Iff.rfl
  · -- rounding does not lead above the number itself
    have hw' := hw.mono hv.le hgt.le h.rounds
    have hstep : ((m : ℚ) + 1) * 2 ^ q = m * 2 ^ q + 2 ^ q := by ring
    exact iff_of_false (by linarith) fun h => by linarith [h.lt hplace]

/-! ## Gaps -/

/-- How far the next number above is. -/
def gap (g : BinaryFormat) : UnpackedFloat → ℚ
  | .zero _ => 2 ^ g.minExponent
  | .finite .positive _ q _ => 2 ^ q
  | .finite .negative m q _ =>
    2 ^ if m = 2 ^ g.fractionBits ∧ g.minExponent < q then q - 1 else q
  | .infinity _ | .notANumber => 0

/-- The smallest place is that of zero. -/
theorem fits_zero (g : BinaryFormat) : g.Fits 0 g.minExponent :=
  ⟨Nat.mul_pos two_pos (Nat.two_pow_pos _), le_rfl, Or.inl rfl⟩

/-- What is not zero is the next after a number nearer to zero, and has the last place of that one
for its gap towards it. -/
theorem Fits.exists_pred (h : g.Fits m q) (hm : 0 < m) (hg : 0 < g.fractionBits) :
    ∃ m' q', g.Fits m' q' ∧ (m : ℚ) * 2 ^ q = (m' + 1) * 2 ^ q' ∧ (m' + 1) % 2 = m % 2 ∧
      g.gap (.finite .negative m q hm) = 2 ^ q' := by
  obtain ⟨hlt, hle, hnormal⟩ := h
  have hpow : 2 ^ g.fractionBits % 2 = 0 := by
    obtain ⟨k, hk⟩ := Nat.exists_eq_succ_of_ne_zero hg.ne'
    rw [hk, Nat.pow_succ]
    omega
  simp only [gap]
  split
  next hsmallest =>
    -- the largest mantissa in the place before
    obtain ⟨rfl, hq⟩ := hsmallest
    refine ⟨2 * 2 ^ g.fractionBits - 1, q - 1, ⟨by omega, by omega, Or.inr (by omega)⟩, ?_,
      by omega, rfl⟩
    have hcast : ((2 * 2 ^ g.fractionBits - 1 : ℕ) : ℚ) + 1 = 2 * 2 ^ g.fractionBits := by
      have : 2 * 2 ^ g.fractionBits - 1 + 1 = 2 * 2 ^ g.fractionBits := by omega
      exact_mod_cast this
    rw [hcast, zpow_sub_one₀ two_ne_zero]
    push_cast
    field_simp
  next hother =>
    obtain ⟨k, rfl⟩ := Nat.exists_eq_succ_of_ne_zero hm.ne'
    exact ⟨k, q, ⟨by omega, hle, by omega⟩, by push_cast; rfl, rfl, rfl⟩

end BinaryFormat

/-- The mantissa of a number; 0 for what has none. -/
def mantissa : UnpackedFloat → ℕ
  | .finite _ m _ _ => m
  | .zero _ | .infinity _ | .notANumber => 0

/-- This much does not lead from the number to the next one above it. -/
def Absorbs (g : BinaryFormat) (x : UnpackedFloat) (d : ℚ) : Prop :=
  FallsShort (mantissa x) (g.gap x) d

instance (g : BinaryFormat) (x : UnpackedFloat) (d : ℚ) : Decidable (Absorbs g x d) :=
  inferInstanceAs (Decidable (FallsShort _ _ _))

/-- The result is above this number. -/
def Above (g : BinaryFormat) (a : ℚ) (u : UnpackedFloat) : Prop :=
  Written g u ∧ a < value u ∨ u = .infinity .positive

section Results

variable {g : BinaryFormat} {m : ℕ} {q : ℤ} {v : ℚ} {u : UnpackedFloat}

/-- What is delivered above a number is that number or above it. -/
theorem Delivers.above (hu : Delivers g v u) (h : g.Fits m q) (hlimit : m * 2 ^ q < g.limit)
    (hv : m * 2 ^ q < v) :
    FallsShort m (2 ^ q) (v - m * 2 ^ q) ∧ Written g u ∧ value u = m * 2 ^ q ∨
      ¬ FallsShort m (2 ^ q) (v - m * 2 ^ q) ∧ Above g (m * 2 ^ q) u := by
  obtain ⟨w, hw, hu⟩ := hu
  rw [← h.rounds_le_iff hv hw]
  rcases le_or_gt w (m * 2 ^ q) with hle | hgt
  · have hge := h.rounds.mono (by positivity) hv.le hw
    refine Or.inl ⟨hle, ?_⟩
    rcases hu with ⟨-, hwritten, hvalue⟩ | ⟨hlarge, -⟩
    · exact ⟨hwritten, hvalue.trans (le_antisymm hle hge)⟩
    · exact absurd (hlarge.trans hle) (not_le.2 hlimit)
  · refine Or.inr ⟨not_le.2 hgt, ?_⟩
    rcases hu with ⟨-, hwritten, hvalue⟩ | ⟨-, hinfinite⟩
    · exact Or.inl ⟨hwritten, hvalue ▸ hgt⟩
    · exact Or.inr hinfinite

/-- What is delivered below the number after one is that number or below it. -/
theorem Delivers.below (hu : Delivers g v u) (h : g.Fits m q)
    (hlimit : ((m : ℚ) + 1) * 2 ^ q < g.limit) (hv0 : 0 < v) (hv : v < ((m : ℚ) + 1) * 2 ^ q) :
    Written g u ∧
      (FallsShort (m + 1) (2 ^ q) (((m : ℚ) + 1) * 2 ^ q - v) ∧
          value u = ((m : ℚ) + 1) * 2 ^ q ∨
        ¬ FallsShort (m + 1) (2 ^ q) (((m : ℚ) + 1) * 2 ^ q - v) ∧
          value u < ((m : ℚ) + 1) * 2 ^ q) := by
  obtain ⟨w, hw, hu⟩ := hu
  have hself : g.Rounds (((m + 1 : ℕ) : ℚ) * 2 ^ q) (((m + 1 : ℕ) : ℚ) * 2 ^ q) :=
    rounds_self h.lt h.le
  push_cast at hself
  have hle := hw.mono hv0.le hv.le hself
  rw [← h.le_rounds_iff hv0 hv hw]
  rcases hu with ⟨-, hwritten, rfl⟩ | ⟨hlarge, -⟩
  · refine ⟨hwritten, ?_⟩
    rcases le_or_gt (((m : ℚ) + 1) * 2 ^ q) (value u) with hge | hlt
    · exact Or.inl ⟨hge, le_antisymm hle hge⟩
    · exact Or.inr ⟨not_le.2 hlt, hlt⟩
  · exact absurd (hlarge.trans hle) (not_le.2 hlimit)

end Results

/-! ## Results of either sign -/

theorem value_finite_positive {m : ℕ} {q : ℤ} (hm : 0 < m) :
    value (.finite .positive m q hm) = m * 2 ^ q := by
  simp [value, Sign.apply]

theorem neg_twice (u : UnpackedFloat) : u.neg.neg = u := by
  rcases u with ⟨_ | _⟩ | _ | ⟨_ | _⟩ | ⟨_ | _, _, _, _⟩ <;> rfl

theorem value_neg (u : UnpackedFloat) : value u.neg = -value u := by
  rcases u with _ | _ | _ | ⟨_ | _, m, e, hm⟩
  · exact neg_zero.symm
  · exact neg_zero.symm
  · exact neg_zero.symm
  · exact (neg_eq_iff_eq_neg.2 (value_negative e hm)).symm
  · exact value_negative e hm

theorem written_neg {g : BinaryFormat} {u : UnpackedFloat} : Written g u.neg ↔ Written g u := by
  rcases u with _ | _ | _ | _ <;> exact Iff.rfl

/-- What is read where a number of either sign was written. -/
def Renders (g : BinaryFormat) (v : ℚ) (u : UnpackedFloat) : Prop :=
  0 ≤ v ∧ Delivers g v u ∨ v ≤ 0 ∧ Delivers g (-v) u.neg

theorem Renders.neg {g : BinaryFormat} {v : ℚ} {u : UnpackedFloat} (h : Renders g v u) :
    Renders g (-v) u.neg := by
  rcases h with ⟨hv, h⟩ | ⟨hv, h⟩
  · refine Or.inr ⟨neg_nonpos.2 hv, ?_⟩
    rwa [neg_neg, neg_twice]
  · exact Or.inl ⟨neg_nonneg.2 hv, h⟩

section Operations

variable {f : Format} (hwidth : 2 ≤ f.exponentBits) {x y : UnpackedFloat}

theorem unpack_pack_negative {m : ℕ} {q : ℤ} (h : (ofFormat f).Fits m q) :
    (unpack f (pack f (unpacked .negative m q))).neg =
      unpack f (pack f (unpacked .positive m q)) := by
  rw [unpack_pack_unpacked h, unpack_pack_unpacked h]
  unfold unpacked
  split_ifs <;> rfl

include hwidth

theorem renders_round {M : ℕ} (hM : 0 < M) (e : ℤ) (s : Sign) :
    Renders (ofFormat f) (s.apply M * 2 ^ e) (unpack f (pack f (round f s M e))) := by
  cases s with
  | positive =>
    refine Or.inl ⟨?_, delivers_round hwidth hM e⟩
    show 0 ≤ ((M : ℤ) : ℚ) * 2 ^ e
    positivity
  | negative =>
    have hvalue : (Sign.negative.apply M : ℚ) * 2 ^ e = -(M * 2 ^ e) := by
      simp [Sign.apply]
    obtain ⟨m, q, hfits, hrounds, hround⟩ := round_eq (f := f) hM e .negative
    rw [hvalue, hround]
    refine Or.inr ⟨neg_nonpos.2 (by positivity), ?_⟩
    rw [neg_neg, unpack_pack_negative hfits]
    exact delivers_unpacked hwidth hfits hrounds

theorem renders_zero (s : Sign) : Renders (ofFormat f) 0 (unpack f (pack f (.zero s))) :=
  Or.inl ⟨le_rfl, delivers_zero hwidth s⟩

theorem renders_self (hx : Written (ofFormat f) x) :
    Renders (ofFormat f) (value x) (unpack f (pack f x)) := by
  rcases hx.cases with ⟨s, rfl⟩ | ⟨_ | _, m, q, hm, rfl⟩
  · exact renders_zero hwidth s
  · have hneg := unpack_pack_negative (f := f) (show (ofFormat f).Fits m q from hx)
    unfold unpacked at hneg
    rw [dif_neg hm.ne', dif_neg hm.ne'] at hneg
    have hpos := value_positive q hm
    rw [value_negative]
    refine Or.inr ⟨neg_nonpos.2 hpos.le, ?_⟩
    rw [hneg, neg_neg]
    exact delivers_self hwidth (x := .finite .positive m q hm) hx hpos.le
  · have hpos := (value_positive q hm).le
    exact Or.inl ⟨hpos, delivers_self hwidth hx hpos⟩

theorem renders_normalize {M e : ℤ} {v : ℚ} (hM : M * 2 ^ e = v) :
    Renders (ofFormat f) v (unpack f (pack f (normalize f M e .positive))) := by
  unfold UnpackedFloat.normalize
  rcases lt_trichotomy M 0 with hneg | rfl | hpos
  · obtain ⟨n, hn⟩ := Int.eq_ofNat_of_zero_le (show 0 ≤ -M by omega)
    obtain rfl : M = -n := by omega
    rw [compare_lt_iff_lt.2 hneg, ← hM]
    simpa [Sign.apply] using renders_round (f := f) hwidth (M := n) (by omega) e .negative
  · rw [← hM, Int.cast_zero, zero_mul]
    exact renders_zero hwidth .positive
  · obtain ⟨n, rfl⟩ := Int.eq_ofNat_of_zero_le hpos.le
    rw [compare_gt_iff_gt.2 hpos, ← hM]
    exact renders_round hwidth (by exact_mod_cast hpos) e .positive

/-- Sums are rendered. -/
theorem renders_add (hx : Written (ofFormat f) x) (hy : Written (ofFormat f) y) :
    Renders (ofFormat f) (value x + value y) (unpack f (pack f (UnpackedFloat.add f x y))) := by
  rcases hx.cases with ⟨s, rfl⟩ | ⟨s, m, e, hm, rfl⟩
  · rw [value_zero, zero_add]
    rcases hy.cases with ⟨s', rfl⟩ | ⟨s', m', e', hm', rfl⟩
    · cases s <;> cases s' <;> exact renders_zero hwidth _
    · exact renders_self hwidth hy
  · rcases hy.cases with ⟨s', rfl⟩ | ⟨s', m', e', hm', rfl⟩
    · rw [value_zero, add_zero]
      exact renders_self hwidth hx
    · refine renders_normalize hwidth ?_
      rw [Int.cast_add, add_mul]
      exact congrArg₂ _ (value_decreased _ m (min_le_left e e'))
        (value_decreased _ m' (min_le_right e e'))

/-- Differences are rendered. -/
theorem renders_sub (hx : Written (ofFormat f) x) (hy : Written (ofFormat f) y) :
    Renders (ofFormat f) (value x - value y) (unpack f (pack f (UnpackedFloat.sub f x y))) := by
  rcases hx.cases with ⟨s, rfl⟩ | ⟨s, m, e, hm, rfl⟩
  · rcases hy.cases with ⟨s', rfl⟩ | ⟨s', m', e', hm', rfl⟩
    · rw [value_zero, value_zero, sub_zero]
      cases s <;> cases s' <;> exact renders_self hwidth (x := .zero _) trivial
    · have h := renders_self hwidth (f := f) (x := .finite (-s') m' e' hm') hy
      rw [show UnpackedFloat.finite (-s') m' e' hm' = (UnpackedFloat.finite s' m' e' hm').neg
        from rfl, value_neg] at h
      rw [value_zero, zero_sub]
      exact h
  · rcases hy.cases with ⟨s', rfl⟩ | ⟨s', m', e', hm', rfl⟩
    · rw [value_zero, sub_zero]
      exact renders_self hwidth hx
    · refine renders_normalize hwidth ?_
      rw [Int.cast_sub, sub_mul]
      exact congrArg₂ _ (value_decreased _ m (min_le_left e e'))
        (value_decreased _ m' (min_le_right e e'))

end Operations

/-! ## What does not move a number -/

section Results

variable {g : BinaryFormat} {x y u : UnpackedFloat} {v : ℚ}

theorem limit_pos (g : BinaryFormat) : 0 < g.limit := zpow_pos two_pos _

theorem eq_zero_of_rounds {w : ℚ} (h : g.Rounds 0 w) : w = 0 := by
  obtain ⟨r, hr, rfl⟩ := h
  have : r ≤ 0 := hr.mono (nearest_natCast 0) (by simp)
  obtain rfl : r = 0 := by omega
  rw [Nat.cast_zero, zero_mul]

/-- Zeros have either sign. -/
theorem Delivers.zero_neg (h : Delivers g 0 u.neg) : Delivers g 0 u := by
  obtain ⟨w, hw, h⟩ := h
  obtain rfl := eq_zero_of_rounds hw
  rcases h with ⟨hlt, hwritten, hvalue⟩ | ⟨hlarge, -⟩
  · rw [value_neg, neg_eq_zero] at hvalue
    exact ⟨0, hw, Or.inl ⟨hlt, written_neg.1 hwritten, hvalue⟩⟩
  · exact absurd hlarge (not_le.2 (limit_pos g))

theorem Renders.delivers (h : Renders g v u) (hv : 0 ≤ v) : Delivers g v u := by
  rcases h with ⟨-, h⟩ | ⟨hv', h⟩
  · exact h
  · obtain rfl := le_antisymm hv' hv
    rw [neg_zero] at h
    exact h.zero_neg

theorem Delivers.above_of_neg {a : ℚ} (h : Delivers g v u) (ha : a < 0) : Above g a u := by
  obtain ⟨w, ⟨r, -, rfl⟩, ⟨-, hwritten, hvalue⟩ | ⟨-, hinfinite⟩⟩ := h
  · refine Or.inl ⟨hwritten, ?_⟩
    rw [hvalue]
    exact ha.trans_le (by positivity)
  · exact Or.inr hinfinite

theorem gap_pos (hx : Written g x) : 0 < g.gap x := by
  rcases hx.cases with ⟨s, rfl⟩ | ⟨_ | _, m, q, hm, rfl⟩ <;> exact zpow_pos two_pos _

/-- What is read for a sum is the number that something was added to if that was too little, and
above it otherwise. -/
theorem Renders.above (hu : Renders g v u) (hg : 0 < g.fractionBits) (hx : Written g x)
    (hlow : -g.limit < value x) (hhigh : value x < g.limit) (hv : value x < v) :
    Absorbs g x (v - value x) ∧ Written g u ∧ value u = value x ∨
      ¬ Absorbs g x (v - value x) ∧ Above g (value x) u := by
  rcases hx.cases with ⟨s, rfl⟩ | ⟨_ | _, m, q, hm, rfl⟩
  · have hzero : ((0 : ℕ) : ℚ) * 2 ^ g.minExponent = value (.zero s) := by simp
    rw [← hzero] at hv hhigh ⊢
    exact (hu.delivers (by simpa using hv.le)).above (fits_zero g) hhigh hv
  · obtain ⟨m', q', hfits, hpred, hparity, hgap⟩ := Fits.exists_pred hx hm hg
    have habsorbs : ∀ d, Absorbs g (.finite .negative m q hm) d ↔ FallsShort (m' + 1) (2 ^ q') d := by
      intro d
      unfold Absorbs FallsShort
      rw [hgap, hparity]
      rfl
    rw [value_negative, value_finite_positive, hpred] at hv hlow ⊢
    rw [habsorbs, sub_neg_eq_add, add_comm v]
    rcases lt_or_ge v 0 with hneg | hnonneg
    · -- both are negative, and what is above is nearer to zero
      obtain ⟨hnonneg, -⟩ | ⟨-, hdelivers⟩ := hu
      · exact absurd hnonneg (not_le.2 hneg)
      obtain ⟨hwritten, h⟩ := hdelivers.below hfits (by linarith) (by linarith) (by linarith)
      rw [value_neg, sub_neg_eq_add] at h
      rcases h with ⟨hshort, heq⟩ | ⟨hlong, hlt⟩
      · exact Or.inl ⟨hshort, written_neg.1 hwritten, by linarith⟩
      · exact Or.inr ⟨hlong, Or.inl ⟨written_neg.1 hwritten, by linarith⟩⟩
    · have hplace : (0 : ℚ) < 2 ^ q' := by positivity
      have hstep : ((m' : ℚ) + 1) * 2 ^ q' = m' * 2 ^ q' + 2 ^ q' := by ring
      have hm' : (0 : ℚ) ≤ m' * 2 ^ q' := by positivity
      refine Or.inr ⟨fun h => ?_, (hu.delivers hnonneg).above_of_neg (by linarith)⟩
      linarith [h.lt hplace]
  · have hpos := value_positive q hm
    rw [value_finite_positive] at hv hhigh hpos ⊢
    exact (hu.delivers (hpos.trans hv).le).above hx hhigh hv

/-- There is no number between a mantissa and the next. -/
theorem BinaryFormat.Fits.succ_le {m m' : ℕ} {q q' : ℤ} (h : g.Fits m q) (h' : g.Fits m' q')
    (hlt : (m : ℚ) * 2 ^ q < m' * 2 ^ q') : ((m : ℚ) + 1) * 2 ^ q ≤ m' * 2 ^ q' := by
  by_contra hnext
  rw [not_le] at hnext
  have hpos : (0 : ℚ) < m' * 2 ^ q' := lt_of_le_of_lt (by positivity) hlt
  have hm' : m' ≠ 0 := by
    rintro rfl
    rw [Nat.cast_zero, zero_mul] at hpos
    exact lt_irrefl _ hpos
  -- the other number would be in the same place
  obtain rfl : q' = q := (h'.lastPlace_eq hm').symm.trans (h.lastPlace_of_between hpos hlt.le hnext)
  have hplace : (0 : ℚ) < 2 ^ q' := by positivity
  have hlow : m < m' := by exact_mod_cast (mul_lt_mul_iff_left₀ hplace).1 hlt
  have hhigh : m' < m + 1 := by exact_mod_cast (mul_lt_mul_iff_left₀ hplace).1 hnext
  omega

/-- There is no number in a gap. -/
theorem value_add_gap_le (hg : 0 < g.fractionBits) (hx : Written g x) (hy : Written g y)
    (h : value x < value y) : value x + g.gap x ≤ value y := by
  rcases hx.cases with ⟨s, rfl⟩ | ⟨_ | _, m, q, hm, rfl⟩
  · rcases nonneg_of_value hy (by rw [← value_zero s]; exact h.le) with
      ⟨s', rfl⟩ | ⟨m', q', hm', rfl⟩
    · exact absurd h (lt_irrefl _)
    · have hnext := (fits_zero g).succ_le hy (by simpa [value_finite_positive] using h)
      rw [value_finite_positive, value_zero, zero_add]
      simpa [gap] using hnext
  · obtain ⟨m', q', hfits, hpred, -, hgap⟩ := Fits.exists_pred hx hm hg
    have hstep : ((m' : ℚ) + 1) * 2 ^ q' = m' * 2 ^ q' + 2 ^ q' := by ring
    rw [value_negative, value_finite_positive, hpred] at h ⊢
    rw [hgap]
    rcases hy.cases with ⟨s, rfl⟩ | ⟨_ | _, n, p, hn, rfl⟩
    · have : (0 : ℚ) ≤ m' * 2 ^ q' := by positivity
      rw [value_zero]
      linarith
    · rw [value_negative, value_finite_positive] at h ⊢
      -- a number further from zero than the one before is the number itself
      by_contra hbetween
      have hnext := hfits.succ_le (show g.Fits n p from hy) (by linarith)
      linarith
    · have : (0 : ℚ) ≤ m' * 2 ^ q' := by positivity
      linarith [value_positive p hn]
  · have hpos := value_positive q hm
    rcases nonneg_of_value hy (hpos.trans h).le with ⟨s', rfl⟩ | ⟨m', q', hm', rfl⟩
    · rw [value_zero] at h
      exact absurd h (not_lt.2 hpos.le)
    · rw [value_finite_positive, value_finite_positive] at h ⊢
      have hnext := Fits.succ_le hx hy h
      show _ + (2 : ℚ) ^ q ≤ _
      linarith

theorem minGap_le (hx : Written g x) : 2 ^ g.minExponent ≤ g.gap x := by
  rcases hx.cases with ⟨s, rfl⟩ | ⟨_ | _, m, q, hm, rfl⟩
  · exact le_rfl
  · have hle := Fits.le hx
    refine zpow_le_zpow_right₀ one_le_two ?_
    split <;> omega
  · exact zpow_le_zpow_right₀ one_le_two (Fits.le hx)

/-- Gaps do not become smaller away from zero. -/
theorem gap_mono (hx : Written g x) (hy : Written g y) (hx0 : 0 ≤ value x)
    (h : value x ≤ value y) : g.gap x ≤ g.gap y := by
  rcases nonneg_of_value hx hx0 with ⟨s, rfl⟩ | ⟨m, q, hm, rfl⟩
  · exact minGap_le hy
  · have hpos := value_positive q hm
    rcases nonneg_of_value hy (hx0.trans h) with ⟨s', rfl⟩ | ⟨m', q', hm', rfl⟩
    · rw [value_zero] at h
      exact absurd hpos (not_lt.2 h)
    · have hplace := lastPlace_mono (g := g) hpos h
      simp only [value, Sign.apply, Int.cast_natCast] at hplace
      rw [Fits.lastPlace_eq hx hm.ne', Fits.lastPlace_eq hy hm'.ne'] at hplace
      exact zpow_le_zpow_right₀ one_le_two hplace

/-- Towards zero the gap is not larger than away from it. -/
theorem gap_neg_le (hx : Written g x) (hx0 : 0 ≤ value x) : g.gap x.neg ≤ g.gap x := by
  rcases nonneg_of_value hx hx0 with ⟨s, rfl⟩ | ⟨m, q, hm, rfl⟩
  · exact le_rfl
  · show (2 : ℚ) ^ (if m = 2 ^ g.fractionBits ∧ g.minExponent < q then q - 1 else q) ≤ 2 ^ q
    refine zpow_le_zpow_right₀ one_le_two ?_
    split <;> omega

end Results

end Cueflow.Number

/-! ## Sums and differences -/

namespace Cueflow.Binary

open Float.Model (Format UnpackedFloat)
open Float.Model.UnpackedFloat
open Number Number.BinaryFormat

variable {T : Type} [Scalar T] [Binary T] {d x y : T}

theorem fractionBits_pos : 0 < (ofFormat (format T)).fractionBits := by
  rw [fractionBits_ofFormat]
  exact (format T).hm

theorem isFinite_of_written (h : Written (ofFormat (format T)) (read x)) :
    Scalar.isFinite x = true := by
  rw [isFinite_eq]
  show (read x).isFinite = true
  rcases h.cases with ⟨s, hx⟩ | ⟨s, m, q, hm, hx⟩ <;> rw [hx] <;> rfl

/-- A number that is read is not too large to be written. -/
theorem abs_value_read_lt (hx : Scalar.isFinite x = true) :
    -(ofFormat (format T)).limit < value (read x) ∧
      value (read x) < (ofFormat (format T)).limit := by
  have hlimit := limit_pos (ofFormat (format T))
  have hself := unpack_pack_read x
  have hwritten := written_read hx
  rcases hwritten.cases with ⟨s, hu⟩ | ⟨s, m, q, hm, hu⟩ <;> rw [hu] at hwritten hself ⊢
  · rw [value_zero]
    exact ⟨neg_neg_of_pos hlimit, hlimit⟩
  · have hsmall : q ≤ (ofFormat (format T)).maxExponent := by
      by_contra hlarge
      cases hself.symm.trans ((unpack_pack_finite hwritten hm s).trans (if_neg hlarge))
    have hlt := Fits.lt_limit hwritten hsmall
    have hpos : (0 : ℚ) ≤ m * 2 ^ q := by positivity
    cases s <;> simp only [value, Sign.apply, Int.cast_natCast, Int.cast_neg, neg_mul] <;>
      constructor <;> linarith

theorem lt_iff_value (hx : Scalar.isFinite x = true) (hy : Scalar.isFinite y = true) :
    x < y ↔ value (read x) < value (read y) := by
  rw [← not_le, ← le_iff_value hy hx]
  exact ⟨ClockLaws.not_le_of_lt, ClockLaws.lt_of_not_le (ClockLaws.le_self_of_isFinite hy)
    (ClockLaws.le_self_of_isFinite hx)⟩

theorem lt_of_above (hx : Scalar.isFinite x = true)
    (h : Above (ofFormat (format T)) (value (read x)) (read y)) : x < y := by
  rcases h with ⟨hwritten, hlt⟩ | hinfinite
  · exact (lt_iff_value hx (isFinite_of_written hwritten)).2 hlt
  · have hself : x ≤ x := ClockLaws.le_self_of_isFinite hx
    have hle : x ≤ y := le_infinity hself hinfinite
    refine ClockLaws.lt_of_not_le (ClockLaws.le_self_of_le hle) hself fun hge => ?_
    -- what is at most a finite number is not the infinity
    have hy := isFinite_of_between hx hx hle hge
    rw [isFinite_eq] at hy
    change (read y).isFinite = true at hy
    rw [hinfinite] at hy
    cases hy

/-- What is added to a number or taken away from it is not enough to move it. -/
def absorbs (x : UnpackedFloat) (d : T) : Prop :=
  Absorbs (ofFormat (format T)) x (value (read d))

theorem read_add_above (hx : Scalar.isFinite x = true) (hd : Scalar.isFinite d = true)
    (hpos : 0 < d) :
    absorbs (read x) d ∧ Written (ofFormat (format T)) (read (x + d)) ∧
        value (read (x + d)) = value (read x) ∨
      ¬ absorbs (read x) d ∧ Above (ofFormat (format T)) (value (read x)) (read (x + d)) := by
  have hsum := renders_add width (written_read hx) (written_read hd)
  rw [← read_add] at hsum
  obtain ⟨hlow, hhigh⟩ := abs_value_read_lt hx
  have h := hsum.above fractionBits_pos (written_read hx) hlow hhigh
    (lt_add_of_pos_right _ (value_read_pos hd hpos))
  rwa [add_sub_cancel_left] at h

/-- Adding what is positive leads to nothing smaller, and to something larger unless it is
absorbed. -/
theorem lt_add_iff (hx : Scalar.isFinite x = true) (hd : Scalar.isFinite d = true)
    (hpos : 0 < d) : x ≤ x + d ∧ (x < x + d ↔ ¬ absorbs (read x) d) := by
  rcases read_add_above hx hd hpos with ⟨habsorbs, hwritten, hvalue⟩ | ⟨hnot, habove⟩
  · have hfinite := isFinite_of_written hwritten
    rw [le_iff_value hx hfinite, lt_iff_value hx hfinite, hvalue]
    exact ⟨le_rfl, iff_of_false (lt_irrefl _) (not_not_intro habsorbs)⟩
  · have hlt := lt_of_above hx habove
    exact ⟨le_of_lt hlt, iff_of_true hlt hnot⟩

theorem lt_of_above_neg (hx : Scalar.isFinite x = true)
    (h : Above (ofFormat (format T)) (-value (read x)) (read y).neg) : y < x := by
  rcases h with ⟨hwritten, hlt⟩ | hinfinite
  · rw [value_neg, neg_lt_neg_iff] at hlt
    exact (lt_iff_value (isFinite_of_written (written_neg.1 hwritten)) hx).2 hlt
  · have hy : read y = .infinity .negative := by
      rw [← neg_twice (read y), hinfinite]
      rfl
    -- the negative infinity comes before everything that is finite
    rw [lt_iff, hy]
    rcases (written_read hx).cases with ⟨s, hu⟩ | ⟨_ | _, m, e, hm, hu⟩ <;> rw [hu] <;>
      exact ⟨_, _, rfl, rfl, by simp [Prod.Lex.toLex_lt_toLex]⟩

theorem read_sub_below (hx : Scalar.isFinite x = true) (hd : Scalar.isFinite d = true)
    (hpos : 0 < d) :
    absorbs (read x).neg d ∧ Written (ofFormat (format T)) (read (x - d)) ∧
        value (read (x - d)) = value (read x) ∨
      ¬ absorbs (read x).neg d ∧
        Above (ofFormat (format T)) (-value (read x)) (read (x - d)).neg := by
  have hdifference := (renders_sub width (written_read hx) (written_read hd)).neg
  rw [← read_sub] at hdifference
  obtain ⟨hlow, hhigh⟩ := abs_value_read_lt hx
  have hvalue := value_neg (read x)
  have hd0 := value_read_pos hd hpos
  have h := hdifference.above fractionBits_pos (written_neg.2 (written_read hx))
    (by linarith) (by linarith) (by linarith)
  rw [hvalue, value_neg, neg_inj, written_neg,
    show -(value (read x) - value (read d)) - -value (read x) = value (read d) by ring] at h
  exact h

/-- Taking away what is positive leads to nothing larger, and to something smaller unless it is
absorbed from above. -/
theorem sub_lt_iff (hx : Scalar.isFinite x = true) (hd : Scalar.isFinite d = true)
    (hpos : 0 < d) : x - d ≤ x ∧ (x - d < x ↔ ¬ absorbs (read x).neg d) := by
  rcases read_sub_below hx hd hpos with ⟨habsorbs, hwritten, hvalue⟩ | ⟨hnot, habove⟩
  · have hfinite := isFinite_of_written hwritten
    rw [le_iff_value hfinite hx, lt_iff_value hfinite hx, hvalue]
    exact ⟨le_rfl, iff_of_false (lt_irrefl _) (not_not_intro habsorbs)⟩
  · have hlt := lt_of_above_neg hx habove
    exact ⟨le_of_lt hlt, iff_of_true hlt hnot⟩

/-! ## What moves every number up to a bound -/

/-- More than half of the gap above a number is not absorbed there, nor nearer to zero. -/
theorem not_absorbs {bound : T} (hx : Scalar.isFinite x = true)
    (hbound : Scalar.isFinite bound = true) (h0 : 0 ≤ x) (hle : x ≤ bound)
    (hd : (ofFormat (format T)).gap (read bound) / 2 < value (read d)) :
    ¬ absorbs (read x) d ∧ ¬ absorbs (read x).neg d := by
  have hx0 := value_nonneg hx h0
  have hmono := gap_mono (written_read hx) (written_read hbound) hx0 ((le_iff_value hx hbound).1 hle)
  have hneg := gap_neg_le (written_read hx) hx0
  constructor <;> rintro (h | ⟨h, -⟩) <;> linarith

end Cueflow.Binary
