import Mathlib
import Cueflow.Proofs.Number.Rounding
/-!
# Rounded arithmetic

The operations of a format give what rounding makes of the exact result, or the infinity where
that is too large for a pattern (`Delivers`).

> `Delivers.precedes`: results are ordered as the exact ones are.

> `delivers_add`, `delivers_sub`, `delivers_mul`, `delivers_div`: results that are not below 0
> are delivered.

All of them come down to the two ways to round that the model has. An addition or a subtraction
writes both numbers with the smaller exponent (`value_decreased`); a division keeps as much of
the remainder as rounding asks for.
-/

namespace Cueflow.Number

open Float.Model (Format UnpackedFloat totalExponent)
open Float.Model.UnpackedFloat
open BinaryFormat

/-! ## Results -/

@[simp] theorem value_zero (s : Sign) : value (.zero s) = 0 := rfl

theorem nonneg_of_value {g : BinaryFormat} {x : UnpackedFloat} (hx : Written g x)
    (h0 : 0 ≤ value x) :
    (∃ s, x = .zero s) ∨ ∃ m q hm, x = .finite .positive m q hm := by
  rcases hx.cases with ⟨s, rfl⟩ | ⟨_ | _, m, q, hm, rfl⟩
  · exact Or.inl ⟨s, rfl⟩
  · rw [value_negative] at h0
    exact absurd (value_positive q hm) (not_lt.2 (neg_nonneg.1 h0))
  · exact Or.inr ⟨m, q, hm, rfl⟩

/-- The smallest power of two that is too large for a pattern. -/
def BinaryFormat.limit (g : BinaryFormat) : ℚ := 2 ^ (g.fractionBits + 1 + g.maxExponent)

theorem BinaryFormat.Fits.lt_limit {g : BinaryFormat} {m : ℕ} {q : ℤ} (h : g.Fits m q)
    (hq : q ≤ g.maxExponent) : (m : ℚ) * 2 ^ q < g.limit := by
  have hlt : (m : ℚ) < 2 ^ (g.fractionBits + 1) := by
    rw [pow_succ']
    exact_mod_cast h.lt
  unfold BinaryFormat.limit
  rw [zpow_add₀ two_ne_zero, ← Nat.cast_succ, zpow_natCast]
  calc (m : ℚ) * 2 ^ q < 2 ^ (g.fractionBits + 1) * 2 ^ q := by gcongr
    _ ≤ 2 ^ (g.fractionBits + 1) * 2 ^ g.maxExponent := by
      gcongr
      exact one_le_two

theorem BinaryFormat.Fits.limit_le {g : BinaryFormat} {m : ℕ} {q : ℤ} (h : g.Fits m q)
    (hwidth : 2 ≤ g.exponentBits) (hq : g.maxExponent < q) : g.limit ≤ (m : ℚ) * 2 ^ q := by
  have hfull : 2 ^ g.fractionBits ≤ m := by
    refine h.normal.resolve_left fun heq => ?_
    have : 4 ≤ 2 ^ g.exponentBits := Nat.pow_le_pow_right (n := 2) (by omega) hwidth
    have := mt (le_maxExponent_iff h.le).2 (not_le.2 hq)
    omega
  have hfull : (2 : ℚ) ^ g.fractionBits ≤ m := by exact_mod_cast hfull
  unfold BinaryFormat.limit
  rw [add_assoc, zpow_add₀ two_ne_zero, zpow_natCast]
  gcongr
  · exact one_le_two
  · omega

/-- What is read where a number was written: what rounding makes of it, or the infinity. -/
def Delivers (g : BinaryFormat) (v : ℚ) (u : UnpackedFloat) : Prop :=
  ∃ w, g.Rounds v w ∧
    (w < g.limit ∧ Written g u ∧ value u = w ∨ g.limit ≤ w ∧ u = .infinity .positive)

section Results

variable {g : BinaryFormat} {u u' : UnpackedFloat} {v v' : ℚ}

theorem precedes_infinity (h : Written g u) : Precedes u (.infinity .positive) :=
  ((precedes_iff h h).2 le_rfl).infinity

/-- Results are ordered as the numbers are that they stand for. -/
theorem Delivers.precedes (hv : 0 ≤ v) (h : v ≤ v') (hu : Delivers g v u)
    (hu' : Delivers g v' u') : Precedes u u' := by
  obtain ⟨w, hw, hu⟩ := hu
  obtain ⟨w', hw', hu'⟩ := hu'
  have hle := Rounds.mono hv h hw hw'
  rcases hu with ⟨hlt, hwritten, rfl⟩ | ⟨hge, rfl⟩
  · rcases hu' with ⟨-, hwritten', rfl⟩ | ⟨-, rfl⟩
    · exact (precedes_iff hwritten hwritten').2 hle
    · exact precedes_infinity hwritten
  · rcases hu' with ⟨hlt', -⟩ | ⟨-, rfl⟩
    · exact absurd (hge.trans hle) (not_le.2 hlt')
    · exact ⟨_, _, rfl, rfl, le_rfl⟩

end Results

variable {f : Format}

/-- What is read where a pair that fits was written. -/
theorem unpack_pack_unpacked {m : ℕ} {q : ℤ} (h : (ofFormat f).Fits m q) (s : Sign) :
    unpack f (pack f (unpacked s m q)) =
      if m = 0 ∨ q ≤ (ofFormat f).maxExponent then unpacked s m q else .infinity s := by
  unfold unpacked
  by_cases hm : m = 0
  · rw [dif_pos hm, if_pos (Or.inl hm)]
    exact unpack_packedZero
  · rw [dif_neg hm, unpack_pack_finite h]
    simp only [hm, false_or]

theorem written_unpacked {m : ℕ} {q : ℤ} (h : (ofFormat f).Fits m q) (s : Sign) :
    Written (ofFormat f) (unpacked s m q) := by
  unfold unpacked
  split
  · exact trivial
  · exact h

theorem value_unpacked (s : Sign) (m : ℕ) (q : ℤ) : value (unpacked s m q) = s.apply m * 2 ^ q := by
  unfold unpacked
  split
  next hm => cases s <;> simp [hm, Sign.apply]
  next hm => rfl

theorem delivers_unpacked (hwidth : 2 ≤ f.exponentBits) {v : ℚ} {m : ℕ} {q : ℤ}
    (h : (ofFormat f).Fits m q) (hv : (ofFormat f).Rounds v (m * 2 ^ q)) :
    Delivers (ofFormat f) v (unpack f (pack f (unpacked .positive m q))) := by
  refine ⟨_, hv, ?_⟩
  rw [unpack_pack_unpacked h]
  split
  next hsmall =>
    refine Or.inl ⟨?_, written_unpacked h _, value_unpacked _ _ _⟩
    rcases hsmall with rfl | hsmall
    · rw [Nat.cast_zero, zero_mul]
      exact zpow_pos two_pos _
    · exact h.lt_limit hsmall
  next hlarge =>
    exact Or.inr ⟨h.limit_le hwidth (not_le.1 fun hsmall => hlarge (Or.inr hsmall)), rfl⟩

theorem delivers_round (hwidth : 2 ≤ f.exponentBits) {M : ℕ} (hM : 0 < M) (e : ℤ) :
    Delivers (ofFormat f) (M * 2 ^ e) (unpack f (pack f (round f .positive M e))) := by
  obtain ⟨m, q, hfits, hrounds, hround⟩ := round_eq (f := f) hM e .positive
  rw [hround]
  exact delivers_unpacked hwidth hfits hrounds

section Operations

variable (hwidth : 2 ≤ f.exponentBits) {x y : UnpackedFloat}

include hwidth

/-- A number that was read is delivered when it is written again. -/
theorem delivers_self (hx : Written (ofFormat f) x) (h0 : 0 ≤ value x) :
    Delivers (ofFormat f) (value x) (unpack f (pack f x)) := by
  rcases nonneg_of_value hx h0 with ⟨s, rfl⟩ | ⟨m, q, hm, rfl⟩
  · have hfits : (ofFormat f).Fits 0 (ofFormat f).minExponent :=
      ⟨Nat.mul_pos two_pos (Nat.two_pow_pos _), le_rfl, Or.inl rfl⟩
    have hzero : (ofFormat f).Rounds 0 0 := by simpa using hfits.rounds
    rw [show pack f (.zero s) = packedZero f s from rfl, unpack_packedZero]
    exact ⟨0, hzero, Or.inl ⟨zpow_pos two_pos _, trivial, rfl⟩⟩
  · have h := delivers_unpacked hwidth hx hx.rounds
    rwa [unpacked, dif_neg hm.ne'] at h

omit hwidth in
theorem value_decreased (s : Sign) (m : ℕ) {e t : ℤ} (h : t ≤ e) :
    ((s.apply (m <<< (e - t).toNat : ℕ) : ℤ) : ℚ) * 2 ^ t = s.apply m * 2 ^ e := by
  obtain ⟨k, hk⟩ := Int.le.dest h
  have : (e - t).toNat = k := by omega
  rw [this, ← hk, Nat.shiftLeft_eq, zpow_add₀ two_ne_zero, zpow_natCast]
  cases s <;> simp only [Sign.apply] <;> push_cast <;> ring

theorem delivers_zero (s : Sign) :
    Delivers (ofFormat f) 0 (unpack f (pack f (.zero s))) :=
  delivers_self hwidth (x := .zero s) trivial le_rfl

theorem delivers_normalize {M : ℤ} {e : ℤ} {v : ℚ} (hM : M * 2 ^ e = v) (hv : 0 ≤ v) :
    Delivers (ofFormat f) v (unpack f (pack f (normalize f M e .positive))) := by
  unfold UnpackedFloat.normalize
  rcases lt_trichotomy M 0 with hneg | rfl | hpos
  · have hneg : (M : ℚ) < 0 := by exact_mod_cast hneg
    exact absurd hv (not_le.2 (hM ▸ mul_neg_of_neg_of_pos hneg (by positivity)))
  · rw [← hM, Int.cast_zero, zero_mul]
    exact delivers_zero hwidth .positive
  · obtain ⟨n, rfl⟩ := Int.eq_ofNat_of_zero_le hpos.le
    rw [compare_gt_iff_gt.2 hpos, ← hM, Int.cast_natCast]
    exact delivers_round hwidth (by exact_mod_cast hpos) e

/-- Sums of numbers that are not below 0 are delivered. -/
theorem delivers_add (hx : Written (ofFormat f) x) (hy : Written (ofFormat f) y)
    (hx0 : 0 ≤ value x) (hy0 : 0 ≤ value y) :
    Delivers (ofFormat f) (value x + value y) (unpack f (pack f (UnpackedFloat.add f x y))) := by
  rcases nonneg_of_value hx hx0 with ⟨s, rfl⟩ | ⟨m, e, hm, rfl⟩
  · rw [value_zero, zero_add]
    rcases nonneg_of_value hy hy0 with ⟨s', rfl⟩ | ⟨m', e', hm', rfl⟩
    · cases s <;> cases s' <;> exact delivers_zero hwidth _
    · exact delivers_self hwidth hy hy0
  · rcases nonneg_of_value hy hy0 with ⟨s', rfl⟩ | ⟨m', e', hm', rfl⟩
    · rw [value_zero, add_zero]
      exact delivers_self hwidth hx hx0
    · refine delivers_normalize hwidth ?_ (add_nonneg hx0 hy0)
      rw [Int.cast_add, add_mul]
      exact congrArg₂ _ (value_decreased _ m (min_le_left e e'))
        (value_decreased _ m' (min_le_right e e'))

/-- Differences that are not below 0 are delivered. -/
theorem delivers_sub (hx : Written (ofFormat f) x) (hy : Written (ofFormat f) y)
    (hxy : value y ≤ value x) :
    Delivers (ofFormat f) (value x - value y) (unpack f (pack f (UnpackedFloat.sub f x y))) := by
  rcases hx.cases with ⟨s, rfl⟩ | ⟨s, m, e, hm, rfl⟩
  · rcases hy.cases with ⟨s', rfl⟩ | ⟨s', m', e', hm', rfl⟩
    · rw [value_zero, value_zero, sub_zero]
      cases s <;> cases s' <;> exact delivers_zero hwidth _
    · have hneg : value (.finite (-s') m' e' hm') = -value (.finite s' m' e' hm') := by
        cases s' with
        | negative => exact (neg_eq_iff_eq_neg.2 (value_negative e' hm')).symm
        | positive => exact value_negative e' hm'
      have h := delivers_self hwidth (f := f) (x := .finite (-s') m' e' hm') hy
        (by rw [hneg]; exact neg_nonneg.2 hxy)
      rw [value_zero, zero_sub, ← hneg]
      exact h
  · rcases hy.cases with ⟨s', rfl⟩ | ⟨s', m', e', hm', rfl⟩
    · rw [value_zero, sub_zero]
      exact delivers_self hwidth hx hxy
    · refine delivers_normalize hwidth ?_ (sub_nonneg.2 hxy)
      rw [Int.cast_sub, sub_mul]
      exact congrArg₂ _ (value_decreased _ m (min_le_left e e'))
        (value_decreased _ m' (min_le_right e e'))

omit hwidth in
/-- The product of two pairs, whatever their signs. -/
theorem mul_finite {m m' : ℕ} {e e' : ℤ} (hm : 0 < m) (hm' : 0 < m') (h : (ofFormat f).Fits m e)
    (h' : (ofFormat f).Fits m' e') (s s' : Sign) :
    ∃ n q, (ofFormat f).Fits n q ∧
      (ofFormat f).Rounds (m * 2 ^ e * (m' * 2 ^ e')) (n * 2 ^ q) ∧
      UnpackedFloat.mul f (.finite s m e hm) (.finite s' m' e' hm') = unpacked (s * s') n q := by
  have hpos : 0 < m * m' := Nat.mul_pos hm hm'
  have hvalue : (m : ℚ) * 2 ^ e * (m' * 2 ^ e') = (m * m' : ℕ) * 2 ^ (e + e') := by
    rw [zpow_add₀ two_ne_zero]
    push_cast
    ring
  have hplace : e + e' ≤ (ofFormat f).lastPlace ((m * m' : ℕ) * 2 ^ (e + e')) := by
    rw [BinaryFormat.lastPlace, log_scaled _ hpos.ne' le_rfl (lt_add_one _)]
    have hfraction := f.hm
    have hmin := minExponent_ofFormat (f := f)
    -- the product has all bits that either of the numbers has
    have hlog : e + e' ≤ (ofFormat f).minExponent ∨
        (ofFormat f).fractionBits ≤ (m * m').log2 := by
      rcases h.normal with rfl | hfull
      · rcases h'.normal with rfl | hfull
        · exact Or.inl (by omega)
        · exact Or.inr ((Nat.le_log2 hpos.ne').2 (hfull.trans (Nat.le_mul_of_pos_left _ hm)))
      · exact Or.inr ((Nat.le_log2 hpos.ne').2 (hfull.trans (Nat.le_mul_of_pos_right _ hm')))
    omega
  rw [hvalue]
  exact roundWithAccuracy_eq (by exact_mod_cast hpos) (stands_exact _) hplace _

/-- Products of numbers that are not below 0 are delivered. -/
theorem delivers_mul (hx : Written (ofFormat f) x) (hy : Written (ofFormat f) y)
    (hx0 : 0 ≤ value x) (hy0 : 0 ≤ value y) :
    Delivers (ofFormat f) (value x * value y) (unpack f (pack f (UnpackedFloat.mul f x y))) := by
  rcases nonneg_of_value hx hx0 with ⟨s, rfl⟩ | ⟨m, e, hm, rfl⟩
  · rw [value_zero, zero_mul]
    rcases nonneg_of_value hy hy0 with ⟨s', rfl⟩ | ⟨m', e', hm', rfl⟩ <;>
      exact delivers_zero hwidth _
  · rcases nonneg_of_value hy hy0 with ⟨s', rfl⟩ | ⟨m', e', hm', rfl⟩
    · rw [value_zero, mul_zero]
      exact delivers_zero hwidth _
    · obtain ⟨n, q, hfits, hrounds, hmul⟩ := mul_finite hm hm' hx hy .positive .positive
      rw [hmul]
      exact delivers_unpacked hwidth hfits hrounds

omit hwidth in
/-- Where a quotient is at least 1, by the leading bits of both numbers. -/
theorem log_quotient_ge {m m' : ℕ} (e e' : ℤ) (hm : 0 < m) (hm' : 0 < m') :
    m.log2 + e - (m'.log2 + e') - 1 ≤ Int.log 2 ((m : ℚ) * 2 ^ e / (m' * 2 ^ e')) := by
  have hm0 : (0 : ℚ) < m := by exact_mod_cast hm
  have hm0' : (0 : ℚ) < m' := by exact_mod_cast hm'
  refine (Int.zpow_le_iff_le_log (b := 2) (by omega) (by positivity)).1 ?_
  have hlow : ((2 ^ m.log2 : ℕ) : ℚ) ≤ m := by exact_mod_cast Nat.log2_self_le hm.ne'
  have hhigh : (m' : ℚ) ≤ (2 ^ (m'.log2 + 1) : ℕ) := by exact_mod_cast Nat.lt_log2_self.le
  rw [le_div_iff₀ (by positivity)]
  calc ((2 : ℕ) : ℚ) ^ ((m.log2 : ℤ) + e - (m'.log2 + e') - 1) * (m' * 2 ^ e')
      ≤ 2 ^ ((m.log2 : ℤ) + e - (m'.log2 + e') - 1) * ((2 ^ (m'.log2 + 1) : ℕ) * 2 ^ e') := by
        push_cast
        gcongr
        exact_mod_cast hhigh
    _ = (2 ^ m.log2 : ℕ) * 2 ^ e := by
        push_cast
        rw [← zpow_natCast, ← zpow_natCast, ← zpow_add₀ two_ne_zero, ← zpow_add₀ two_ne_zero,
          ← zpow_add₀ two_ne_zero]
        congr 1
        push_cast
        ring
    _ ≤ m * 2 ^ e := by gcongr

/-- Quotients of numbers that are not below 0 by positive ones are delivered. -/
theorem delivers_div {m' : ℕ} {e' : ℤ} {hm' : 0 < m'} (hx : Written (ofFormat f) x)
    (hx0 : 0 ≤ value x) :
    Delivers (ofFormat f) (value x / value (.finite .positive m' e' hm'))
      (unpack f (pack f (UnpackedFloat.div f x (.finite .positive m' e' hm')))) := by
  rcases nonneg_of_value hx hx0 with ⟨s, rfl⟩ | ⟨m, e, hm, rfl⟩
  · rw [value_zero, zero_div]
    exact delivers_zero hwidth _
  · have hm0 : (0 : ℚ) < m := by exact_mod_cast hm
    have hm0' : (0 : ℚ) < m' := by exact_mod_cast hm'
    show Delivers _ _ (unpack f (pack f (roundWithAccuracy f .positive _ _ _)))
    have hle := min_le_right (e - e') (f.targetExponent (totalExponent m e - totalExponent m' e'))
    have hle' := min_le_left (e - e') (f.targetExponent (totalExponent m e - totalExponent m' e'))
    generalize min (e - e') (f.targetExponent (totalExponent m e - totalExponent m' e')) = t at *
    obtain ⟨k, hk⟩ := Int.le.dest hle'
    have hshift : (e - e' - t).toNat = k := by omega
    rw [hshift, Nat.shiftLeft_eq]
    have hpos : (0 : ℚ) < (m * 2 ^ k : ℕ) / m' := by
      push_cast
      positivity
    have hvalue : ((m * 2 ^ k : ℕ) : ℚ) / m' * 2 ^ t =
        value (.finite .positive m e hm) / value (.finite .positive m' e' hm') := by
      simp only [value, Sign.apply]
      rw [show e = t + k + e' by omega, zpow_add₀ two_ne_zero, zpow_add₀ two_ne_zero,
        zpow_natCast]
      push_cast
      field_simp
    have hplace : t ≤ (ofFormat f).lastPlace ((m * 2 ^ k : ℕ) / m' * 2 ^ t) := by
      have hlog := log_quotient_ge e e' hm hm'
      refine hle.trans ?_
      rw [hvalue, targetExponent_eq, totalExponent, totalExponent, BinaryFormat.lastPlace]
      refine max_le_max_right _ ?_
      show _ ≤ Int.log 2 ((m : ℚ) * 2 ^ e / (m' * 2 ^ e')) - _
      omega
    obtain ⟨n, q, hfits, hrounds, hround⟩ :=
      roundWithAccuracy_eq hpos (stands_div _ hm') hplace .positive
    rw [hround, ← hvalue]
    exact delivers_unpacked hwidth hfits hrounds

end Operations

/-! ## Defined results -/

theorem unpack_pack_ne_of_fits {m : ℕ} {q : ℤ} (h : (ofFormat f).Fits m q) (s : Sign) :
    unpack f (pack f (unpacked s m q)) ≠ .notANumber := by
  rw [unpack_pack_unpacked h]
  unfold unpacked
  split_ifs <;> exact UnpackedFloat.noConfusion

theorem unpack_pack_ne_of_written {u : UnpackedFloat} (hu : Written (ofFormat f) u) :
    unpack f (pack f u) ≠ .notANumber := by
  rcases hu.cases with ⟨s, rfl⟩ | ⟨s, m, q, hm, rfl⟩
  · exact ne_of_eq_of_ne unpack_packedZero UnpackedFloat.noConfusion
  · have h := unpack_pack_ne_of_fits hu s
    rwa [unpacked, dif_neg hm.ne'] at h

theorem unpack_pack_normalize_ne (M e : ℤ) (s : Sign) :
    unpack f (pack f (normalize f M e s)) ≠ .notANumber := by
  have hround : ∀ {n : ℕ}, 0 < n → ∀ s', unpack f (pack f (round f s' n e)) ≠ .notANumber := by
    intro n hn s'
    obtain ⟨m, q, hfits, -, hround⟩ := round_eq (f := f) hn e s'
    rw [hround]
    exact unpack_pack_ne_of_fits hfits s'
  unfold UnpackedFloat.normalize
  rcases lt_trichotomy M 0 with hneg | rfl | hpos
  · rw [compare_lt_iff_lt.2 hneg]
    exact hround (by omega) _
  · exact unpack_pack_ne_of_written (u := .zero s) trivial
  · rw [compare_gt_iff_gt.2 hpos]
    exact hround (by omega) _

/-- A finite number can be added to all that is defined. -/
theorem unpack_pack_add_ne {x y : UnpackedFloat}
    (hx : Written (ofFormat f) x ∨ ∃ s, x = .infinity s) (hy : Written (ofFormat f) y) :
    unpack f (pack f (UnpackedFloat.add f x y)) ≠ .notANumber := by
  rcases hx with hx | ⟨s, rfl⟩
  · rcases hx.cases with ⟨s, rfl⟩ | ⟨s, m, e, hm, rfl⟩
    · rcases hy.cases with ⟨s', rfl⟩ | ⟨s', m', e', hm', rfl⟩
      · cases s <;> cases s' <;> exact unpack_pack_ne_of_written (u := .zero _) trivial
      · exact unpack_pack_ne_of_written hy
    · rcases hy.cases with ⟨s', rfl⟩ | ⟨s', m', e', hm', rfl⟩
      · exact unpack_pack_ne_of_written hx
      · exact unpack_pack_normalize_ne _ _ _
  · have hadd : UnpackedFloat.add f (.infinity s) y = .infinity s := by
      rcases hy.cases with ⟨s', rfl⟩ | ⟨s', m', e', hm', rfl⟩ <;> rfl
    rw [hadd]
    exact ne_of_eq_of_ne (unpack_pack_infinity s) UnpackedFloat.noConfusion

end Cueflow.Number
