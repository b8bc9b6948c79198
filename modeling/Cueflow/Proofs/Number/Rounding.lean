import Mathlib
import Cueflow.Proofs.Number.Amount
/-!
# Rounding to nearest

What rounding makes of a number depends on the number alone: its `lastPlace` in the format, and
the `Nearest` mantissa there.

> `Rounds.mono`: rounding keeps the order of numbers.

> `roundWithAccuracy_eq`, `round_eq`: the model of binary floating point writes what rounding
> makes of the number that its mantissa, its exponent and its residual bits stand for.

The model keeps two bits of what it shifts out. They tell on which side of a half the rest is
(`Stands`), and shifting keeps that. A shift stops at the last place, where the mantissa is
rounded; if that carries it to the next power of two, a second shift takes care of it
(`carry`).
-/

namespace Cueflow.Number

open Float.Model (Format UnpackedFloat totalExponent)
open Float.Model.UnpackedFloat
open BinaryFormat

/-! ## Nearest mantissas -/

/-- No natural number is nearer, and of two that are as near this is the even one. -/
structure Nearest (r : ℕ) (x : ℚ) : Prop where
  le : x ≤ r + 1 / 2
  ge : r ≤ x + 1 / 2
  even : x = r + 1 / 2 ∨ r = x + 1 / 2 → r % 2 = 0

theorem nearest_natCast (n : ℕ) : Nearest n n where
  le := by linarith
  ge := by linarith
  even h := by rcases h with h | h <;> linarith

/-- Where a larger number had a smaller mantissa, both would be halfway between the two. -/
theorem Nearest.mono {r s : ℕ} {x y : ℚ} (hr : Nearest r x) (hs : Nearest s y) (h : x ≤ y) :
    r ≤ s := by
  by_contra hlt
  have hgap : s + 1 ≤ r := by omega
  have hgap' : (s : ℚ) + 1 ≤ r := by exact_mod_cast hgap
  have hge := hr.ge
  have hle := hs.le
  have hcast : (r : ℚ) = s + 1 := by linarith
  have hnext : r = s + 1 := by exact_mod_cast hcast
  have hr' := hr.even (Or.inr (by linarith))
  have hs' := hs.even (Or.inl (by linarith))
  omega

/-! ## Residual bits -/

/-- A mantissa with its residual bits in halves, as far as these tell. -/
def halves (em : ExtendedMantissa) : ℕ := 2 * em.mantissa + em.roundBit.toNat

/-- The number has this mantissa and these residual bits: a half or not, and a rest or not. -/
structure Stands (em : ExtendedMantissa) (x : ℚ) : Prop where
  le : halves em ≤ 2 * x
  lt : 2 * x < halves em + 1
  rest : em.stickyBit = true ↔ halves em < 2 * x

theorem stands_exact (m : ℕ) : Stands (.ofMantissaAndAccuracy m .exact) m := by
  refine ⟨?_, ?_, ?_⟩ <;> simp [halves, ExtendedMantissa.ofMantissaAndAccuracy]

theorem Stands.mantissa_le {em : ExtendedMantissa} {x : ℚ} (h : Stands em x) :
    em.mantissa ≤ x := by
  have hle := h.le
  unfold halves at hle
  push_cast at hle
  have : (0 : ℚ) ≤ em.roundBit.toNat := Nat.cast_nonneg _
  linarith

theorem Stands.lt_mantissa_succ {em : ExtendedMantissa} {x : ℚ} (h : Stands em x) :
    x < em.mantissa + 1 := by
  have hlt := h.lt
  unfold halves at hlt
  push_cast at hlt
  have : (em.roundBit.toNat : ℚ) ≤ 1 := by exact_mod_cast Bool.toNat_le _
  linarith

theorem Stands.mantissa_eq {em : ExtendedMantissa} {n : ℕ} (h : Stands em n) :
    em.mantissa = n := by
  have hle : em.mantissa ≤ n := by exact_mod_cast h.mantissa_le
  have hlt : n < em.mantissa + 1 := by exact_mod_cast h.lt_mantissa_succ
  omega

/-- The residual bits are all that rounding asks for. -/
theorem Stands.nearest {em : ExtendedMantissa} {x : ℚ} (h : Stands em x) :
    Nearest em.roundedMantissa x := by
  obtain ⟨hle, hlt, hrest⟩ := h
  rcases em with ⟨m, _ | _, _ | _⟩ <;>
    simp only [halves, Bool.toNat_false, Bool.toNat_true, Nat.add_zero, false_iff, true_iff,
      Bool.false_eq_true, not_lt] at hle hlt hrest <;> push_cast at hle hlt hrest
  · -- a whole number
    have hx : x = m := by linarith
    rw [hx]
    exact nearest_natCast m
  · -- below the half
    show Nearest m x
    exact ⟨by linarith, by linarith, by rintro (h | h) <;> linarith⟩
  · -- the half itself
    show Nearest (m + m % 2) x
    have hx : x = m + 1 / 2 := by linarith
    have hmod : (((m + m % 2 : ℕ) : ℚ) = m) ∨ (((m + m % 2 : ℕ) : ℚ) = m + 1) := by
      rcases Nat.mod_two_eq_zero_or_one m with h | h <;> simp [h]
    refine ⟨?_, ?_, fun _ => by omega⟩ <;> rcases hmod with h | h <;> rw [h] <;> linarith
  · -- above the half
    show Nearest (m + 1) x
    refine ⟨?_, ?_, ?_⟩ <;> push_cast
    · linarith
    · linarith
    · rintro (h | h) <;> linarith

theorem Stands.shiftRightOne {em : ExtendedMantissa} {x : ℚ} (h : Stands em x) :
    Stands em.shiftRightOne (x / 2) := by
  have hm := h.mantissa_le
  have hm' := h.lt_mantissa_succ
  obtain ⟨hle, -, hrest⟩ := h
  -- the half of the new mantissa is the last bit of the old one
  have hhalves : halves em.shiftRightOne = em.mantissa := by
    show 2 * (em.mantissa / 2) + (em.mantissa % 2 != 0).toNat = em.mantissa
    rcases Nat.mod_two_eq_zero_or_one em.mantissa with h | h <;> simp [h] <;> omega
  rw [halves] at hle hrest
  push_cast at hle hrest
  refine ⟨?_, ?_, ?_⟩
  · rw [hhalves]
    linarith
  · rw [hhalves]
    linarith
  · rw [hhalves]
    show (em.roundBit || em.stickyBit) = true ↔ _
    cases hround : em.roundBit
    · rw [Bool.false_or, hrest, hround]
      simp only [Bool.toNat_false, Nat.cast_zero]
      constructor <;> intro h <;> linarith
    · rw [hround] at hle
      simp only [Bool.true_or, true_iff]
      simp only [Bool.toNat_true, Nat.cast_one] at hle
      linarith

theorem Stands.shiftRight {em : ExtendedMantissa} {x : ℚ} (h : Stands em x) (n : ℕ) :
    Stands (em >>> n) (x / 2 ^ n) := by
  induction n with
  | zero => simpa [HShiftRight.hShiftRight, Nat.repeat] using h
  | succ n ih =>
    have hnext := ih.shiftRightOne
    rw [div_div, ← pow_succ] at hnext
    exact hnext

/-- A quotient and what its remainder tells. -/
theorem stands_div (a : ℕ) {b : ℕ} (hb : 0 < b) :
    Stands (.ofMantissaAndAccuracy (a / b) (accuracyOfFraction (a % b) b)) (a / b : ℚ) := by
  have hb' : (0 : ℚ) < b := by exact_mod_cast hb
  have hlt := Nat.mod_lt a hb
  have hsplit := Nat.div_add_mod' a b
  generalize a / b = q, a % b = r at hlt hsplit
  -- comparing halves with the quotient is comparing natural numbers
  have hle_iff : ∀ h : ℕ, (h : ℚ) ≤ 2 * (a / b) ↔ h * b ≤ 2 * a := fun h => by
    rw [← mul_div_assoc, le_div_iff₀ hb']
    exact_mod_cast Iff.rfl
  have hlt_iff : ∀ h : ℕ, 2 * (a / b : ℚ) < h + 1 ↔ 2 * a < (h + 1) * b := fun h => by
    rw [← mul_div_assoc, div_lt_iff₀ hb']
    exact_mod_cast Iff.rfl
  have stands : ∀ round sticky, let em : ExtendedMantissa := ⟨q, round, sticky⟩
      halves em * b ≤ 2 * a → 2 * a < (halves em + 1) * b →
      (sticky = true ↔ halves em * b < 2 * a) → Stands em (a / b : ℚ) := by
    intro round sticky em hle hlt hrest
    refine ⟨(hle_iff _).2 hle, (hlt_iff _).2 hlt, hrest.trans ?_⟩
    rw [← mul_div_assoc, lt_div_iff₀ hb']
    exact_mod_cast Iff.rfl
  unfold accuracyOfFraction
  split
  next h0 =>
    refine stands false false ?_ ?_ ?_ <;> simp only [halves, Bool.toNat_false] <;> grind
  next h0 =>
    rcases hc : compare (2 * r) b with _ | _ | _
    · have hhalf := compare_lt_iff_lt.1 hc
      refine stands false true ?_ ?_ ?_ <;> simp only [halves, Bool.toNat_false] <;> grind
    · have hhalf := compare_eq_iff_eq.1 hc
      refine stands true false ?_ ?_ ?_ <;> simp only [halves, Bool.toNat_true] <;> grind
    · have hhalf := compare_gt_iff_gt.1 hc
      refine stands true true ?_ ?_ ?_ <;> simp only [halves, Bool.toNat_true] <;> grind

/-! ## Last places -/

/-- The exponent of the last place in which a positive number is written. -/
def BinaryFormat.lastPlace (g : BinaryFormat) (v : ℚ) : ℤ :=
  max (Int.log 2 v - g.fractionBits) g.minExponent

section LastPlace

variable {g : BinaryFormat} {v v' : ℚ}

theorem lastPlace_mono (hv : 0 < v) (h : v ≤ v') : g.lastPlace v ≤ g.lastPlace v' :=
  max_le_max_right _ (Int.sub_le_sub_right (Int.log_mono_right hv h) _)

/-- In the last place a number takes no more bits than the format has. -/
theorem quotient_lt (v : ℚ) : v / 2 ^ g.lastPlace v < (2 * 2 ^ g.fractionBits : ℕ) := by
  have hlog : v < 2 ^ (Int.log 2 v + 1) := Int.lt_zpow_succ_log_self (b := 2) (by omega) v
  rw [div_lt_iff₀ (by positivity)]
  refine hlog.trans_le ?_
  push_cast
  rw [← zpow_natCast, ← zpow_one_add₀ two_ne_zero, ← zpow_add₀ two_ne_zero]
  refine zpow_le_zpow_right₀ one_le_two ?_
  have := le_max_left (Int.log 2 v - g.fractionBits) g.minExponent
  unfold BinaryFormat.lastPlace
  omega

/-- It takes all of them, unless its last place is that of the smallest numbers. -/
theorem le_quotient (hv : 0 < v) (h : g.minExponent < g.lastPlace v) :
    ((2 ^ g.fractionBits : ℕ) : ℚ) ≤ v / 2 ^ g.lastPlace v := by
  have hlast : g.lastPlace v = Int.log 2 v - g.fractionBits := by
    unfold BinaryFormat.lastPlace at h ⊢
    omega
  have hlog : (2 : ℚ) ^ Int.log 2 v ≤ v := Int.zpow_log_le_self (b := 2) (by omega) hv
  rw [le_div_iff₀ (by positivity), hlast]
  push_cast
  rw [← zpow_natCast, ← zpow_add₀ two_ne_zero]
  simpa using hlog

theorem log_scaled {m : ℕ} {x : ℚ} (e : ℤ) (hm : m ≠ 0) (hle : m ≤ x) (hlt : x < m + 1) :
    Int.log 2 (x * 2 ^ e) = m.log2 + e := by
  have hx : 0 < x := lt_of_lt_of_le (by exact_mod_cast Nat.pos_of_ne_zero hm) hle
  have hlow : ((2 ^ m.log2 : ℕ) : ℚ) ≤ x := by
    refine le_trans ?_ hle
    exact_mod_cast Nat.log2_self_le hm
  have hhigh : x < (2 ^ (m.log2 + 1) : ℕ) := by
    refine hlt.trans_le ?_
    exact_mod_cast Nat.lt_log2_self
  refine le_antisymm (Int.lt_add_one_iff.1 ?_) ?_
  · refine (Int.lt_zpow_iff_log_lt (b := 2) (by omega) (by positivity)).1 ?_
    calc x * 2 ^ e < (2 ^ (m.log2 + 1) : ℕ) * 2 ^ e := by gcongr
      _ = 2 ^ ((m.log2 : ℤ) + e + 1) := by
        push_cast
        rw [← zpow_natCast, ← zpow_add₀ two_ne_zero]
        congr 1
        push_cast
        ring
  · refine (Int.zpow_le_iff_le_log (b := 2) (by omega) (by positivity)).1 ?_
    calc (2 : ℚ) ^ ((m.log2 : ℤ) + e) = (2 ^ m.log2 : ℕ) * 2 ^ e := by
          push_cast
          rw [zpow_add₀ two_ne_zero, zpow_natCast]
      _ ≤ x * 2 ^ e := by gcongr

end LastPlace

/-! ## Rounding -/

/-- What rounding makes of a number: the nearest mantissa in its last place. -/
def BinaryFormat.Rounds (g : BinaryFormat) (v w : ℚ) : Prop :=
  ∃ r : ℕ, Nearest r (v / 2 ^ g.lastPlace v) ∧ w = r * 2 ^ g.lastPlace v

section Rounds

variable {g : BinaryFormat} {v v' w w' : ℚ}

/-- Rounding keeps the order of numbers. -/
theorem BinaryFormat.Rounds.mono (hv : 0 ≤ v) (h : v ≤ v') (hw : g.Rounds v w)
    (hw' : g.Rounds v' w') : w ≤ w' := by
  obtain ⟨r, hr, rfl⟩ := hw
  obtain ⟨r', hr', rfl⟩ := hw'
  rcases eq_or_lt_of_le hv with rfl | hv
  · have : r ≤ 0 := hr.mono (nearest_natCast 0) (by simp)
    obtain rfl : r = 0 := by omega
    rw [Nat.cast_zero, zero_mul]
    positivity
  · rcases eq_or_lt_of_le (lastPlace_mono (g := g) hv h) with heq | hlt
    · rw [← heq] at hr' ⊢
      have : r ≤ r' := hr.mono hr' (by gcongr)
      gcongr
    · -- the mantissas are apart by the leading bit
      have hleading : 2 ^ g.fractionBits ≤ r' := by
        refine (nearest_natCast _).mono hr' (le_quotient (hv.trans_le h) ?_)
        exact lt_of_le_of_lt (le_max_right _ _) hlt
      have hfits : r ≤ 2 * 2 ^ g.fractionBits :=
        hr.mono (nearest_natCast _) (quotient_lt v).le
      calc (r : ℚ) * 2 ^ g.lastPlace v
          ≤ (2 * 2 ^ g.fractionBits : ℕ) * 2 ^ g.lastPlace v := by gcongr
        _ = (2 ^ g.fractionBits : ℕ) * 2 ^ (g.lastPlace v + 1) := by
          rw [zpow_add_one₀ two_ne_zero]
          push_cast
          ring
        _ ≤ r' * 2 ^ g.lastPlace v' := by
          gcongr
          · exact one_le_two
          · omega

theorem BinaryFormat.Fits.log2_le {m : ℕ} {q : ℤ} (h : g.Fits m q) : m.log2 ≤ g.fractionBits := by
  by_cases hm : m = 0
  · simp [hm]
  · have hlt := h.lt
    rw [← Nat.pow_succ'] at hlt
    exact Nat.lt_succ_iff.1 ((Nat.log2_lt hm).2 hlt)

theorem BinaryFormat.Fits.lastPlace_eq {m : ℕ} {q : ℤ} (h : g.Fits m q) (hm : m ≠ 0) :
    g.lastPlace (m * 2 ^ q) = q := by
  have hlog := h.log2_le
  have hle := h.le
  unfold BinaryFormat.lastPlace
  rw [log_scaled q hm le_rfl (lt_add_one _)]
  rcases h.normal with rfl | hfull
  · omega
  · have := (Nat.le_log2 hm).2 hfull
    omega

/-- What fits is not rounded. -/
theorem BinaryFormat.Fits.rounds {m : ℕ} {q : ℤ} (h : g.Fits m q) :
    g.Rounds (m * 2 ^ q) (m * 2 ^ q) := by
  by_cases hm : m = 0
  · refine ⟨0, ?_, ?_⟩
    · simpa [hm] using nearest_natCast 0
    · simp [hm]
  · refine ⟨m, ?_, ?_⟩
    · rw [h.lastPlace_eq hm, mul_div_cancel_right₀ _ (by positivity)]
      exact nearest_natCast m
    · rw [h.lastPlace_eq hm]

end Rounds

/-! ## The model -/

/-- The number with this sign, mantissa and exponent, as the model has it. -/
def unpacked (s : Sign) (m : ℕ) (q : ℤ) : UnpackedFloat :=
  if hm : m = 0 then .zero s else .finite s m q (Nat.pos_of_ne_zero hm)

section Model

variable {f : Format}

theorem targetExponent_eq (t : ℤ) : f.targetExponent t =
    max (t - 1 - (ofFormat f).fractionBits) (ofFormat f).minExponent := by
  rw [fractionBits_ofFormat]
  show max (t - ((1 + f.mantissaBitsWithoutImplicit : ℕ) : ℤ)) _ = _
  push_cast
  rw [sub_sub]
  rfl

/-- The model finds the last place of a number by its mantissa. -/
theorem targetExponent_totalExponent {m : ℕ} {e : ℤ} {x : ℚ} (hx : 0 < x) (hle : m ≤ x)
    (hlt : x < m + 1) (he : e ≤ (ofFormat f).lastPlace (x * 2 ^ e)) :
    f.targetExponent (totalExponent m e) = (ofFormat f).lastPlace (x * 2 ^ e) := by
  have hfraction : 0 < (ofFormat f).fractionBits := by
    rw [fractionBits_ofFormat]
    exact f.hm
  rw [targetExponent_eq, totalExponent]
  unfold BinaryFormat.lastPlace at he ⊢
  by_cases hm : m = 0
  · -- less than one in the place of the exponent is less than one in the last place
    have hlog : Int.log 2 (x * 2 ^ e) < e := by
      refine (Int.lt_zpow_iff_log_lt (by omega) (by positivity)).1 ?_
      rw [hm, Nat.cast_zero, zero_add] at hlt
      exact mul_lt_of_lt_one_left (by positivity) hlt
    rw [hm, Nat.log2_zero]
    omega
  · rw [log_scaled e hm hle hlt]
    omega

/-- A shift to the right that leads to the target exponent. -/
theorem shiftToTargetExponent_stands {m k : ℕ} {e : ℤ} {accuracy : Accuracy} {x : ℚ}
    (h : Stands (.ofMantissaAndAccuracy m accuracy) x)
    (hk : f.targetExponent (totalExponent m e) = e + k) :
    ∃ em, shiftToTargetExponent f m e accuracy = (em, e + k) ∧ Stands em (x / 2 ^ k) := by
  unfold shiftToTargetExponent shiftToExponent
  have hshift : (e + (k : ℤ) - e).toNat = k := by omega
  rw [hk]
  dsimp only
  rw [hshift]
  exact ⟨_, rfl, h.shiftRight k⟩

/-- The second shift changes nothing, unless rounding carried to the next power of two. -/
theorem carry {r : ℕ} {q : ℤ} (hr : r ≤ 2 * 2 ^ (ofFormat f).fractionBits)
    (hle : (ofFormat f).minExponent ≤ q)
    (hnormal : q = (ofFormat f).minExponent ∨ 2 ^ (ofFormat f).fractionBits ≤ r) :
    ∃ em q', shiftToTargetExponent f r q .exact = (em, q') ∧
      (ofFormat f).Fits em.mantissa q' ∧ (em.mantissa : ℚ) * 2 ^ q' = r * 2 ^ q := by
  rcases Nat.lt_or_eq_of_le hr with hlt | rfl
  · -- it fits as it is
    have hfits : (ofFormat f).Fits r q := ⟨hlt, hle, hnormal⟩
    have htarget : f.targetExponent (totalExponent r q) = q + (0 : ℕ) := by
      rw [targetExponent_eq, totalExponent]
      have := hfits.log2_le
      rcases hnormal with rfl | hfull
      · omega
      · have := (Nat.le_log2 (Nat.ne_of_gt (Nat.lt_of_lt_of_le (Nat.two_pow_pos _) hfull))).2 hfull
        omega
    obtain ⟨em, hshift, hem⟩ := shiftToTargetExponent_stands (stands_exact r) htarget
    rw [pow_zero, div_one] at hem
    rw [← hem.mantissa_eq] at hfits
    exact ⟨em, _, hshift, by simpa using hfits, by simp [hem.mantissa_eq]⟩
  · have htarget : f.targetExponent (totalExponent (2 * 2 ^ (ofFormat f).fractionBits) q) =
        q + (1 : ℕ) := by
      rw [targetExponent_eq, totalExponent, ← Nat.pow_succ', Nat.log2_two_pow]
      omega
    obtain ⟨em, hshift, hem⟩ := shiftToTargetExponent_stands (stands_exact _) htarget
    have hhalf : ((2 * 2 ^ (ofFormat f).fractionBits : ℕ) : ℚ) / 2 ^ 1 =
        (2 ^ (ofFormat f).fractionBits : ℕ) := by
      push_cast
      ring
    rw [hhalf] at hem
    refine ⟨em, _, hshift, ?_, ?_⟩ <;> rw [hem.mantissa_eq]
    · have := Nat.two_pow_pos (ofFormat f).fractionBits
      exact ⟨by omega, by omega, Or.inr (Nat.le_refl _)⟩
    · rw [Nat.cast_one, zpow_add_one₀ two_ne_zero]
      push_cast
      ring

/-- The model rounds what its mantissa, its exponent and its residual bits stand for, if the
exponent is not above the last place. -/
theorem roundWithAccuracy_eq {M : ℕ} {e : ℤ} {accuracy : Accuracy} {x : ℚ} (hx : 0 < x)
    (h : Stands (.ofMantissaAndAccuracy M accuracy) x)
    (he : e ≤ (ofFormat f).lastPlace (x * 2 ^ e)) (s : Sign) :
    ∃ m q, (ofFormat f).Fits m q ∧ (ofFormat f).Rounds (x * 2 ^ e) (m * 2 ^ q) ∧
      roundWithAccuracy f s M e accuracy = unpacked s m q := by
  have hmantissa : (ExtendedMantissa.ofMantissaAndAccuracy M accuracy).mantissa = M := by
    rcases accuracy with _ | _ | _ | _ <;> rfl
  obtain ⟨k, hk⟩ := Int.le.dest he
  have htarget : f.targetExponent (totalExponent M e) = e + k := by
    have hle := h.mantissa_le
    have hlt := h.lt_mantissa_succ
    rw [hmantissa] at hle hlt
    rw [targetExponent_totalExponent hx hle hlt he, hk]
  obtain ⟨em, hfirst, hem⟩ := shiftToTargetExponent_stands h htarget
  -- in the last place
  have hquotient : x / 2 ^ k = x * 2 ^ e / 2 ^ (ofFormat f).lastPlace (x * 2 ^ e) := by
    rw [← hk, zpow_add₀ two_ne_zero, mul_comm, mul_div_mul_left _ _ (by positivity), zpow_natCast]
  have hnearest := hem.nearest
  rw [hquotient] at hnearest
  have hv : 0 < x * 2 ^ e := by positivity
  have hr : em.roundedMantissa ≤ 2 * 2 ^ (ofFormat f).fractionBits :=
    hnearest.mono (nearest_natCast _) (quotient_lt _).le
  have hle : (ofFormat f).minExponent ≤ e + k := by
    rw [hk]
    exact le_max_right _ _
  have hnormal : e + k = (ofFormat f).minExponent ∨
      2 ^ (ofFormat f).fractionBits ≤ em.roundedMantissa := by
    rcases eq_or_lt_of_le hle with heq | hlt
    · exact Or.inl heq.symm
    · exact Or.inr ((nearest_natCast _).mono hnearest (le_quotient hv (hk ▸ hlt)))
  obtain ⟨em', q, hsecond, hfits, hvalue⟩ := carry hr hle hnormal
  refine ⟨em'.mantissa, q, hfits, ⟨em.roundedMantissa, hnearest, ?_⟩, ?_⟩
  · rw [hvalue, hk]
  · unfold roundWithAccuracy
    rw [hfirst]
    dsimp only
    rw [hsecond]
    rfl

/-- Zeros are added to a mantissa whose exponent is above the last place. -/
theorem round_eq {M : ℕ} (hM : 0 < M) (e : ℤ) (s : Sign) :
    ∃ m q, (ofFormat f).Fits m q ∧ (ofFormat f).Rounds (M * 2 ^ e) (m * 2 ^ q) ∧
      round f s M e = unpacked s m q := by
  have htarget : f.targetExponent (totalExponent M e) = (ofFormat f).lastPlace (M * 2 ^ e) := by
    rw [targetExponent_eq, totalExponent, BinaryFormat.lastPlace,
      log_scaled e hM.ne' le_rfl (lt_add_one _), add_right_comm, add_sub_cancel_right]
  unfold UnpackedFloat.round decreaseExponent
  rw [htarget]
  dsimp only
  generalize hk : (e - (ofFormat f).lastPlace (M * 2 ^ e)).toNat = k
  have hvalue : ((M <<< k : ℕ) : ℚ) * 2 ^ (e - k) = M * 2 ^ e := by
    rw [Nat.shiftLeft_eq, zpow_sub₀ two_ne_zero, zpow_natCast]
    push_cast
    field_simp
  have hpos : (0 : ℚ) < (M <<< k : ℕ) := by
    rw [Nat.shiftLeft_eq]
    exact_mod_cast Nat.mul_pos hM (Nat.two_pow_pos k)
  rw [← hvalue] at hk ⊢
  exact roundWithAccuracy_eq hpos (stands_exact _) (by omega) s

end Model

end Cueflow.Number
