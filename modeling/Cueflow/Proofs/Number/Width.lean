import Mathlib
import Cueflow.Proofs.Number.Patterns
/-!
# Changing width

> `narrow_widen`: a finite number of single width survives the way to double width and back.

Both ways go through `nearest`, which is exact on what the target format can write
(`nearest_of_fits`): the last place that it picks is then the exponent of the number, at which
there is nothing to round. So the way there is a change of the pair that a pattern stands for
(`rewrite_eq_layout`), and the way back undoes it.
-/

namespace Cueflow.Number

/-! ## Ratios -/

theorem scaleByTwoPow_ratio (k : Int) (num : Nat) {den : Nat} (hden : 0 < den) :
    0 < (scaleByTwoPow k num den).2 ∧
      ((scaleByTwoPow k num den).1 : ℚ) / (scaleByTwoPow k num den).2 = num / den * 2 ^ k := by
  unfold scaleByTwoPow
  split
  next hk =>
    obtain ⟨n, rfl⟩ := Int.eq_ofNat_of_zero_le hk
    refine ⟨hden, ?_⟩
    simp only [Int.toNat_natCast, zpow_natCast]
    push_cast
    ring
  next hk =>
    obtain ⟨n, hn⟩ := Int.eq_ofNat_of_zero_le (show 0 ≤ -k by omega)
    obtain rfl : k = -n := by omega
    refine ⟨Nat.mul_pos hden (Nat.two_pow_pos _), ?_⟩
    simp only [Int.neg_neg, Int.toNat_natCast, zpow_neg, zpow_natCast]
    push_cast
    rw [div_mul_eq_div_div]
    rfl

/-- The lengths of two numbers leave two exponents to choose from for their ratio. -/
theorem ratio_bounds {num den : Nat} (hnum : 0 < num) (hden : 0 < den) :
    (2 : ℚ) ^ ((num.log2 : Int) - den.log2 - 1) < num / den ∧
      (num / den : ℚ) < 2 ^ ((num.log2 : Int) - den.log2 + 1) := by
  have hden' : (0 : ℚ) < den := by exact_mod_cast hden
  constructor
  · rw [lt_div_iff₀ hden']
    calc (2 : ℚ) ^ ((num.log2 : Int) - den.log2 - 1) * den
        < 2 ^ ((num.log2 : Int) - den.log2 - 1) * 2 ^ (den.log2 + 1) := by
          gcongr
          exact_mod_cast Nat.lt_log2_self
      _ = 2 ^ num.log2 := by
          rw [← zpow_natCast, ← zpow_natCast, ← zpow_add₀ (by norm_num)]
          congr 1
          push_cast
          omega
      _ ≤ num := by exact_mod_cast Nat.log2_self_le (by omega)
  · rw [div_lt_iff₀ hden']
    calc (num : ℚ) < 2 ^ (num.log2 + 1) := by exact_mod_cast Nat.lt_log2_self
      _ = 2 ^ ((num.log2 : Int) - den.log2 + 1) * 2 ^ den.log2 := by
          rw [← zpow_natCast, ← zpow_natCast, ← zpow_add₀ (by norm_num)]
          congr 1
          push_cast
          omega
      _ ≤ 2 ^ ((num.log2 : Int) - den.log2 + 1) * den := by
          gcongr
          exact_mod_cast Nat.log2_self_le (by omega)

/-- The exponent of the power of two below a ratio is what its bounds say. -/
theorem floorLog2_eq {num den : Nat} {e : Int} (hnum : 0 < num) (hden : 0 < den)
    (hlo : (2 : ℚ) ^ e ≤ num / den) (hhi : (num / den : ℚ) < 2 ^ (e + 1)) :
    floorLog2 num den = e := by
  have hone : (1 : ℚ) < 2 := one_lt_two
  obtain ⟨hbelow, habove⟩ := ratio_bounds hnum hden
  obtain ⟨E, hE⟩ : ∃ E : Int, E = num.log2 - den.log2 := ⟨_, rfl⟩
  rw [← hE] at hbelow habove
  obtain ⟨hpos, hratio⟩ := scaleByTwoPow_ratio (-E) num hden
  have hcompare : (scaleByTwoPow (-E) num den).2 ≤ (scaleByTwoPow (-E) num den).1 ↔
      (2 : ℚ) ^ E ≤ num / den := by
    have hpos' : (0 : ℚ) < (scaleByTwoPow (-E) num den).2 := by exact_mod_cast hpos
    rw [← Nat.cast_le (α := ℚ), ← one_le_div hpos', hratio, zpow_neg,
      ← div_eq_mul_inv, one_le_div (by positivity)]
  have hlt : e < E + 1 := (zpow_lt_zpow_iff_right₀ hone).1 (hlo.trans_lt habove)
  have hgt : E - 1 < e + 1 := (zpow_lt_zpow_iff_right₀ hone).1 (hbelow.trans hhi)
  unfold floorLog2
  dsimp only
  rw [← hE]
  split_ifs with hb
  · have : E < e + 1 := (zpow_lt_zpow_iff_right₀ hone).1 ((hcompare.1 hb).trans_lt hhi)
    omega
  · have : e < E := (zpow_lt_zpow_iff_right₀ hone).1
      (hlo.trans_lt (not_le.1 fun h => hb (hcompare.2 h)))
    omega

namespace BinaryFormat

variable {f : BinaryFormat}

/-- Rounding changes nothing about a ratio that the format can write. -/
theorem nearest_of_fits {m num den : Nat} {q : Int} (h : f.Fits m q) (hm : 0 < m)
    (hden : 0 < den) (hratio : (num : ℚ) / den = m * 2 ^ q) :
    f.nearest num den = min (f.layout m q) f.infinity := by
  have hnum : 0 < num := by
    by_contra h0
    obtain rfl : num = 0 := by omega
    have : (0 : ℚ) < m * 2 ^ q := by positivity
    simp [← hratio] at this
  have hlog : floorLog2 num den = m.log2 + q := by
    refine floorLog2_eq hnum hden ?_ ?_ <;> rw [hratio]
    · rw [zpow_add₀ two_ne_zero, zpow_natCast]
      gcongr
      exact_mod_cast Nat.log2_self_le (by omega)
    · rw [show (m.log2 + q + 1 : Int) = (m.log2 + 1 : Nat) + q by push_cast; ring,
        zpow_add₀ two_ne_zero, zpow_natCast]
      gcongr
      exact_mod_cast Nat.lt_log2_self
  -- the last place is the exponent that the number has anyway
  have hplace : max ((m.log2 : Int) + q - f.fractionBits) f.minExponent = q := by
    have hle := h.le
    have hlt : m.log2 < f.fractionBits + 1 :=
      (Nat.log2_lt (by omega)).2 (by rw [Nat.pow_succ']; exact h.lt)
    rcases h.normal with hq | hm'
    · omega
    · have := (Nat.le_log2 (by omega)).2 hm'
      omega
  obtain ⟨hpos, hscaled⟩ := scaleByTwoPow_ratio (-q) num hden
  have hmul : (scaleByTwoPow (-q) num den).1 = m * (scaleByTwoPow (-q) num den).2 := by
    rw [hratio, mul_assoc, ← zpow_add₀ two_ne_zero, add_neg_cancel, zpow_zero, mul_one,
      div_eq_iff (by positivity)] at hscaled
    exact_mod_cast hscaled
  unfold nearest
  rw [if_neg (by omega), hlog]
  dsimp only
  rw [hplace, hmul, roundHalfEven_mul_self m hpos]
  rfl

/-! ## There and back -/

/-- The pattern in format `g` of a finite magnitude. -/
def rewrite (f g : BinaryFormat) (magnitude : Nat) : Nat :=
  let (a, b) := scaleByTwoPow (f.decode magnitude).2 (f.decode magnitude).1 1
  g.nearest a b

theorem convert_of_finite {g : BinaryFormat} {bits : Nat} (h : bits % f.signBit < f.infinity) :
    f.convert g bits =
      (if f.signBit ≤ bits then g.signBit else 0) + f.rewrite g (bits % f.signBit) := by
  unfold convert
  dsimp only
  rw [if_neg (by omega), if_neg (by omega)]
  rfl

theorem rewrite_of_fits {g : BinaryFormat} {m n magnitude : Nat} {p q : Int}
    (hdecode : f.decode magnitude = (n, p)) (h : g.Fits m q) (hm : 0 < m)
    (hvalue : (n : ℚ) * 2 ^ p = m * 2 ^ q) :
    f.rewrite g magnitude = min (g.layout m q) g.infinity := by
  unfold rewrite
  rw [hdecode]
  dsimp only
  obtain ⟨hpos, hratio⟩ := scaleByTwoPow_ratio p n one_pos
  refine nearest_of_fits h hm hpos ?_
  rw [hratio, ← hvalue]
  simp

theorem rewrite_zero (g : BinaryFormat) : f.rewrite g 0 = 0 := by
  have hnum : (scaleByTwoPow f.minExponent 0 1).1 = 0 := by
    unfold scaleByTwoPow
    split <;> simp
  simp [rewrite, decode, nearest, hnum]

/-- Zeros at the end of a mantissa make up for a smaller exponent. -/
theorem shifted_up (m k : Nat) (q : Int) :
    ((m * 2 ^ k : Nat) : ℚ) * 2 ^ (q - k) = m * 2 ^ q := by
  push_cast
  rw [mul_assoc, ← zpow_natCast, ← zpow_add₀ two_ne_zero, add_sub_cancel]

/-- In double width the mantissa of a number is shifted up to its full length. -/
theorem rewrite_eq_layout {magnitude m : Nat} {q : Int} (h : magnitude < binary32.infinity)
    (hdecode : binary32.decode magnitude = (m, q)) (hm : m ≠ 0) :
    ∃ k : Nat, binary64.Fits (m * 2 ^ k) (q - k) ∧
      binary32.rewrite binary64 magnitude = binary64.layout (m * 2 ^ k) (q - k) ∧
      binary64.layout (m * 2 ^ k) (q - k) < binary64.infinity := by
  have hfits := fits_decode (f := binary32) magnitude
  have hlayout := layout_decode (f := binary32) magnitude
  rw [hdecode] at hfits hlayout
  obtain ⟨hlt, hle, hnormal⟩ := hfits
  have hsum : m + (q - -149).toNat * 2 ^ 23 = magnitude := hlayout
  have hmagnitude : magnitude < 255 * 2 ^ 23 := h
  change m < 2 * 2 ^ 23 at hlt
  change -149 ≤ q at hle
  change q = -149 ∨ 2 ^ 23 ≤ m at hnormal
  have hlog : m.log2 < 24 := (Nat.log2_lt hm).2 (by omega)
  -- however short the mantissa is, the exponents of double width reach down far enough
  obtain ⟨k, hk⟩ : ∃ k, m.log2 + k = 52 := ⟨52 - m.log2, by omega⟩
  have hlong : 2 ^ 52 ≤ m * 2 ^ k ∧ m * 2 ^ k < 2 ^ 53 := by
    constructor
    · rw [← hk, Nat.pow_add]
      exact Nat.mul_le_mul_right _ (Nat.log2_self_le hm)
    · rw [show 53 = m.log2 + 1 + k by omega, Nat.pow_add]
      exact Nat.mul_lt_mul_of_pos_right Nat.lt_log2_self (Nat.two_pow_pos k)
  have hdouble : binary64.Fits (m * 2 ^ k) (q - k) :=
    ⟨by show m * 2 ^ k < 2 * 2 ^ 52; omega, by show -1074 ≤ q - k; omega, Or.inr hlong.1⟩
  have hbound : binary64.layout (m * 2 ^ k) (q - k) < binary64.infinity := by
    show m * 2 ^ k + (q - k - -1074).toNat * 2 ^ 52 < 2047 * 2 ^ 52
    omega
  refine ⟨k, hdouble, ?_, hbound⟩
  rw [rewrite_of_fits hdecode hdouble (by omega) (shifted_up m k q).symm, min_eq_left hbound.le]

/-- A finite magnitude of single width is still there after double width. -/
theorem rewrite_rewrite {magnitude : Nat} (h : magnitude < binary32.infinity) :
    binary32.rewrite binary64 magnitude < binary64.infinity ∧
      binary64.rewrite binary32 (binary32.rewrite binary64 magnitude) = magnitude := by
  have hfits := fits_decode (f := binary32) magnitude
  have hlayout := layout_decode (f := binary32) magnitude
  rcases hdecode : binary32.decode magnitude with ⟨m, q⟩
  rw [hdecode] at hfits hlayout
  by_cases hm : m = 0
  · obtain rfl : magnitude = 0 := by rw [eq_zero_of_decode hdecode hm]
    rw [rewrite_zero, rewrite_zero]
    exact ⟨by decide, rfl⟩
  · obtain ⟨k, hdouble, hwide, hbound⟩ := rewrite_eq_layout h hdecode hm
    have hpos : 0 < m := Nat.pos_of_ne_zero hm
    rw [hwide]
    refine ⟨hbound, ?_⟩
    rw [rewrite_of_fits (decode_layout hdouble) hfits hpos (shifted_up m k q), hlayout,
      min_eq_left h.le]

end BinaryFormat

open BinaryFormat
open Float.Model.UnpackedFloat

/-- The pattern of a finite number of single width, without its sign bit, is below that of the
infinity. -/
theorem magnitude_lt_of_isFinite {x : Float32} (hx : x.isFinite = true) :
    x.toBits.toNat % binary32.signBit < binary32.infinity :=
  magnitude_lt (f := .binary32) x.toBits.toBitVec hx

/-- Patterns that are below that of the infinity are kept as they are. -/
theorem toBits_ofBits {bits : UInt64}
    (h : bits.toNat % binary64.signBit < binary64.infinity) :
    (Float.ofBits bits).toBits = bits := by
  refine UInt64.toBitVec_inj.1 ?_
  show pack .binary64 (unpack .binary64 bits.toBitVec) = bits.toBitVec
  exact pack_unpack_of_valid (valid_of_magnitude_lt (f := .binary64) bits.toBitVec h)

/-- The sign bit and the magnitude of a finite number in double width. -/
theorem toBits_widen {x : Float32} (hx : x.isFinite = true) : (widen x).toBits.toNat =
    (if binary32.signBit ≤ x.toBits.toNat then binary64.signBit else 0) +
      binary32.rewrite binary64 (x.toBits.toNat % binary32.signBit) := by
  have hlt := magnitude_lt_of_isFinite hx
  obtain ⟨hbound, -⟩ := rewrite_rewrite hlt
  unfold widen
  rw [convert_of_finite hlt]
  change binary32.rewrite binary64 (x.toBits.toNat % binary32.signBit) < 2047 * 2 ^ 52 at hbound
  show (Float.ofBits (UInt64.ofNat
      ((if 2 ^ 31 ≤ x.toBits.toNat then 2 ^ 63 else 0) + _))).toBits.toNat =
    (if 2 ^ 31 ≤ x.toBits.toNat then 2 ^ 63 else 0) + _
  rw [toBits_ofBits, UInt64.toNat_ofNat']
  · split_ifs <;> omega
  · show _ % 2 ^ 63 < 2047 * 2 ^ 52
    rw [UInt64.toNat_ofNat']
    split_ifs <;> omega

/-- A finite number survives the way to double width and back. -/
theorem narrow_widen {x : Float32} (hx : x.isFinite = true) : narrow (widen x) = x := by
  have hlt := magnitude_lt_of_isFinite hx
  obtain ⟨hbound, hback⟩ := rewrite_rewrite hlt
  have hpattern := toBits_widen hx
  obtain ⟨wide, hwide⟩ : ∃ wide, wide = binary32.rewrite binary64
    (x.toBits.toNat % binary32.signBit) := ⟨_, rfl⟩
  rw [← hwide] at hbound hback hpattern
  change wide < 2047 * 2 ^ 52 at hbound
  change _ = (if 2 ^ 31 ≤ x.toBits.toNat then 2 ^ 63 else 0) + wide at hpattern
  have hbits : x.toBits.toNat < 2 ^ 32 := x.toBits.toNat_lt
  have hmod : (widen x).toBits.toNat % binary64.signBit = wide := by
    show (widen x).toBits.toNat % 2 ^ 63 = wide
    rw [hpattern]
    split_ifs <;> omega
  have hconvert : binary64.convert binary32 (widen x).toBits.toNat = x.toBits.toNat := by
    rw [convert_of_finite (by rwa [hmod]), hmod, hback, hpattern]
    show (if 2 ^ 63 ≤ _ then 2 ^ 31 else 0) + x.toBits.toNat % 2 ^ 31 = x.toBits.toNat
    split_ifs <;> omega
  unfold narrow
  rw [hconvert, UInt32.ofNat_toNat, Float32.ofBits_toBits]

end Cueflow.Number
