import Mathlib
import Cueflow.Number.Binary
/-!
# Patterns of binary formats

> `unpack_eq`: the model of binary floating point, which takes a pattern apart by its bits, reads
> the mantissa and the exponent that `decode` finds by division.

Patterns and the pairs that fit a format are the same thing (`decode_layout`, `layout_decode`).
The fields of a pattern are quotients and remainders of its magnitude, the pattern without its
sign bit. Finite numbers are the patterns with a magnitude below that of the infinity
(`magnitude_lt`), so that what is read from them fits the format (`fits_of_unpack`).

> `unpack_pack_finite`: a pair that fits is read as it was written, and as an infinity if it is
> too large for a pattern.
-/

namespace Cueflow.Number.BinaryFormat

open Float.Model (Format)
open Float.Model.UnpackedFloat

/-! ## Pairs -/

section Pairs

variable {f : BinaryFormat}

/-- The mantissas and exponents that the format writes. -/
structure Fits (f : BinaryFormat) (m : Nat) (q : Int) : Prop where
  lt : m < 2 * 2 ^ f.fractionBits
  le : f.minExponent ≤ q
  normal : q = f.minExponent ∨ 2 ^ f.fractionBits ≤ m

/-- The pattern of a mantissa and an exponent. -/
def layout (f : BinaryFormat) (m : Nat) (q : Int) : Nat :=
  m + (q - f.minExponent).toNat * 2 ^ f.fractionBits

theorem decode_layout {m : Nat} {q : Int} (h : f.Fits m q) :
    f.decode (f.layout m q) = (m, q) := by
  have hP : 0 < 2 ^ f.fractionBits := Nat.two_pow_pos _
  obtain ⟨hlt, hle, hnormal⟩ := h
  unfold decode layout
  by_cases hm : m < 2 ^ f.fractionBits
  · obtain rfl := hnormal.resolve_right (by omega)
    simp [Nat.div_eq_of_lt hm, Nat.mod_eq_of_lt hm]
  · obtain ⟨r, rfl⟩ := Nat.exists_eq_add_of_le (Nat.le_of_not_lt hm)
    have hr : r < 2 ^ f.fractionBits := by omega
    have hsplit : 2 ^ f.fractionBits + r + (q - f.minExponent).toNat * 2 ^ f.fractionBits =
        r + ((q - f.minExponent).toNat + 1) * 2 ^ f.fractionBits := by ring
    rw [hsplit, Nat.add_mul_div_right _ _ hP, Nat.add_mul_mod_self_right, Nat.div_eq_of_lt hr,
      Nat.mod_eq_of_lt hr]
    dsimp only
    rw [if_neg (by omega), Prod.mk.injEq]
    omega

theorem fits_decode (bits : Nat) : f.Fits (f.decode bits).1 (f.decode bits).2 := by
  have hP : 0 < 2 ^ f.fractionBits := Nat.two_pow_pos _
  have hmod := Nat.mod_lt bits hP
  unfold decode
  dsimp only
  split
  · exact ⟨by dsimp only; omega, Int.le_refl _, Or.inl rfl⟩
  · exact ⟨by dsimp only; omega, by dsimp only; omega, Or.inr (by dsimp only; omega)⟩

theorem layout_decode (bits : Nat) : f.layout (f.decode bits).1 (f.decode bits).2 = bits := by
  have hdiv := Nat.div_add_mod bits (2 ^ f.fractionBits)
  unfold decode layout
  dsimp only
  split
  next h =>
    rw [h] at hdiv
    simpa using hdiv
  next h =>
    obtain ⟨k, hk⟩ := Nat.exists_eq_succ_of_ne_zero h
    have hexponent : (f.minExponent + ((k + 1 - 1 : Nat) : Int) - f.minExponent).toNat = k := by
      omega
    rw [hk, Nat.succ_eq_add_one, hexponent]
    rw [hk, Nat.succ_eq_add_one, Nat.mul_add, Nat.mul_comm _ k] at hdiv
    omega

/-- A mantissa without bits is that of zero. -/
theorem eq_zero_of_decode {magnitude m : Nat} {q : Int}
    (hdecode : f.decode magnitude = (m, q)) (hm : m = 0) : magnitude = 0 := by
  have hfits := fits_decode (f := f) magnitude
  have hlayout := layout_decode (f := f) magnitude
  rw [hdecode] at hfits hlayout
  have hpos : 0 < 2 ^ f.fractionBits := Nat.two_pow_pos _
  have hq : q = f.minExponent := hfits.normal.resolve_right (by dsimp only; omega)
  rw [← hlayout, hm, hq]
  simp [layout]

end Pairs

/-! ## Fields -/

/-- The same format, as the model of floating point has it. -/
def ofFormat (f : Format) : BinaryFormat := ⟨1 + f.mantissaBitsWithoutImplicit, f.exponentBits⟩

variable {f : Format} (b : BitVec f.numBits)

theorem fractionBits_ofFormat : (ofFormat f).fractionBits = f.mantissaBitsWithoutImplicit := by
  show 1 + f.mantissaBitsWithoutImplicit - 1 = _
  omega

theorem signBit_ofFormat :
    (ofFormat f).signBit = 2 ^ f.mantissaBitsWithoutImplicit * 2 ^ f.exponentBits := by
  unfold signBit
  rw [fractionBits_ofFormat, Nat.pow_add]
  rfl

/-- The magnitude of a pattern: what is left without its sign bit. -/
def magnitude (b : BitVec f.numBits) : Nat := b.toNat % (ofFormat f).signBit

theorem unpackExponent_toNat :
    (unpackExponent b).toNat = magnitude b / 2 ^ f.mantissaBitsWithoutImplicit := by
  rw [unpackExponent_def, BitVec.extractLsb'_toNat, Nat.shiftRight_eq_div_pow, magnitude,
    signBit_ofFormat, Nat.mod_mul_right_div_self]

theorem unpackMantissa_toNat :
    (unpackMantissa b).toNat = magnitude b % 2 ^ f.mantissaBitsWithoutImplicit := by
  rw [unpackMantissa_def, BitVec.extractLsb'_toNat, Nat.shiftRight_zero, magnitude,
    signBit_ofFormat, Nat.mod_mul_right_mod]

/-- The sign that a pattern carries. -/
def sign (b : BitVec f.numBits) : Sign :=
  if (ofFormat f).signBit ≤ b.toNat then .negative else .positive

theorem ofBitVec_unpackSign : Sign.ofBitVec (unpackSign b) = sign b := by
  have hlt : b.toNat < 2 * (ofFormat f).signBit := by
    rw [signBit_ofFormat, ← Nat.pow_add, ← Nat.pow_succ']
    refine Nat.lt_of_lt_of_le b.isLt (Nat.pow_le_pow_right (by omega) ?_)
    show 1 + f.exponentBits + f.mantissaBitsWithoutImplicit ≤ _
    omega
  have hbit : (unpackSign b).toNat = b.toNat / (ofFormat f).signBit % 2 := by
    rw [unpackSign_def, BitVec.extractLsb'_toNat, Nat.shiftRight_eq_div_pow, Nat.pow_add,
      signBit_ofFormat, Nat.pow_one]
  have hpos : 0 < (ofFormat f).signBit := Nat.two_pow_pos _
  -- the quotient by the sign bit is one bit, as nothing stands above it
  unfold sign Sign.ofBitVec
  by_cases h : (ofFormat f).signBit ≤ b.toNat
  · have hone : b.toNat / (ofFormat f).signBit = 1 := by
      rw [Nat.div_eq_iff hpos]
      omega
    rw [if_pos h, if_neg]
    intro h0
    rw [h0, hone] at hbit
    cases hbit
  · rw [Nat.div_eq_of_lt (by omega)] at hbit
    rw [if_neg h, if_pos (BitVec.eq_of_toNat_eq hbit)]

theorem infinity_ofFormat : (ofFormat f).infinity =
    (2 ^ f.exponentBits - 1) * 2 ^ f.mantissaBitsWithoutImplicit := by
  unfold infinity
  rw [fractionBits_ofFormat]
  rfl

/-- The largest exponent is that of infinities and of what is not a number. -/
theorem unpackExponent_eq_last_iff :
    unpackExponent b = -1#_ ↔ (ofFormat f).infinity ≤ magnitude b := by
  have hpos : 0 < 2 ^ f.mantissaBitsWithoutImplicit := Nat.two_pow_pos _
  have hlast : (-1#f.exponentBits).toNat = 2 ^ f.exponentBits - 1 := by
    have := Nat.one_lt_two_pow (Nat.ne_of_gt f.he)
    rw [BitVec.toNat_neg, BitVec.toNat_ofNat, Nat.mod_eq_of_lt this]
    exact Nat.mod_eq_of_lt (by omega)
  have hle := Nat.le_pred_of_lt (unpackExponent b).isLt
  rw [← BitVec.toNat_inj, hlast, infinity_ofFormat, ← Nat.le_div_iff_mul_le hpos,
    ← unpackExponent_toNat]
  exact ⟨fun h => h ▸ Nat.le_refl _, fun h => Nat.le_antisymm hle h⟩

theorem minExponent_ofFormat :
    (ofFormat f).minExponent = 1 - (f.exponentBias + f.mantissaBitsWithoutImplicit) := by
  have : 1 ≤ 2 ^ (f.exponentBits - 1) := Nat.one_le_two_pow
  show 3 - 2 ^ (f.exponentBits - 1) - ((1 + f.mantissaBitsWithoutImplicit : Nat) : Int) =
    1 - (((2 ^ (f.exponentBits - 1) - 1 : Nat) : Int) + f.mantissaBitsWithoutImplicit)
  push_cast [Nat.cast_sub this]
  ring

/-- What is read from a pattern is what `decode` finds there. -/
theorem unpack_eq {m : Nat} {q : Int} (hlt : magnitude b < (ofFormat f).infinity)
    (hdecode : (ofFormat f).decode (magnitude b) = (m, q)) :
    unpack f b = if hm : m = 0 then .zero (sign b)
      else .finite (sign b) m q (Nat.pos_of_ne_zero hm) := by
  have hnotLast : unpackExponent b ≠ -1#_ := fun h =>
    absurd ((unpackExponent_eq_last_iff b).1 h) (Nat.not_le.2 hlt)
  have hexponent := unpackExponent_toNat b
  have hmantissa := unpackMantissa_toNat b
  unfold decode at hdecode
  rw [fractionBits_ofFormat, minExponent_ofFormat, ← hexponent, ← hmantissa] at hdecode
  unfold unpack
  dsimp only at hdecode ⊢
  rw [if_neg hnotLast, ofBitVec_unpackSign]
  -- the smallest exponent is that of zero and of the subnormal numbers
  by_cases hzero : unpackExponent b = 0#_
  · rw [if_pos (by rw [hzero]; rfl)] at hdecode
    cases hdecode
    rw [if_pos hzero]
    by_cases hm : unpackMantissa b = 0#_
    · rw [dif_pos hm, dif_pos (by rw [hm]; rfl)]
    · have hm' : (unpackMantissa b).toNat ≠ 0 := fun h => hm (BitVec.eq_of_toNat_eq h)
      rw [dif_neg hm, dif_neg hm']
      congr 1
      rw [hzero, BitVec.toNat_ofNat, Nat.zero_mod]
      omega
  · have hpos : (unpackExponent b).toNat ≠ 0 := fun h => hzero (BitVec.eq_of_toNat_eq h)
    rw [if_neg hpos] at hdecode
    cases hdecode
    have hleading : (unpackMantissa b).toNat + 2 ^ f.mantissaBitsWithoutImplicit ≠ 0 := by
      have := Nat.two_pow_pos f.mantissaBitsWithoutImplicit
      omega
    rw [if_neg hzero, dif_neg hleading]
    congr 1
    · rw [BitVec.toNat_append, ← Nat.shiftLeft_add_eq_or_of_lt (BitVec.isLt _), Nat.add_comm,
        Nat.shiftLeft_eq]
      exact congrArg _ (Nat.one_mul _)
    · omega

/-- The patterns of finite numbers are below that of the infinity. -/
theorem magnitude_lt (h : (unpack f b).isFinite = true) : magnitude b < (ofFormat f).infinity := by
  by_contra hle
  have hlast := (unpackExponent_eq_last_iff b).2 (Nat.le_of_not_lt hle)
  unfold unpack at h
  dsimp only at h
  rw [if_pos hlast] at h
  split at h <;> cases h

/-- Patterns below that of the infinity are kept as they are. -/
theorem valid_of_magnitude_lt (hlt : magnitude b < (ofFormat f).infinity) : f.Valid b :=
  ⟨fun hlast => absurd ((unpackExponent_eq_last_iff b).1 hlast) (Nat.not_le.2 hlt)⟩

/-- What is read from a pattern fits the format, and is below the infinity. -/
theorem fits_of_unpack {s : Sign} {m : Nat} {q : Int} {hm : 0 < m}
    (h : unpack f b = .finite s m q hm) :
    (ofFormat f).Fits m q ∧ (ofFormat f).layout m q < (ofFormat f).infinity := by
  have hlt : magnitude b < (ofFormat f).infinity := by
    refine magnitude_lt b ?_
    rw [h]
    rfl
  have hfits := fits_decode (f := ofFormat f) (magnitude b)
  have hlayout := layout_decode (f := ofFormat f) (magnitude b)
  rcases hdecode : (ofFormat f).decode (magnitude b) with ⟨m', q'⟩
  rw [hdecode] at hfits hlayout
  rw [unpack_eq b hlt hdecode] at h
  split at h
  · cases h
  · injection h with _ hmantissa hexponent
    rw [← hmantissa, ← hexponent]
    exact ⟨hfits, hlayout.trans_lt hlt⟩

/-! ## Writing -/

/-- The exponent of the last place of the largest numbers. -/
def maxExponent (f : BinaryFormat) : Int := f.minExponent + (2 ^ f.exponentBits - 3)

theorem le_maxExponent_iff {g : BinaryFormat} {q : Int} (hle : g.minExponent ≤ q) :
    q ≤ g.maxExponent ↔ (q - g.minExponent).toNat + 3 ≤ 2 ^ g.exponentBits := by
  have hbits : g.maxExponent = g.minExponent + (((2 ^ g.exponentBits : Nat) : Int) - 3) := by
    push_cast
    rfl
  omega

/-- The patterns of pairs up to the largest exponent are below that of the infinity. -/
theorem layout_lt_infinity {g : BinaryFormat} {m : Nat} {q : Int} (h : g.Fits m q)
    (hsmall : q ≤ g.maxExponent) : g.layout m q < g.infinity := by
  have hk := (le_maxExponent_iff h.le).1 hsmall
  have hlt := h.lt
  unfold layout infinity
  calc m + (q - g.minExponent).toNat * 2 ^ g.fractionBits
      < 2 * 2 ^ g.fractionBits + (q - g.minExponent).toNat * 2 ^ g.fractionBits := by omega
    _ = ((q - g.minExponent).toNat + 2) * 2 ^ g.fractionBits := by ring
    _ ≤ _ := Nat.mul_le_mul_right _ (by omega)

theorem magnitude_packComponents (s : Sign) (exponent : BitVec f.exponentBits)
    (mantissa : BitVec f.mantissaBitsWithoutImplicit) :
    magnitude (packComponents f s exponent mantissa) =
      2 ^ f.mantissaBitsWithoutImplicit * exponent.toNat + mantissa.toNat := by
  have hexponent := unpackExponent_toNat (packComponents f s exponent mantissa)
  have hmantissa := unpackMantissa_toNat (packComponents f s exponent mantissa)
  rw [unpackExponent_packComponents] at hexponent
  rw [unpackMantissa_packComponents] at hmantissa
  rw [hexponent, hmantissa, Nat.div_add_mod]

theorem sign_packComponents (s : Sign) (exponent : BitVec f.exponentBits)
    (mantissa : BitVec f.mantissaBitsWithoutImplicit) :
    sign (packComponents f s exponent mantissa) = s := by
  rw [← ofBitVec_unpackSign, unpackSign_packComponents, Sign.ofBitVec_toBitVec]

/-- Mantissas that have all their bits are those with the leading one. -/
theorem log2_eq_iff {m : Nat} (hm : 0 < m) (hlt : m < 2 * 2 ^ f.mantissaBitsWithoutImplicit) :
    m.log2 + 1 = f.mantissaBits ↔ 2 ^ f.mantissaBitsWithoutImplicit ≤ m := by
  have hbits : f.mantissaBits = f.mantissaBitsWithoutImplicit + 1 := Nat.add_comm _ _
  rw [← Nat.pow_succ', ← Nat.log2_lt hm.ne'] at hlt
  rw [← Nat.le_log2 hm.ne', hbits]
  omega

/-- A pair is packed as its layout. -/
theorem pack_finite {m : Nat} {q : Int}
    (h : (ofFormat f).Fits m q) (hm : 0 < m) (s : Sign) (hsmall : q ≤ (ofFormat f).maxExponent) :
    sign (pack f (.finite s m q hm)) = s ∧
      magnitude (pack f (.finite s m q hm)) = (ofFormat f).layout m q := by
  have hlarge := (le_maxExponent_iff h.le).1 hsmall
  obtain ⟨hlt, hle, hnormal⟩ := h
  rw [fractionBits_ofFormat] at hlt hnormal
  change _ ≤ 2 ^ f.exponentBits at hlarge
  have hbiased : (q + f.exponentBias + f.mantissaBitsWithoutImplicit).toNat =
      (q - (ofFormat f).minExponent).toNat + 1 := by
    rw [minExponent_ofFormat] at hle ⊢
    omega
  unfold pack layout
  dsimp only
  rw [hbiased, fractionBits_ofFormat, if_neg (by omega)]
  by_cases hfull : 2 ^ f.mantissaBitsWithoutImplicit ≤ m
  · obtain ⟨r, rfl⟩ := Nat.exists_eq_add_of_le hfull
    rw [if_pos ((log2_eq_iff hm hlt).2 hfull), sign_packComponents, magnitude_packComponents,
      BitVec.toNat_ofNat, BitVec.toNat_ofNat, Nat.mod_eq_of_lt (by omega), Nat.add_mod_left,
      Nat.mod_eq_of_lt (by omega)]
    exact ⟨rfl, by ring⟩
  · obtain rfl := hnormal.resolve_right hfull
    rw [if_neg (mt (log2_eq_iff hm hlt).1 hfull), sign_packComponents, magnitude_packComponents,
      BitVec.toNat_ofNat, BitVec.toNat_ofNat, Nat.mod_eq_of_lt (Nat.lt_of_not_le hfull)]
    simp

theorem unpack_pack_infinity (s : Sign) : unpack f (pack f (.infinity s)) = .infinity s := by
  unfold pack packedInfinity unpack
  simp only [unpackExponent_packComponents, unpackMantissa_packComponents,
    unpackSign_packComponents, Sign.ofBitVec_toBitVec]
  simp

/-- What fits is read as it was written, if it is not too large for a pattern. -/
theorem unpack_pack_finite {m : Nat} {q : Int}
    (h : (ofFormat f).Fits m q) (hm : 0 < m) (s : Sign) :
    unpack f (pack f (.finite s m q hm)) =
      if q ≤ (ofFormat f).maxExponent then .finite s m q hm else .infinity s := by
  split
  next hsmall =>
    obtain ⟨hsign, hmagnitude⟩ := pack_finite h hm s hsmall
    have hlt := layout_lt_infinity h hsmall
    have hdecode := decode_layout h
    rw [← hmagnitude] at hlt hdecode
    rw [unpack_eq _ hlt hdecode, dif_neg hm.ne', hsign]
  next hlarge =>
    have hbiased : 2 ^ f.exponentBits ≤
        (q + f.exponentBias + f.mantissaBitsWithoutImplicit).toNat + 1 := by
      have hle := h.le
      have hmax := mt (le_maxExponent_iff hle).2 hlarge
      change ¬ _ ≤ 2 ^ f.exponentBits at hmax
      rw [minExponent_ofFormat] at hle hmax
      omega
    have hpack : pack f (.finite s m q hm) = pack f (.infinity s) := if_pos hbiased
    rw [hpack, unpack_pack_infinity]

end Cueflow.Number.BinaryFormat
