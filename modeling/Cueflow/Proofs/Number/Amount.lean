import Mathlib
import Cueflow.Proofs.Number.Order
import Cueflow.Proofs.Number.Width
/-!
# The amounts that numbers stand for

A finite number stands for a rational one, its `amount`.

> `amount_le_iff`: finite doubles are compared as their amounts are.

> `amount_widen`: in double width a number stands for the amount that it stands for in single
> width.

Finite numbers are pairs that fit a format, of either width (`fits_of_unpack`). Such pairs are
ordered by exponent first and by mantissa then (`Fits.scaled_lt`), and that is the order of
`place`.
-/

namespace Cueflow.Number

open Float.Model (Format UnpackedFloat)
open Float.Model.UnpackedFloat

/-- The rational number that an unpacked one stands for; 0 if it is infinite or undefined. -/
def value : UnpackedFloat → ℚ
  | .finite s m e _ => s.apply m * 2 ^ e
  | .zero _ | .infinity _ | .notANumber => 0

/-- What a double stands for. -/
def amount (x : Float) : ℚ := value x.toModel.unpack

/-- What a number of single width stands for. -/
def Single.amount (x : Float32) : ℚ := value x.toModel.unpack

/-! ## Order -/

namespace BinaryFormat

/-- Pairs that fit are ordered by exponent, and by mantissa where the exponents agree. -/
theorem Fits.scaled_lt {g : BinaryFormat} {m m' : Nat} {q q' : Int} (h : g.Fits m q)
    (h' : g.Fits m' q') (hlt : q < q' ∨ q = q' ∧ m < m') : (m : ℚ) * 2 ^ q < m' * 2 ^ q' := by
  rcases hlt with hq | ⟨rfl, hm⟩
  · have hle := h.le
    have hfull : 2 ^ g.fractionBits ≤ m' := h'.normal.resolve_left (by omega)
    calc (m : ℚ) * 2 ^ q < (2 * 2 ^ g.fractionBits : Nat) * 2 ^ q := by
          gcongr
          exact h.lt
      _ = (2 ^ g.fractionBits : Nat) * 2 ^ (q + 1) := by
          rw [zpow_add_one₀ two_ne_zero]
          push_cast
          ring
      _ ≤ m' * 2 ^ q' := by
          gcongr
          · exact one_le_two
          · omega
  · gcongr

end BinaryFormat

open BinaryFormat

/-- What finite numbers are unpacked to: a zero, or a pair that fits the format. -/
def Written (f : BinaryFormat) : UnpackedFloat → Prop
  | .zero _ => True
  | .finite _ m q _ => f.Fits m q
  | .infinity _ | .notANumber => False

theorem written_unpack {f : Format} {b : BitVec f.numBits} (h : (unpack f b).isFinite = true) :
    Written (ofFormat f) (unpack f b) := by
  cases hunpack : unpack f b with
  | infinity s =>
    rw [hunpack] at h
    cases h
  | notANumber =>
    rw [hunpack] at h
    cases h
  | zero s => exact trivial
  | finite s m q hm => exact (fits_of_unpack b hunpack).1

theorem Written.cases {f : BinaryFormat} {x : UnpackedFloat} (h : Written f x) :
    (∃ s, x = .zero s) ∨ ∃ s m q hm, x = .finite s m q hm := by
  rcases x with _ | _ | s | ⟨s, m, q, hm⟩
  · exact h.elim
  · exact h.elim
  · exact Or.inl ⟨s, rfl⟩
  · exact Or.inr ⟨s, m, q, hm, rfl⟩

theorem value_positive {m : Nat} (e : Int) (hm : 0 < m) : 0 < value (.finite .positive m e hm) := by
  have : (0 : ℚ) < m := by exact_mod_cast hm
  show 0 < ((m : Int) : ℚ) * 2 ^ e
  positivity

theorem value_negative {m : Nat} (e : Int) (hm : 0 < m) :
    value (.finite .negative m e hm) = -value (.finite .positive m e hm) := by
  show ((-(m : Int) : Int) : ℚ) * 2 ^ e = -(((m : Int) : ℚ) * 2 ^ e)
  push_cast
  ring

variable {f : BinaryFormat} {x y : UnpackedFloat}

/-- Places are ordered as values are. -/
theorem value_lt_of_place_lt (hx : Written f x) (hy : Written f y) {a b : Int ×ₗ Int ×ₗ Int}
    (ha : place x = some a) (hb : place y = some b) (hlt : a < b) : value x < value y := by
  rcases hx.cases with ⟨s, rfl⟩ | ⟨_ | _, m, e, hm, rfl⟩
  · rcases hy.cases with ⟨s', rfl⟩ | ⟨_ | _, m', e', hm', rfl⟩
    · cases ha
      cases hb
      exact absurd hlt (lt_irrefl _)
    · cases ha
      cases hb
      simp [Prod.Lex.toLex_lt_toLex] at hlt
    · exact value_positive e' hm'
  · have hneg : value (.finite .negative m e hm) < 0 := by
      rw [value_negative]
      exact neg_neg_of_pos (value_positive e hm)
    rcases hy.cases with ⟨s', rfl⟩ | ⟨_ | _, m', e', hm', rfl⟩
    · exact hneg
    · -- both are negative, and are counted down
      cases ha
      cases hb
      rw [value_negative, value_negative, neg_lt_neg_iff]
      refine Fits.scaled_lt hy hx ?_
      simpa [Prod.Lex.toLex_lt_toLex, eq_comm] using hlt
    · exact hneg.trans (value_positive e' hm')
  · rcases hy.cases with ⟨s', rfl⟩ | ⟨_ | _, m', e', hm', rfl⟩
    · cases ha
      cases hb
      simp [Prod.Lex.toLex_lt_toLex] at hlt
    · cases ha
      cases hb
      simp [Prod.Lex.toLex_lt_toLex] at hlt
    · cases ha
      cases hb
      refine Fits.scaled_lt hx hy ?_
      simpa [Prod.Lex.toLex_lt_toLex] using hlt

/-- Numbers in one place have one value. -/
theorem value_eq_of_place_eq (hx : Written f x) (h : place x = place y) : value x = value y := by
  rcases x with _ | _ | s | ⟨_ | _, m, e, hm⟩ <;>
    rcases y with ⟨_ | _⟩ | _ | s' | ⟨_ | _, m', e', hm'⟩ <;>
    simp_all [place, Written, value]

theorem precedes_iff (hx : Written f x) (hy : Written f y) :
    Precedes x y ↔ value x ≤ value y := by
  -- only what is not a number has no place
  have hplace : ∀ {z : UnpackedFloat}, Written f z → ∃ a, place z = some a := by
    intro z hz
    rcases hz.cases with ⟨s, rfl⟩ | ⟨_ | _, m, e, hm, rfl⟩
    · exact ⟨_, rfl⟩
    · exact ⟨_, rfl⟩
    · exact ⟨_, rfl⟩
  obtain ⟨a, ha⟩ := hplace hx
  obtain ⟨b, hb⟩ := hplace hy
  have hprecedes : Precedes x y ↔ a ≤ b := by
    simp [Precedes, ha, hb]
  rw [hprecedes]
  rcases lt_trichotomy a b with h | rfl | h
  · exact iff_of_true h.le (value_lt_of_place_lt hx hy ha hb h).le
  · exact iff_of_true le_rfl (value_eq_of_place_eq hx (ha.trans hb.symm)).le
  · exact iff_of_false (not_le_of_gt h) (not_le_of_gt (value_lt_of_place_lt hy hx hb ha h))

/-- Finite doubles are compared as their amounts are. -/
theorem amount_le_iff {x y : Float} (hx : x.isFinite = true) (hy : y.isFinite = true) :
    x ≤ y ↔ amount x ≤ amount y := by
  have hle : x ≤ y ↔ x.toModel.unpack.le y.toModel.unpack = true := decide_eq_true_iff
  rw [hle, le_eq_true_iff]
  exact precedes_iff (written_unpack hx) (written_unpack hy)

/-- Finite numbers of single width are compared as their amounts are. -/
theorem Single.amount_le_iff {x y : Float32} (hx : x.isFinite = true) (hy : y.isFinite = true) :
    x ≤ y ↔ Single.amount x ≤ Single.amount y := by
  have hle : x ≤ y ↔ x.toModel.unpack.le y.toModel.unpack = true := decide_eq_true_iff
  rw [hle, le_eq_true_iff]
  exact precedes_iff (written_unpack hx) (written_unpack hy)

/-! ## Width -/

/-- The value of a finite pattern is that of its sign, mantissa and exponent. -/
theorem value_unpack {f : Format} (b : BitVec f.numBits) {m : Nat} {q : Int}
    (hlt : magnitude b < (ofFormat f).infinity)
    (hdecode : (ofFormat f).decode (magnitude b) = (m, q)) :
    (unpack f b).isFinite = true ∧ value (unpack f b) = (sign b).apply m * 2 ^ q := by
  rw [unpack_eq b hlt hdecode]
  split
  next hm =>
    refine ⟨rfl, ?_⟩
    rw [hm]
    cases sign b <;> simp [value, Sign.apply]
  · exact ⟨rfl, rfl⟩

/-- The magnitude of a finite number stands for the same ratio in double width. -/
theorem decode_rewrite {magnitude m : Nat} {q : Int} (h : magnitude < binary32.infinity)
    (hdecode : binary32.decode magnitude = (m, q)) :
    ∃ m' q', binary64.decode (binary32.rewrite binary64 magnitude) = (m', q') ∧
      (m' : ℚ) * 2 ^ q' = m * 2 ^ q := by
  by_cases hm : m = 0
  · refine ⟨0, binary64.minExponent, ?_, by simp [hm]⟩
    rw [eq_zero_of_decode hdecode hm, rewrite_zero]
    rfl
  · obtain ⟨k, hdouble, hwide, -⟩ := rewrite_eq_layout h hdecode hm
    exact ⟨_, _, by rw [hwide, decode_layout hdouble], shifted_up m k q⟩

/-- In double width a number stands for the amount that it stands for in single width. -/
theorem amount_widen {x : Float32} (hx : x.isFinite = true) :
    (widen x).isFinite = true ∧ amount (widen x) = Single.amount x := by
  obtain ⟨b, hb⟩ : ∃ b : BitVec Format.binary32.numBits, b = x.toBits.toBitVec := ⟨_, rfl⟩
  obtain ⟨c, hc⟩ : ∃ c : BitVec Format.binary64.numBits, c = (widen x).toBits.toBitVec :=
    ⟨_, rfl⟩
  have hlt : magnitude b < binary32.infinity := by
    rw [hb]
    exact magnitude_lt_of_isFinite hx
  have hbound := (rewrite_rewrite hlt).1
  have hbits : c.toNat = (if binary32.signBit ≤ b.toNat then binary64.signBit else 0) +
      binary32.rewrite binary64 (magnitude b) := by
    rw [hb, hc]
    exact toBits_widen hx
  -- the sign bit moves to the front of the wider pattern, and the magnitude is rewritten
  change binary32.rewrite binary64 (magnitude b) < 2047 * 2 ^ 52 at hbound
  change _ = (if 2 ^ 31 ≤ b.toNat then 2 ^ 63 else 0) + _ at hbits
  have hmagnitude : magnitude c = binary32.rewrite binary64 (magnitude b) := by
    show c.toNat % 2 ^ 63 = _
    rw [hbits]
    split_ifs <;> omega
  have hsign : sign c = sign b := by
    show (if 2 ^ 63 ≤ c.toNat then Sign.negative else .positive) =
      if 2 ^ 31 ≤ b.toNat then Sign.negative else .positive
    rw [hbits]
    by_cases h : 2 ^ 31 ≤ b.toNat
    · rw [if_pos h, if_pos h, if_pos (by omega)]
    · rw [if_neg h, if_neg h, if_neg (by omega)]
  rcases hdecode : binary32.decode (magnitude b) with ⟨m, q⟩
  obtain ⟨m', q', hdecode', hratio⟩ := decode_rewrite hlt hdecode
  rw [← hmagnitude] at hbound hdecode'
  have hsingle := (value_unpack b hlt hdecode).2
  obtain ⟨hfinite, hdouble⟩ := value_unpack c hbound hdecode'
  have hvalue : value (unpack .binary64 c) = value (unpack .binary32 b) := by
    rw [hdouble, hsingle, hsign]
    cases sign b with
    | positive => exact hratio
    | negative => simpa [Sign.apply] using hratio
  subst hb hc
  exact ⟨hfinite, hvalue⟩

/-! ## Operations -/

/-- An operation on finite doubles has a finite result, which stands for the result of the same
operation on what they stand for. -/
structure Exact (op : Float → Float → Float) (rationalOp : ℚ → ℚ → ℚ) (x y : Float) : Prop where
  left : x.isFinite = true
  right : y.isFinite = true
  finite : (op x y).isFinite = true
  amount_eq : amount (op x y) = rationalOp (amount x) (amount y)

instance (op : Float → Float → Float) (rationalOp : ℚ → ℚ → ℚ) (x y : Float) :
    Decidable (Exact op rationalOp x y) :=
  decidable_of_iff (x.isFinite = true ∧ y.isFinite = true ∧ (op x y).isFinite = true ∧
      amount (op x y) = rationalOp (amount x) (amount y))
    ⟨fun ⟨h, h', hfinite, heq⟩ => ⟨h, h', hfinite, heq⟩,
      fun ⟨h, h', hfinite, heq⟩ => ⟨h, h', hfinite, heq⟩⟩

theorem Exact.amount_mul {x y : Float} (h : Exact (· * ·) (· * ·) x y) :
    amount (x * y) = amount x * amount y := h.amount_eq

theorem Exact.amount_add {x y : Float} (h : Exact (· + ·) (· + ·) x y) :
    amount (x + y) = amount x + amount y := h.amount_eq

theorem Exact.amount_sub {x y : Float} (h : Exact (· - ·) (· - ·) x y) :
    amount (x - y) = amount x - amount y := h.amount_eq

end Cueflow.Number
