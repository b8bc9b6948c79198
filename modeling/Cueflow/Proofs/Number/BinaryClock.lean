import Mathlib
import Cueflow.Proofs.Number.Arithmetic
import Cueflow.Proofs.Number.Clock
/-!
# Binary numbers are clocks

> `instance : SpanLaws T`, for the numbers of any binary format: those that are defined are
> compared by a total preorder; adding what is not below 0 leads to nothing smaller; the time
> since a start and its share of a duration keep the order of times, and the share of the whole
> duration is at least 1.

Operations deliver what rounding makes of exact results (`delivers_add` and so on), and rounding
keeps the order. What is left are infinities.
-/

namespace Cueflow

open Float.Model (Format UnpackedFloat)
open Float.Model.UnpackedFloat
open Number Number.BinaryFormat

/-- The numbers of a binary format, with the operations that its model has. -/
class Binary (T : Type) [Scalar T] where
  /-- Their format. -/
  format : Format
  width : 2 ≤ format.exponentBits
  /-- Their patterns. -/
  bits : T → BitVec format.numBits
  valid (x : T) : format.Valid (bits x)
  bits_injective : Function.Injective bits
  le_iff_le (x y : T) : x ≤ y ↔ (unpack format (bits x)).le (unpack format (bits y)) = true
  lt_iff_lt (x y : T) : x < y ↔ (unpack format (bits x)).lt (unpack format (bits y)) = true
  isFinite_eq (x : T) : Scalar.isFinite x = (unpack format (bits x)).isFinite
  unpack_zero : unpack format (bits 0) = .zero .positive
  unpack_one : unpack format (bits 1) = .finite .positive (2 ^ (ofFormat format).fractionBits)
    (-(ofFormat format).fractionBits) (Nat.two_pow_pos _)
  add_eq (x y : T) : bits (x + y) =
    pack format (UnpackedFloat.add format (unpack format (bits x)) (unpack format (bits y)))
  sub_eq (x y : T) : bits (x - y) =
    pack format (UnpackedFloat.sub format (unpack format (bits x)) (unpack format (bits y)))
  div_eq (x y : T) : bits (x / y) =
    pack format (UnpackedFloat.div format (unpack format (bits x)) (unpack format (bits y)))

instance : Binary Float32 where
  format := .binary32
  width := by decide
  bits x := x.toBits.toBitVec
  valid x := x.toModel.valid
  bits_injective _ _ h := Float32.toBits_inj.1 (UInt32.toBitVec_inj.1 h)
  le_iff_le _ _ := decide_eq_true_iff
  lt_iff_lt _ _ := decide_eq_true_iff
  isFinite_eq _ := rfl
  unpack_zero := rfl
  unpack_one := rfl
  add_eq _ _ := rfl
  sub_eq _ _ := rfl
  div_eq _ _ := rfl

instance : Binary Float where
  format := .binary64
  width := by decide
  bits x := x.toBits.toBitVec
  valid x := x.toModel.valid
  bits_injective _ _ h := Float.toBits_inj.1 (UInt64.toBitVec_inj.1 h)
  le_iff_le _ _ := decide_eq_true_iff
  lt_iff_lt _ _ := decide_eq_true_iff
  isFinite_eq _ := rfl
  unpack_zero := rfl
  unpack_one := rfl
  add_eq _ _ := rfl
  sub_eq _ _ := rfl
  div_eq _ _ := rfl

namespace Binary

variable {T : Type} [Scalar T] [Binary T] {c d x y z : T}

/-- What a number is read as. -/
def read (x : T) : UnpackedFloat := unpack (format T) (bits x)

theorem le_iff : x ≤ y ↔ Precedes (read x) (read y) :=
  (le_iff_le x y).trans (le_eq_true_iff _ _)

theorem read_add (x y : T) : read (x + y) =
    unpack (format T) (pack (format T) (UnpackedFloat.add (format T) (read x) (read y))) :=
  congrArg _ (add_eq x y)

theorem read_sub (x y : T) : read (x - y) =
    unpack (format T) (pack (format T) (UnpackedFloat.sub (format T) (read x) (read y))) :=
  congrArg _ (sub_eq x y)

theorem read_div (x y : T) : read (x / y) =
    unpack (format T) (pack (format T) (UnpackedFloat.div (format T) (read x) (read y))) :=
  congrArg _ (div_eq x y)

theorem isFinite_read (h : Scalar.isFinite x = true) : (read x).isFinite = true :=
  (isFinite_eq x).symm.trans h

theorem written_read (h : Scalar.isFinite x = true) : Written (ofFormat (format T)) (read x) :=
  written_unpack (isFinite_read h)

theorem isFinite_zero : Scalar.isFinite (0 : T) = true := by
  rw [isFinite_eq, unpack_zero]
  rfl

theorem value_read_zero : value (read (0 : T)) = 0 := by
  rw [read, unpack_zero, value_zero]

theorem lt_iff : x < y ↔
    ∃ a b, place (read x) = some a ∧ place (read y) = some b ∧ a < b :=
  (lt_iff_lt x y).trans (lt_eq_true_iff _ _)

theorem isFinite_one : Scalar.isFinite (1 : T) = true := by
  rw [isFinite_eq, unpack_one]
  rfl

theorem value_read_one : value (read (1 : T)) = 1 := by
  rw [read, unpack_one]
  simp [value, Sign.apply]

/-- Finite numbers are compared as their values are. -/
theorem le_iff_value (hx : Scalar.isFinite x = true) (hy : Scalar.isFinite y = true) :
    x ≤ y ↔ value (read x) ≤ value (read y) :=
  le_iff.trans (precedes_iff (written_read hx) (written_read hy))

/-- What is not below a finite number is finite or the infinity. -/
theorem cases_of_le (hc : Scalar.isFinite c = true) (h : c ≤ x) :
    Scalar.isFinite x = true ∨ read x = .infinity .positive := by
  have hwritten := written_read hc
  obtain ⟨a, b, ha, hb, hab⟩ := le_iff.1 h
  rw [isFinite_eq x]
  change (read x).isFinite = true ∨ _
  rcases hx : read x with ⟨_ | _⟩ | _ | _ | _ <;> rw [hx] at hb
  · -- nothing finite comes before the negative infinity
    cases hb
    rcases hwritten.cases with ⟨s, hu⟩ | ⟨_ | _, m, e, hm, hu⟩ <;> rw [hu] at ha <;>
      cases ha <;> simp [Prod.Lex.toLex_le_toLex] at hab
  · exact Or.inr rfl
  · cases hb
  · exact Or.inl rfl
  · exact Or.inl rfl

/-- What lies between finite numbers is finite. -/
theorem isFinite_of_between (hc : Scalar.isFinite c = true) (hy : Scalar.isFinite y = true)
    (hcx : c ≤ x) (hxy : x ≤ y) : Scalar.isFinite x = true := by
  refine (cases_of_le hc hcx).resolve_right fun hinf => ?_
  have hwritten := written_read hy
  obtain ⟨a, b, ha, hb, hab⟩ := le_iff.1 hxy
  rw [hinf] at ha
  cases ha
  rcases hwritten.cases with ⟨s, hu⟩ | ⟨_ | _, m, e, hm, hu⟩ <;> rw [hu] at hb <;> cases hb <;>
    simp [Prod.Lex.toLex_le_toLex] at hab

theorem le_infinity (hx : x ≤ x) (hy : read y = .infinity .positive) : x ≤ y := by
  rw [le_iff, hy]
  exact (le_iff.1 hx).infinity

theorem value_nonneg (hx : Scalar.isFinite x = true) (h : 0 ≤ x) : 0 ≤ value (read x) := by
  rw [← value_read_zero (T := T)]
  exact (le_iff_value isFinite_zero hx).1 h

/-- What was read is written again as it was. -/
theorem unpack_pack_read (x : T) : unpack (format T) (pack (format T) (read x)) = read x :=
  congrArg _ (pack_unpack_of_valid (valid x) width)

/-- A finite number that is not below 0 is delivered for what it stands for. -/
theorem delivers_read (hx : Scalar.isFinite x = true) (h : 0 ≤ x) :
    Delivers (ofFormat (format T)) (value (read x)) (read x) := by
  have hself := delivers_self width (written_read hx) (value_nonneg hx h)
  rwa [unpack_pack_read] at hself

theorem le_of_lt (h : x < y) : x ≤ y := by
  obtain ⟨a, b, ha, hb, hab⟩ := lt_iff.1 h
  exact le_iff.2 ⟨a, b, ha, hb, hab.le⟩

/-- What compares with itself is what is defined. -/
theorem le_self_iff : x ≤ x ↔ read x ≠ .notANumber := by
  rw [le_iff]
  constructor
  · rintro ⟨a, -, ha, -, -⟩ h
    rw [h] at ha
    cases ha
  · intro h
    cases hx : read x with
    | notANumber => exact absurd hx h
    | infinity s => cases s <;> exact ⟨_, _, rfl, rfl, le_rfl⟩
    | zero s => exact ⟨_, _, rfl, rfl, le_rfl⟩
    | finite s m e hm => cases s <;> exact ⟨_, _, rfl, rfl, le_rfl⟩

/-- What a result is not below when the exact one is not. -/
theorem le_of_delivers {v : ℚ} (hc : Scalar.isFinite c = true) (h0 : 0 ≤ c)
    (hv : value (read c) ≤ v) (h : Delivers (ofFormat (format T)) v (read x)) : c ≤ x :=
  le_iff.2 ((delivers_read hc h0).precedes (value_nonneg hc h0) hv h)

/-! ## Sums -/

/-- Finite numbers do not change the infinity. -/
theorem infinity_absorbs (f : Format) {u : UnpackedFloat} (hu : u.isFinite = true) :
    UnpackedFloat.add f u (.infinity .positive) = .infinity .positive ∧
      UnpackedFloat.add f (.infinity .positive) u = .infinity .positive ∧
      UnpackedFloat.sub f (.infinity .positive) u = .infinity .positive := by
  cases u with
  | infinity _ => cases hu
  | notANumber => cases hu
  | zero _ => exact ⟨rfl, rfl, rfl⟩
  | finite _ _ _ _ => exact ⟨rfl, rfl, rfl⟩

/-- Where one of two numbers that are not below 0 is infinite, their sum is. -/
theorem read_add_infinity (hx : 0 ≤ x) (hy : 0 ≤ y)
    (h : Scalar.isFinite x = true → read y = .infinity .positive) :
    read (x + y) = .infinity .positive := by
  have hsum : UnpackedFloat.add (format T) (read x) (read y) = .infinity .positive := by
    rcases cases_of_le isFinite_zero hx with hfin | hinf
    · rw [h hfin]
      exact (infinity_absorbs _ (isFinite_read hfin)).1
    · rw [hinf]
      rcases cases_of_le isFinite_zero hy with hfin | hinf
      · exact (infinity_absorbs _ (isFinite_read hfin)).2.1
      · rw [hinf]
        rfl
  rw [read_add, hsum, unpack_pack_infinity]

theorem precedes_add (hx : 0 ≤ x) (hd : 0 ≤ d) : Precedes (read x) (read (x + d)) := by
  have hself : Precedes (read x) (read x) := (le_iff.1 hx).refl
  by_cases hfin : Scalar.isFinite x = true
  · rcases cases_of_le isFinite_zero hd with hfin' | hinf
    · have hsum := delivers_add width (written_read hfin) (written_read hfin')
        (value_nonneg hfin hx) (value_nonneg hfin' hd)
      rw [← read_add] at hsum
      exact le_iff.1 (le_of_delivers hfin hx (le_add_of_nonneg_right (value_nonneg hfin' hd)) hsum)
    · rw [read_add_infinity hx hd fun _ => hinf]
      exact hself.infinity
  · rw [read_add_infinity hx hd fun h => absurd h hfin]
    exact hself.infinity

/-- What is defined stays defined when a finite number is added. -/
theorem add_le_self (hx : x ≤ x) (hd : Scalar.isFinite d = true) : x + d ≤ x + d := by
  rw [le_self_iff] at hx ⊢
  rw [read_add]
  refine unpack_pack_add_ne ?_ (written_read hd)
  by_cases hfin : Scalar.isFinite x = true
  · exact Or.inl (written_read hfin)
  · rw [isFinite_eq] at hfin
    change ¬ (read x).isFinite = true at hfin
    rcases hu : read x with s | _ | _ | _ <;> rw [hu] at hfin hx
    · exact Or.inr ⟨s, rfl⟩
    · exact absurd rfl hx
    · exact absurd rfl hfin
    · exact absurd rfl hfin

end Binary

open Binary

variable {T : Type} [Scalar T] [Binary T]

instance : ClockLaws T where
  zero_le_zero := (le_iff_value isFinite_zero isFinite_zero).2 le_rfl
  le_self_of_isFinite hx := (le_iff_value hx hx).2 le_rfl
  le_self_of_le h := le_iff.2 (le_iff.1 h).refl
  le_trans hxy hyz := by
    obtain ⟨a, b, ha, hb, hab⟩ := le_iff.1 hxy
    obtain ⟨b', c, hb', hc, hbc⟩ := le_iff.1 hyz
    cases hb.symm.trans hb'
    exact le_iff.2 ⟨a, c, ha, hc, hab.trans hbc⟩
  le_of_not_lt hx hy hlt := by
    obtain ⟨a, -, ha, -, -⟩ := le_iff.1 hx
    obtain ⟨b, -, hb, -, -⟩ := le_iff.1 hy
    have hle : b ≤ a := not_lt.1 fun h => hlt (lt_iff.2 ⟨a, b, ha, hb, h⟩)
    exact le_iff.2 ⟨b, a, hb, ha, hle⟩
  not_le_of_lt hlt hle := by
    obtain ⟨a, b, ha, hb, hab⟩ := lt_iff.1 hlt
    obtain ⟨b', a', hb', ha', hba⟩ := le_iff.1 hle
    cases hb.symm.trans hb'
    cases ha.symm.trans ha'
    exact absurd hba (not_le_of_gt hab)
  le_add hx hd := le_iff.2 (precedes_add hx hd)

/-! ## Differences and quotients -/

namespace Binary

variable {c d x y : T}

theorem delivers_read_sub (hc : Scalar.isFinite c = true) (hx : Scalar.isFinite x = true)
    (h : c ≤ x) :
    Delivers (ofFormat (format T)) (value (read x) - value (read c)) (read (x - c)) := by
  rw [read_sub]
  exact delivers_sub width (written_read hx) (written_read hc) ((le_iff_value hc hx).1 h)

theorem read_infinity_sub (hc : Scalar.isFinite c = true) (hx : read x = .infinity .positive) :
    read (x - c) = .infinity .positive := by
  rw [read_sub, hx, (infinity_absorbs _ (isFinite_read hc)).2.2, unpack_pack_infinity]

/-- A positive number is read as one. -/
theorem read_of_pos (hd : Scalar.isFinite d = true) (hpos : 0 < d) :
    ∃ m e hm, read d = .finite .positive m e hm := by
  have hle := mt (le_iff_value hd isFinite_zero).2 (ClockLaws.not_le_of_lt hpos)
  rw [value_read_zero, not_le] at hle
  rcases nonneg_of_value (written_read hd) hle.le with ⟨s, hs⟩ | h
  · rw [hs, value_zero] at hle
    exact absurd hle (lt_irrefl _)
  · exact h

theorem value_read_pos (hd : Scalar.isFinite d = true) (hpos : 0 < d) : 0 < value (read d) := by
  obtain ⟨m, e, hm, hread⟩ := read_of_pos hd hpos
  rw [hread]
  exact value_positive e hm

theorem delivers_read_div (hd : Scalar.isFinite d = true) (hpos : 0 < d)
    (hx : Scalar.isFinite x = true) (h : 0 ≤ x) :
    Delivers (ofFormat (format T)) (value (read x) / value (read d)) (read (x / d)) := by
  obtain ⟨m, e, hm, hread⟩ := read_of_pos hd hpos
  rw [read_div, hread]
  exact delivers_div width (written_read hx) (value_nonneg hx h)

theorem read_infinity_div (hd : Scalar.isFinite d = true) (hpos : 0 < d)
    (hx : read x = .infinity .positive) : read (x / d) = .infinity .positive := by
  obtain ⟨m, e, hm, hread⟩ := read_of_pos hd hpos
  rw [read_div, hread, hx]
  exact unpack_pack_infinity _

theorem eq_of_read (h : read x = read y) : x = y :=
  bits_injective ((unpack_inj_of_valid (valid x) (valid y) width).1 h)

/-- What is neither below 1 nor above it is 1. -/
theorem eq_one_of_le (h : 1 ≤ x) (h' : x ≤ 1) : x = 1 := by
  have hone : read (1 : T) = _ := unpack_one
  refine eq_of_read ?_
  rw [le_iff, hone] at h h'
  rw [hone]
  exact eq_of_precedes h h'

theorem zero_le_sub (hc : Scalar.isFinite c = true) (h : c ≤ x) : 0 ≤ x - c := by
  rcases cases_of_le hc h with hx | hx
  · refine le_of_delivers isFinite_zero ClockLaws.zero_le_zero ?_ (delivers_read_sub hc hx h)
    rw [value_read_zero]
    exact sub_nonneg.2 ((le_iff_value hc hx).1 h)
  · exact le_infinity ClockLaws.zero_le_zero (read_infinity_sub hc hx)

theorem zero_le_div (hd : Scalar.isFinite d = true) (hpos : 0 < d) (h : 0 ≤ x) : 0 ≤ x / d := by
  rcases cases_of_le isFinite_zero h with hx | hx
  · refine le_of_delivers isFinite_zero ClockLaws.zero_le_zero ?_ (delivers_read_div hd hpos hx h)
    rw [value_read_zero]
    exact div_nonneg (value_nonneg hx h) (value_read_pos hd hpos).le
  · exact le_infinity ClockLaws.zero_le_zero (read_infinity_div hd hpos hx)

end Binary

instance : SpanLaws T where
  zero_le_one := by
    rw [le_iff_value isFinite_zero isFinite_one, value_read_zero, value_read_one]
    exact zero_le_one
  eq_one h h' := eq_one_of_le h h'
  sub_nonneg hc h := zero_le_sub hc h
  div_nonneg hd hpos h := zero_le_div hd hpos h
  sub_le_sub hc hcx hxy := by
    have hcy := ClockLaws.le_trans hcx hxy
    rcases cases_of_le hc hcy with hy | hy
    · have hx := isFinite_of_between hc hy hcx hxy
      refine le_iff.2 ((delivers_read_sub hc hx hcx).precedes ?_ ?_ (delivers_read_sub hc hy hcy))
      · exact sub_nonneg.2 ((le_iff_value hc hx).1 hcx)
      · exact sub_le_sub_right ((le_iff_value hx hy).1 hxy) _
    · exact le_infinity (ClockLaws.le_self_of_le (zero_le_sub hc hcx)) (read_infinity_sub hc hy)
  div_le_div hd hpos h0 hxy := by
    have h0' := ClockLaws.le_trans h0 hxy
    rcases cases_of_le isFinite_zero h0' with hy | hy
    · have hx := isFinite_of_between isFinite_zero hy h0 hxy
      refine le_iff.2 ((delivers_read_div hd hpos hx h0).precedes ?_ ?_
        (delivers_read_div hd hpos hy h0'))
      · exact div_nonneg (value_nonneg hx h0) (value_read_pos hd hpos).le
      · exact div_le_div_of_nonneg_right ((le_iff_value hx hy).1 hxy) (value_read_pos hd hpos).le
    · exact le_infinity (ClockLaws.le_self_of_le (zero_le_div hd hpos h0))
        (read_infinity_div hd hpos hy)
  one_le_div {d x} hd hpos h := by
    have hone : (1 : T) ≤ 1 := ClockLaws.le_self_of_isFinite isFinite_one
    have h0 : 0 ≤ d := (le_iff_value isFinite_zero hd).2 (by
      rw [value_read_zero]
      exact (value_read_pos hd hpos).le)
    rcases cases_of_le hd h with hx | hx
    · refine le_of_delivers isFinite_one ?_ ?_
        (delivers_read_div hd hpos hx (ClockLaws.le_trans h0 h))
      · rw [le_iff_value isFinite_zero isFinite_one, value_read_zero, value_read_one]
        exact zero_le_one
      · rw [value_read_one]
        exact (one_le_div (value_read_pos hd hpos)).2 ((le_iff_value hd hx).1 h)
    · exact le_infinity hone (read_infinity_div hd hpos hx)

/-! ## Double width -/

namespace Binary

/-- A number that is defined is defined in double width. -/
theorem widen_le_self {x : Float32} (hx : x.isNaN = false) : widen x ≤ widen x := by
  rcases hu : read x with ⟨_ | _⟩ | _ | s | ⟨s, m, e, hm⟩
  · rw [eq_of_read (x := x) (y := Float32.ofBits 0xff800000) hu]
    decide +kernel
  · rw [eq_of_read (x := x) (y := Float32.ofBits 0x7f800000) hu]
    decide +kernel
  · have hnan : (read x).isNaN = false := hx
    rw [hu] at hnan
    cases hnan
  · refine ClockLaws.le_self_of_isFinite (amount_widen ?_).1
    show (read x).isFinite = true
    rw [hu]
    rfl
  · refine ClockLaws.le_self_of_isFinite (amount_widen ?_).1
    show (read x).isFinite = true
    rw [hu]
    rfl

/-- Products of doubles that are not below 0 are not below 0. -/
theorem zero_le_mul {x y : Float} (hx : x.isFinite = true) (hy : y.isFinite = true) (hx0 : 0 ≤ x)
    (hy0 : 0 ≤ y) : 0 ≤ x * y := by
  have hproduct : Delivers (ofFormat .binary64) (value (read x) * value (read y)) (read (x * y)) :=
    delivers_mul (by decide) (written_read hx) (written_read hy) (value_nonneg hx hx0)
      (value_nonneg hy hy0)
  refine le_of_delivers isFinite_zero ClockLaws.zero_le_zero ?_ hproduct
  rw [value_read_zero]
  exact mul_nonneg (value_nonneg hx hx0) (value_nonneg hy hy0)

/-- A product with 0 adds nothing. -/
theorem add_zero_mul_le {x y : Float} (hx : x.isFinite = true) (hx0 : 0 ≤ x)
    (hy : y.isFinite = true) : x + 0 * y ≤ x := by
  obtain ⟨s, hs⟩ : ∃ s, read (0 * y) = .zero s := by
    show ∃ s, unpack .binary64 (pack .binary64 (UnpackedFloat.mul .binary64 (.zero .positive)
      (read y))) = _
    rcases (written_read (x := y) hy).cases with ⟨s, hu⟩ | ⟨s, m, e, hm, hu⟩
    · rw [hu]
      exact ⟨_, unpack_packedZero⟩
    · rw [hu]
      exact ⟨_, unpack_packedZero⟩
  have hsum := delivers_add (f := .binary64) (by decide) (written_read hx)
    (show Written (ofFormat .binary64) (.zero s) from trivial) (value_nonneg hx hx0) le_rfl
  rw [value_zero, add_zero, ← hs] at hsum
  exact le_iff.2 (hsum.precedes (value_nonneg hx hx0) le_rfl (delivers_read hx hx0))

end Binary

end Cueflow
