import Mathlib
import Cueflow.Proofs.Number.BinaryClock
import Cueflow.Proofs.Schedule.Progress
/-!
# Single width

What a show needs to know about numbers of single width besides the laws of a clock.

> `value_ofBits`: a number that is built from its bits has the value that is decoded from them.

> `isFinite_neg_mul_half`: half a finite number is finite, of either sign.

> `progress_lt_quarter`: a span of two seconds that has run for less than half a second has come
> less than a quarter of its way.
-/

namespace Cueflow.Number.Single

open Float.Model (Format UnpackedFloat)
open Float.Model.UnpackedFloat
open BinaryFormat Binary

/-- A pattern below that of the infinity stands for what is decoded from it. -/
theorem value_ofBits {bits : UInt32} {m : ℕ} {q : ℤ} (hlt : bits.toNat < binary32.infinity)
    (hdecode : binary32.decode bits.toNat = (m, q)) :
    (Float32.ofBits bits).isFinite = true ∧ value (read (Float32.ofBits bits)) = m * 2 ^ q := by
  obtain ⟨b, hb⟩ : ∃ b : BitVec Format.binary32.numBits, b = bits.toBitVec := ⟨_, rfl⟩
  have hbits : b.toNat = bits.toNat := by
    rw [hb]
    rfl
  change bits.toNat < 255 * 2 ^ 23 at hlt
  have hmagnitude : magnitude b = bits.toNat := by
    rw [← hbits]
    exact Nat.mod_eq_of_lt (by rw [hbits]; show _ < 2 ^ 31; omega)
  have hlt' : magnitude b < (ofFormat .binary32).infinity := by rwa [hmagnitude]
  have hsign : sign b = .positive := if_neg (by rw [hbits]; show ¬ 2 ^ 31 ≤ _; omega)
  have hdecode' : (ofFormat .binary32).decode (magnitude b) = (m, q) := by rwa [hmagnitude]
  obtain ⟨hfinite, hvalue⟩ := value_unpack b hlt' hdecode'
  have hread : read (Float32.ofBits bits) = unpack .binary32 b := by
    show unpack .binary32 (pack .binary32 (unpack .binary32 bits.toBitVec)) = _
    rw [← hb, pack_unpack_of_valid (valid_of_magnitude_lt b hlt')]
  rw [← hread] at hfinite hvalue
  rw [hsign] at hvalue
  exact ⟨hfinite, hvalue⟩

/-- The time is the time since the start. -/
theorem sub_zero_eq (x : Float32) : x - 0 = x := by
  have hsub : UnpackedFloat.sub .binary32 (read x) (read (0 : Float32)) = read x := by
    cases read x with
    | notANumber => rfl
    | infinity s => rfl
    | zero s => cases s <;> rfl
    | finite s m e hm => rfl
  refine eq_of_read ?_
  rw [read_sub]
  exact (congrArg _ (congrArg _ hsub)).trans (unpack_pack_read x)

/-- Half a finite number is finite, of either sign. -/
theorem isFinite_neg_mul_half {x : Float32} (hx : x.isFinite = true) :
    (-x * 0.5).isFinite = true := by
  have hx : (read x).isFinite = true := hx
  have hself := unpack_pack_read x
  show (unpack .binary32 (pack .binary32 (UnpackedFloat.mul .binary32
    (unpack .binary32 (pack .binary32 (read x).neg)) (read (0.5 : Float32))))).isFinite = true
  rw [show read (0.5 : Float32) = .finite .positive (2 ^ 23) (-24) (by decide) from rfl]
  rcases hu : read x with _ | _ | s | ⟨s, m, e, hm⟩ <;> rw [hu] at hx hself
  · cases hx
  · cases hx
  · show (unpack .binary32 (pack .binary32 (UnpackedFloat.mul .binary32
      (unpack .binary32 (packedZero .binary32 (-s))) _))).isFinite = true
    rw [unpack_packedZero]
    show (unpack .binary32 (packedZero .binary32 _)).isFinite = true
    rw [unpack_packedZero]
    rfl
  · have hfits : (ofFormat .binary32).Fits m e := (fits_of_unpack _ hu).1
    have hsmall : e ≤ (ofFormat .binary32).maxExponent := by
      by_contra hlarge
      cases hself.symm.trans ((unpack_pack_finite hfits hm s).trans (if_neg hlarge))
    have hneg : unpack .binary32 (pack .binary32 (.finite (-s) m e hm)) = .finite (-s) m e hm :=
      (unpack_pack_finite hfits hm (-s)).trans (if_pos hsmall)
    have hhalf : (ofFormat .binary32).Fits (2 ^ 23) (-24) := by constructor <;> decide
    obtain ⟨n, q, hfits', hrounds, hmul⟩ :=
      mul_finite hm (Nat.two_pow_pos 23) hfits hhalf (-s) .positive
    -- rounding half of a number does not lead above the number
    have hle : (n : ℚ) * 2 ^ q ≤ m * 2 ^ e := by
      refine hrounds.mono (by positivity) ?_ hfits.rounds
      have hless : ((2 ^ 23 : ℕ) : ℚ) * 2 ^ (-24 : ℤ) ≤ 1 := by norm_num
      exact mul_le_of_le_one_right (by positivity) hless
    have hsmall' : q ≤ (ofFormat .binary32).maxExponent := by
      by_contra hlarge
      exact absurd (hle.trans_lt (hfits.lt_limit hsmall))
        (not_lt.2 (hfits'.limit_le (by decide) (not_le.1 hlarge)))
    show (unpack .binary32 (pack .binary32 (UnpackedFloat.mul .binary32
      (unpack .binary32 (pack .binary32 (.finite (-s) m e hm))) _))).isFinite = true
    rw [hneg, hmul, unpack_pack_unpacked hfits', if_pos (Or.inr hsmall'), unpacked]
    split <;> rfl

/-- What is below a half is not above the number before it. -/
theorem le_of_lt_half {x : Float32} (h0 : 0 ≤ x) (hlt : x < 0.5) :
    x ≤ Float32.ofBits 0x3effffff := by
  have hhalf : read (0.5 : Float32) = .finite .positive (2 ^ 23) (-24) (by decide) := rfl
  have hbefore : read (Float32.ofBits 0x3effffff) =
      .finite .positive (2 ^ 24 - 1) (-25) (by decide) := rfl
  obtain ⟨a, b, ha, hb, hab⟩ := lt_iff.1 hlt
  rw [hhalf] at hb
  cases hb
  rw [le_iff, hbefore]
  refine ⟨a, _, ha, rfl, ?_⟩
  rcases nonneg_cases (le_iff.1 h0) with hx | ⟨s, hx⟩ | ⟨m, e, hm, hx⟩ <;> rw [hx] at ha
  · cases ha
    simp [Prod.Lex.toLex_lt_toLex] at hab
  · cases ha
    simp [Prod.Lex.toLex_le_toLex]
  · cases ha
    obtain ⟨hlt, -, hnormal⟩ := (fits_of_unpack (f := .binary32) _ hx).1
    change m < 2 * 2 ^ 23 at hlt
    change e = -149 ∨ 2 ^ 23 ≤ m at hnormal
    simp only [Prod.Lex.toLex_lt_toLex, Prod.Lex.toLex_le_toLex, true_and] at hab ⊢
    omega

/-- A span of two seconds has not come to a quarter in less than half a second. -/
theorem progress_lt_quarter {now : Float32} (h0 : 0 ≤ now) (hlt : now < 0.5) :
    EventAction.progress (now - 0) 2 < 0.25 := by
  have hle := EventAction.progress_mono (d := 2) rfl h0 (le_of_lt_half h0 hlt)
  have hquarter : EventAction.progress (Float32.ofBits 0x3effffff) 2 < 0.25 := by decide +kernel
  rw [sub_zero_eq now]
  exact ClockLaws.lt_of_le_of_lt (ClockLaws.le_self_of_le (EventAction.progress_mem rfl h0).1)
    (ClockLaws.le_self_of_isFinite rfl) hle hquarter

end Cueflow.Number.Single
