import Cueflow.Proofs.Player.Backlog
import Cueflow.Proofs.Number.BinaryClock
/-!
# Time is conserved

What holds of a clock at any time, and what its steps add up to.

> `clock_invariant`: the scale stays in `[0, 10]`, a frame plays no more steps than allowed, and
> less than a step is owed after it; over frames that are not cut short and in which nothing is
> rounded, the steps are the whole steps in the time that was owed at first and the time that
> came since.

The loop pays while a step is due, so what it leaves is less than a step, unless its budget is
used up: then nothing is left (`pay_owed`). A frame may be so long that its scaled length is
the infinity; that is not paid off, however often a step is taken from it, and the budget ends
the loop. Where no frame is cut short, what a frame takes from the time that is owed are the steps
that it plays (`balance`), and the sum over a stretch does not ask how it was split.
-/

namespace Cueflow

namespace FrameClock

open Number

/-- A host that measures time: the lengths of frames are finite and not below 0, and scales are
defined. -/
def Use.Measured : Use → Prop
  | .advance deltaTime => deltaTime.isFinite = true ∧ 0 ≤ deltaTime
  | .setTimeScale scale => scale.isNaN = false
  | .reset => True

instance : DecidablePred Use.Measured
  | .advance deltaTime => inferInstanceAs (Decidable (deltaTime.isFinite = true ∧ 0 ≤ deltaTime))
  | .setTimeScale scale => inferInstanceAs (Decidable (scale.isNaN = false))
  | .reset => isTrue trivial

/-- Time passes between standing still and ten times as fast, and less than a step is owed. -/
structure Settled (c : FrameClock Float) : Prop where
  scale_nonneg : 0 ≤ c.timeScale
  scale_le : c.timeScale ≤ 10
  owed_nonneg : 0 ≤ c.owed
  owed_lt : c.owed < c.fixedTimestep

/-! ## Paying -/

variable {c : FrameClock Float} {fixed owed deltaTime : Float}

/-- What is left when steps have been paid is less than a step. -/
theorem pay_owed (hfixed : fixed.isFinite = true) (hpos : 0 < fixed) (budget steps : Nat)
    (howed : 0 ≤ owed) :
    0 ≤ (pay fixed budget steps owed).2 ∧ (pay fixed budget steps owed).2 < fixed := by
  induction budget generalizing steps owed with
  | zero => exact ⟨ClockLaws.zero_le_zero, hpos⟩
  | succ budget ih =>
    unfold pay
    by_cases hle : fixed ≤ owed
    · rw [if_pos hle]
      exact ih (steps + 1) (SpanLaws.sub_nonneg hfixed hle)
    · rw [if_neg hle]
      exact ⟨howed, ClockLaws.lt_of_not_le (ClockLaws.le_self_of_isFinite hfixed)
        (ClockLaws.le_self_of_le howed) hle⟩

/-! ## Uses -/

theorem Settled.isFinite_timeScale (h : Settled c) : c.timeScale.isFinite = true :=
  Binary.isFinite_of_between Binary.isFinite_zero rfl h.scale_nonneg h.scale_le

theorem Settled.isFinite_owed (h : Settled c) (hfixed : c.fixedTimestep.isFinite = true) :
    c.owed.isFinite = true :=
  Binary.isFinite_of_between Binary.isFinite_zero hfixed h.owed_nonneg (Binary.le_of_lt h.owed_lt)

/-- What a use leaves as it should be. -/
theorem Settled.use {u : Use} (hfixed : c.fixedTimestep.isFinite = true)
    (hpos : 0 < c.fixedTimestep) (h : Settled c) (hu : u.Measured) : Settled (c.use u) := by
  cases u with
  | advance deltaTime =>
    have hscaled := Binary.zero_le_mul hu.1 h.isFinite_timeScale hu.2 h.scale_nonneg
    obtain ⟨hnonneg, hlt⟩ := pay_owed hfixed hpos c.maxSteps 0
      (ClockLaws.zero_le_add h.owed_nonneg hscaled)
    exact { h with owed_nonneg := hnonneg, owed_lt := hlt }
  | setTimeScale scale =>
    obtain ⟨hnonneg, hle⟩ := Scalar.clamp_mem ClockLaws.zero_le_zero
      (ClockLaws.le_self_of_isFinite (x := (10 : Float)) rfl) (by decide +kernel)
      (Binary.widen_le_self hu)
    exact { h with scale_nonneg := hnonneg, scale_le := hle }
  | reset => exact { h with owed_nonneg := ClockLaws.zero_le_zero, owed_lt := hpos }

theorem Settled.after {uses : List Use} (hfixed : c.fixedTimestep.isFinite = true)
    (hpos : 0 < c.fixedTimestep) (h : Settled c) (huses : ∀ u ∈ uses, u.Measured) :
    Settled (c.after uses) := by
  induction uses generalizing c with
  | nil => exact h
  | cons u uses ih =>
    obtain ⟨hu, huses⟩ := List.forall_mem_cons.1 huses
    have hkeeps := (c.use_keeps u).1
    exact ih (hkeeps ▸ hfixed) (hkeeps ▸ hpos) (h.use hfixed hpos hu) huses

/-- The clock of settings that pass the check starts settled. -/
theorem settled_ofSettings {s : Settings} (hs : s.check = .ok ()) :
    (ofSettings s).fixedTimestep.isFinite = true ∧ 0 < (ofSettings s).fixedTimestep ∧
      Settled (ofSettings s) := by
  obtain ⟨hfixed, hamount, hpos, -⟩ := after_ofSettings hs []
  have hscale := (Settings.of_check hs).2.2.2
  change (ofSettings s).fixedTimestep.isFinite = true at hfixed
  change amount (ofSettings s).fixedTimestep = _ at hamount
  have hlt : 0 < (ofSettings s).fixedTimestep := by
    refine ClockLaws.lt_of_not_le (ClockLaws.le_self_of_isFinite hfixed) ClockLaws.zero_le_zero ?_
    rw [amount_le_iff hfixed rfl, show amount 0 = 0 from rfl, not_le]
    exact hpos.trans_eq hamount.symm
  obtain ⟨hnonneg, hle⟩ := Scalar.clamp_mem ClockLaws.zero_le_zero
    (ClockLaws.le_self_of_isFinite (x := (10 : Float)) rfl) (by decide +kernel)
    (ClockLaws.le_self_of_isFinite (amount_widen hscale).1)
  exact ⟨hfixed, hlt, hnonneg, hle, ClockLaws.zero_le_zero, hlt⟩

/-- A frame without length plays nothing. -/
theorem Settled.advance_zero (hfixed : c.fixedTimestep.isFinite = true) (h : Settled c) :
    (c.advance 0).1 = 0 := by
  have hle := Binary.add_zero_mul_le (h.isFinite_owed hfixed) h.owed_nonneg h.isFinite_timeScale
  have hnot : ¬ c.fixedTimestep ≤ c.owed + 0 * c.timeScale := fun hge =>
    ClockLaws.not_le_of_lt h.owed_lt (ClockLaws.le_trans hge hle)
  have hsteps : (c.advance 0).1 =
    (pay c.fixedTimestep c.maxSteps 0 (c.owed + 0 * c.timeScale)).1 := rfl
  rw [hsteps]
  cases c.maxSteps with
  | zero => rfl
  | succ n =>
    unfold pay
    rw [if_neg hnot]

/-! ## Stretches -/

/-- The steps that are played while a clock is used. -/
def played (c : FrameClock Float) : List Use → Nat
  | [] => 0
  | .advance deltaTime :: uses => (c.advance deltaTime).1 + played (c.use (.advance deltaTime)) uses
  | u :: uses => played (c.use u) uses

/-- The time that passes for a clock while it is used, each frame at the speed of its time. -/
def passed (c : FrameClock Float) : List Use → ℚ
  | [] => 0
  | .advance deltaTime :: uses =>
    amount deltaTime * amount c.timeScale + passed (c.use (.advance deltaTime)) uses
  | u :: uses => passed (c.use u) uses

/-- In none of the frames is anything rounded, none is cut short, and the clock is not reset. -/
def Unbroken (c : FrameClock Float) : List Use → Prop
  | [] => True
  | .advance deltaTime :: uses => ExactFrame c deltaTime ∧ (c.advance deltaTime).1 < c.maxSteps ∧
    Unbroken (c.use (.advance deltaTime)) uses
  | .setTimeScale scale :: uses => Unbroken (c.use (.setTimeScale scale)) uses
  | .reset :: _ => False

/-- What is owed after a stretch and what was played is what was owed before it and the time that
passed. -/
theorem balance {uses : List Use} (hfixed : c.fixedTimestep.isFinite = true)
    (hpos : 0 < amount c.fixedTimestep) (h : Unbroken c uses) :
    amount (c.after uses).owed + played c uses * amount c.fixedTimestep =
      amount c.owed + passed c uses := by
  induction uses generalizing c with
  | nil => simp [after, played, passed]
  | cons u uses ih =>
    cases u with
    | advance deltaTime =>
      obtain ⟨hexact, hlt, hrest⟩ := h
      obtain ⟨hbelow, habove⟩ := advance_of_exact hfixed hpos hexact rfl rfl
      have hdue := not_le.1 fun hge => Nat.ne_of_lt hlt (habove hge).1
      obtain ⟨hsteps, -, hamount⟩ := hbelow hdue
      have hbalance := ih (c := c.use (.advance deltaTime)) hfixed hpos hrest
      rw [← hsteps] at hamount
      change amount (c.use (.advance deltaTime)).owed = _ at hamount
      change _ + _ * amount c.fixedTimestep = _ at hbalance
      show amount ((c.use (.advance deltaTime)).after uses).owed +
        (((c.advance deltaTime).1 + played (c.use (.advance deltaTime)) uses : ℕ) : ℚ) *
          amount c.fixedTimestep =
        amount c.owed + (amount deltaTime * amount c.timeScale +
          passed (c.use (.advance deltaTime)) uses)
      push_cast
      linarith
    | setTimeScale scale => exact ih (c := c.use (.setTimeScale scale)) hfixed hpos h
    | reset => exact h.elim

/-- Over an unbroken stretch the whole steps are played in the time that was owed at first and the
time that passed, and the rest is owed. -/
theorem Settled.played_eq_floor {uses : List Use} (hfixed : c.fixedTimestep.isFinite = true)
    (hpos : 0 < c.fixedTimestep) (h : Settled c) (huses : ∀ u ∈ uses, u.Measured)
    (hunbroken : Unbroken c uses) {total step : ℚ} (htotal : total = amount c.owed + passed c uses)
    (hstep : step = amount c.fixedTimestep) :
    played c uses = ⌊total / step⌋₊ ∧
      amount (c.after uses).owed = total - played c uses * step := by
  have hstep0 : 0 < step := by
    have hnot := mt (amount_le_iff hfixed rfl).2 (ClockLaws.not_le_of_lt hpos)
    rw [hstep]
    exact not_le.1 hnot
  have hbalance := balance hfixed (hstep ▸ hstep0) hunbroken
  rw [← hstep, ← htotal] at hbalance
  -- what is owed in the end is less than a step
  have hend := h.after hfixed hpos huses
  have hkeeps := (c.after_keeps uses).1
  have hfixed' : (c.after uses).fixedTimestep.isFinite = true := hkeeps ▸ hfixed
  have howed := hend.isFinite_owed hfixed'
  have hnonneg : 0 ≤ amount (c.after uses).owed := (amount_le_iff rfl howed).1 hend.owed_nonneg
  have hlt : amount (c.after uses).owed < step := by
    have hnot := mt (amount_le_iff hfixed' howed).2 (ClockLaws.not_le_of_lt hend.owed_lt)
    rw [hkeeps, ← hstep] at hnot
    exact not_le.1 hnot
  refine ⟨?_, by linarith⟩
  have hquotient : total / step = amount (c.after uses).owed / step + played c uses := by
    rw [← hbalance, add_div, mul_div_cancel_right₀ _ hstep0.ne']
  rw [hquotient, Nat.floor_add_natCast (div_nonneg hnonneg hstep0.le),
    Nat.floor_eq_zero.2 ((div_lt_one hstep0).2 hlt), Nat.zero_add]

/-- Let a clock be made from settings that pass the check and be used by a host that measures
time. Its scale stays in `[0, 10]`, a frame plays no more steps than the settings allow, and less
than a step is owed after each use, so that a frame without length plays nothing. Over a further
stretch of such uses, in which no frame is cut short and nothing is rounded, the steps are the
whole ones in the time that was owed at first and the time that passed, and the rest is owed: no
matter how that time was split into frames. -/
theorem clock_invariant (s : Settings) (hs : s.check = .ok ()) (uses : List Use)
    (huses : ∀ u ∈ uses, u.Measured) :
    let c := (ofSettings s).after uses
    0 ≤ c.timeScale ∧ c.timeScale ≤ 10 ∧ c.fixedTimestep = widen s.fixedTimestep ∧
    0 ≤ c.owed ∧ c.owed < c.fixedTimestep ∧ (c.advance 0).1 = 0 ∧
    (∀ deltaTime, (c.advance deltaTime).1 ≤ s.maxStepsPerFrame.toNat) ∧
    ∀ stretch : List Use, (∀ u ∈ stretch, u.Measured) → Unbroken c stretch →
      let total := amount c.owed + passed c stretch
      let step := Single.amount s.fixedTimestep
      played c stretch = ⌊total / step⌋₊ ∧
      amount (c.after stretch).owed = total - played c stretch * step := by
  intro c
  obtain ⟨hfixed, hpos, hsettled⟩ := settled_ofSettings hs
  obtain ⟨hfinite, hamount, hstep, hmax, -⟩ := after_ofSettings hs uses
  have hkeeps := ((ofSettings s).after_keeps uses).1
  have hc : Settled c := hsettled.after hfixed hpos huses
  refine ⟨hc.scale_nonneg, hc.scale_le, hkeeps, hc.owed_nonneg, hc.owed_lt,
    hc.advance_zero hfinite, fun deltaTime => hmax ▸ c.advance_le deltaTime, ?_⟩
  intro stretch hstretch hunbroken total step
  exact hc.played_eq_floor hfinite (hkeeps ▸ hpos) hstretch hunbroken rfl hamount.symm

/-- A clock with steps of half a second has seen a frame whose scaled length is the infinity. Then a
quarter of a second comes, and three frames at changing speed bring two and a half seconds: five
steps are played, and a quarter is owed again. -/
theorem clock_invariant_after_overflow :
    let s : Settings := { fixedTimestep := 0.5, maxStepsPerFrame := 4 }
    let uses : List Use := [.setTimeScale 10, .advance 1.7e308, .setTimeScale 1, .advance 0.25]
    let stretch : List Use := [.advance 0.75, .setTimeScale 2, .advance 0.625, .advance 0.25]
    let c := (ofSettings s).after uses
    s.check = .ok () ∧ (∀ u ∈ uses, u.Measured) ∧ (∀ u ∈ stretch, u.Measured) ∧
    Unbroken c stretch ∧ (1.7e308 * 10 : Float) = 1 / 0 ∧ amount c.owed = 1 / 4 ∧
    played c stretch = 5 ∧ amount (c.after stretch).owed = 1 / 4 := by
  intro s uses stretch c
  have hs : Settings.check { fixedTimestep := 0.5, maxStepsPerFrame := 4 } = .ok () := rfl
  have huses : ∀ u ∈ uses, u.Measured := by decide +kernel
  have hstretch : ∀ u ∈ stretch, u.Measured := by decide +kernel
  have hunbroken : Unbroken c stretch := by
    refine ⟨⟨?_, ?_, ?_⟩, ?_, ⟨?_, ?_, ?_⟩, ?_, ⟨?_, ?_, ?_⟩, ?_, trivial⟩ <;> decide +kernel
  obtain ⟨-, -, -, -, -, -, -, hconserved⟩ := clock_invariant s hs uses huses
  obtain ⟨hplayed, hrest⟩ := hconserved stretch hstretch hunbroken
  refine ⟨hs, huses, hstretch, hunbroken, by decide +kernel, by decide +kernel, ?_, ?_⟩
  · exact hplayed.trans (by decide +kernel)
  · exact hrest.trans (by decide +kernel)

end FrameClock

end Cueflow
