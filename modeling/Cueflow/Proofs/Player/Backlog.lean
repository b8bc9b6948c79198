import Cueflow.Proofs.Number.Amount
import Cueflow.Proofs.Player.Outcome
/-!
# What a frame carries over

A clock counts in doubles. In a frame in which none of its operations rounds, what it owes and what
it plays are rational numbers, and the steps that it owes are a quotient rounded down.

> `carried_of_exact`: a frame that owes fewer whole steps than allowed plays them and keeps the
> rest; from as many whole steps as allowed on, it plays that many and keeps nothing.

So time is dropped by frames that owe more time than their steps can take. That is not the same as
owing more steps than allowed: with as many whole steps as allowed and a rest, the loop stops at
the limit before it asks whether another step is due, and drops a rest that is shorter than one
(`rest_lost_at_cap`).

The loop pays for one step at a time, and one step less is due after each (`due_sub`);
`pay_of_exact` is the induction on the budget. Nothing is assumed about what is owed before the
frame, only that the clock was made from settings that the check accepts, which gives it a step
with a positive amount (`after_ofSettings`), and that its uses leave the steps as they are
(`after_keeps`).
-/

namespace Cueflow

namespace FrameClock

open Number

/-! ## Using a clock -/

/-- What is done to a clock while it runs. -/
inductive Use where
  | advance (deltaTime : Float)
  | setTimeScale (scale : Float32)
  | reset

/-- The clock after one use. -/
def use (c : FrameClock Float) : Use → FrameClock Float
  | .advance deltaTime => (c.advance deltaTime).2
  | .setTimeScale scale => c.setTimeScale (widen scale)
  | .reset => c.reset

/-- The clock after it was used. -/
def after (c : FrameClock Float) (uses : List Use) : FrameClock Float := uses.foldl use c

variable (c : FrameClock Float)

/-- However a clock is used, its steps stay as they are. -/
theorem use_keeps (u : Use) :
    (c.use u).fixedTimestep = c.fixedTimestep ∧ (c.use u).maxSteps = c.maxSteps := by
  cases u <;> exact ⟨rfl, rfl⟩

theorem after_keeps (uses : List Use) :
    (c.after uses).fixedTimestep = c.fixedTimestep ∧ (c.after uses).maxSteps = c.maxSteps := by
  induction uses generalizing c with
  | nil => exact ⟨rfl, rfl⟩
  | cons u uses ih =>
    obtain ⟨hfixed, hmax⟩ := c.use_keeps u
    obtain ⟨hfixed', hmax'⟩ := ih (c.use u)
    exact ⟨hfixed'.trans hfixed, hmax'.trans hmax⟩

/-! ## Nothing is rounded -/

/-- Nothing is rounded when steps are paid for, however often that is. -/
def ExactlyPaid (fixed : Float) : (budget : Nat) → (owed : Float) → Prop
  | 0, _ => True
  | budget + 1, owed =>
    fixed ≤ owed → Exact (· - ·) (· - ·) owed fixed ∧ ExactlyPaid fixed budget (owed - fixed)

instance decidableExactlyPaid (fixed : Float) :
    (budget : Nat) → (owed : Float) → Decidable (ExactlyPaid fixed budget owed)
  | 0, _ => isTrue trivial
  | budget + 1, owed =>
    have := decidableExactlyPaid fixed budget (owed - fixed)
    inferInstanceAs (Decidable (fixed ≤ owed → _ ∧ ExactlyPaid fixed budget (owed - fixed)))

/-- Nothing is rounded in a frame: not when its length is scaled, not when that is added to what
is owed, and not when steps are paid for. -/
structure ExactFrame (c : FrameClock Float) (deltaTime : Float) : Prop where
  scaled : Exact (· * ·) (· * ·) deltaTime c.timeScale
  added : Exact (· + ·) (· + ·) c.owed (deltaTime * c.timeScale)
  paid : ExactlyPaid c.fixedTimestep c.maxSteps (c.owed + deltaTime * c.timeScale)

/-! ## Paying -/

/-- The whole steps in what is owed. -/
def due (fixed owed : Float) : Nat := ⌊amount owed / amount fixed⌋₊

variable {fixed owed : Float}

theorem due_eq_zero (hpos : 0 < amount fixed) (h : amount owed < amount fixed) :
    due fixed owed = 0 := by
  unfold due
  rw [Nat.floor_eq_zero, div_lt_one hpos]
  exact h

/-- A step that is paid for is one step less. -/
theorem due_sub (hpos : 0 < amount fixed) (hle : amount fixed ≤ amount owed)
    (hexact : Exact (· - ·) (· - ·) owed fixed) :
    due fixed owed = due fixed (owed - fixed) + 1 := by
  have hratio : amount (owed - fixed) / amount fixed = amount owed / amount fixed - 1 := by
    have hamount : amount (owed - fixed) = amount owed - amount fixed := hexact.amount_sub
    rw [hamount, sub_div, div_self (ne_of_gt hpos)]
  have hone : 1 ≤ amount owed / amount fixed := (one_le_div hpos).2 hle
  have hfloor : 1 ≤ ⌊amount owed / amount fixed⌋₊ := (Nat.one_le_floor_iff _).2 hone
  unfold due
  rw [hratio, Nat.floor_sub_one]
  omega

/-- Where nothing is rounded, all whole steps are paid for and the rest stays owed, unless the
budget is used up: then nothing stays. -/
theorem pay_of_exact (hfixed : fixed.isFinite = true) (hpos : 0 < amount fixed) (budget steps : Nat)
    (howed : owed.isFinite = true) (h : ExactlyPaid fixed budget owed) :
    (due fixed owed < budget → (pay fixed budget steps owed).1 = steps + due fixed owed ∧
      (pay fixed budget steps owed).2.isFinite = true ∧
      amount (pay fixed budget steps owed).2 = amount owed - due fixed owed * amount fixed) ∧
    (budget ≤ due fixed owed → pay fixed budget steps owed = (steps + budget, 0)) := by
  -- a payment takes one from what is due and one from the budget, so their order stays
  induction budget generalizing steps owed with
  | zero => exact ⟨fun hlt => absurd hlt (Nat.not_lt_zero _), fun _ => rfl⟩
  | succ budget ih =>
    unfold pay
    by_cases hle : fixed ≤ owed
    · obtain ⟨hexact, hrest⟩ := h hle
      obtain ⟨hbelow, habove⟩ := ih (steps + 1) hexact.finite hrest
      have hdue := due_sub hpos ((amount_le_iff hfixed howed).1 hle) hexact
      rw [if_pos hle]
      constructor
      · intro hlt
        obtain ⟨hsteps, hfinite, hamount⟩ := hbelow (by omega)
        refine ⟨by omega, hfinite, ?_⟩
        have hless : amount (owed - fixed) = amount owed - amount fixed := hexact.amount_sub
        rw [hamount, hless, hdue]
        push_cast
        ring
      · intro hge
        rw [habove (by omega)]
        congr 1
        omega
    · -- the loop ends here with less than a step owed
      have hlt : amount owed < amount fixed :=
        lt_of_not_ge fun hge => hle ((amount_le_iff hfixed howed).2 hge)
      have hdue := due_eq_zero hpos hlt
      rw [if_neg hle, hdue]
      refine ⟨fun _ => ⟨rfl, howed, ?_⟩, fun hge => absurd hge (by omega)⟩
      simp

/-! ## Frames -/

/-- What the check of the settings makes sure of stays with a clock. -/
theorem after_ofSettings {s : Settings} (hs : s.check = .ok ()) (uses : List Use) :
    ((ofSettings s).after uses).fixedTimestep.isFinite = true ∧
    amount ((ofSettings s).after uses).fixedTimestep = Single.amount s.fixedTimestep ∧
    0 < Single.amount s.fixedTimestep ∧
    ((ofSettings s).after uses).maxSteps = s.maxStepsPerFrame.toNat ∧
    s.maxStepsPerFrame.toNat ≠ 0 := by
  obtain ⟨hfinite, hnot, hmax, -⟩ := Settings.of_check hs
  obtain ⟨hwide, hamount⟩ := amount_widen hfinite
  obtain ⟨hfixed, hlimit⟩ := (ofSettings s).after_keeps uses
  have hpos : 0 < Single.amount s.fixedTimestep := by
    have hgt := mt (Single.amount_le_iff hfinite rfl).2 hnot
    rw [show Single.amount 0 = 0 from rfl] at hgt
    exact not_le.1 hgt
  rw [hfixed, hlimit]
  exact ⟨hwide, hamount, hpos, Show.maxSteps_ofSettings hmax, fun h => hmax (UInt32.toNat_inj.1 h)⟩

/-- A frame in which nothing is rounded pays for all whole steps and keeps the rest, if they are
fewer than allowed; if not, it plays as many as allowed and keeps nothing. -/
theorem advance_of_exact {c : FrameClock Float} {deltaTime : Float}
    (hfixed : c.fixedTimestep.isFinite = true) (hpos : 0 < amount c.fixedTimestep)
    (h : ExactFrame c deltaTime) {total : ℚ}
    (htotal : total = amount c.owed + amount deltaTime * amount c.timeScale) {n : Nat}
    (hn : n = ⌊total / amount c.fixedTimestep⌋₊) :
    (n < c.maxSteps → (c.advance deltaTime).1 = n ∧
      (c.advance deltaTime).2.owed.isFinite = true ∧
      amount (c.advance deltaTime).2.owed = total - n * amount c.fixedTimestep) ∧
    (c.maxSteps ≤ n → (c.advance deltaTime).1 = c.maxSteps ∧
      (c.advance deltaTime).2.owed = 0) := by
  have hamount : amount (c.owed + deltaTime * c.timeScale) = total := by
    rw [htotal, ← h.scaled.amount_mul]
    exact h.added.amount_add
  have hdue : due c.fixedTimestep (c.owed + deltaTime * c.timeScale) = n := by
    rw [hn, due, hamount]
  have hframe : ((c.advance deltaTime).1, (c.advance deltaTime).2.owed) =
    pay c.fixedTimestep c.maxSteps 0 (c.owed + deltaTime * c.timeScale) := rfl
  obtain ⟨hbelow, habove⟩ := pay_of_exact hfixed hpos c.maxSteps 0 h.added.finite h.paid
  rw [← hframe, hdue, hamount, Nat.zero_add] at hbelow
  rw [← hframe, hdue, Nat.zero_add] at habove
  exact ⟨hbelow, fun hge => Prod.mk.inj (habove hge)⟩

/-- Let a clock be made from settings that pass the check and be used in any way, and let a frame
come in which nothing is rounded. It plays as many of the whole steps that it then owes as are
allowed. If these are fewer than allowed, it keeps the rest, and otherwise nothing: so it drops
time exactly if it owes more of it than the steps allowed can take, be it less than a step more.
Below zero no step is due, and all is kept. -/
theorem carried_of_exact (s : Settings) (hs : s.check = .ok ()) (uses : List Use)
    (deltaTime : Float) (hexact : ExactFrame ((ofSettings s).after uses) deltaTime) :
    let c := (ofSettings s).after uses
    let step := Single.amount s.fixedTimestep
    let total := amount c.owed + amount deltaTime * amount c.timeScale
    let frame := c.advance deltaTime
    amount c.fixedTimestep = step ∧ 0 < step ∧ c.maxSteps = s.maxStepsPerFrame.toNat ∧
    frame.1 = min ⌊total / step⌋₊ c.maxSteps ∧ frame.2.owed.isFinite = true ∧
    (⌊total / step⌋₊ < c.maxSteps → amount frame.2.owed = total - ⌊total / step⌋₊ * step) ∧
    (c.maxSteps ≤ ⌊total / step⌋₊ → amount frame.2.owed = 0) ∧
    (amount frame.2.owed = total - frame.1 * step ↔ total ≤ c.maxSteps * step) := by
  intro c step total frame
  obtain ⟨hfixed, hamount, hstep, hmax, hne⟩ := after_ofSettings hs uses
  obtain ⟨hbelow, habove⟩ := advance_of_exact hfixed (hamount ▸ hstep) hexact rfl rfl
  rw [hamount] at hbelow habove
  refine ⟨hamount, hstep, hmax, ?_⟩
  rcases Nat.lt_or_ge ⌊total / step⌋₊ c.maxSteps with hlt | hge
  · -- all whole steps are played, and what is left is less than one of them
    obtain ⟨hsteps, hfinite, hrest⟩ := hbelow hlt
    have hle : total ≤ c.maxSteps * step := by
      have hnext : total / step < ⌊total / step⌋₊ + 1 := Nat.lt_floor_add_one _
      have hmore : (⌊total / step⌋₊ + 1 : ℚ) ≤ c.maxSteps := by exact_mod_cast hlt
      exact ((div_lt_iff₀ hstep).1 (hnext.trans_le hmore)).le
    refine ⟨?_, hfinite, fun _ => hrest, fun hge => absurd hge (Nat.not_le.2 hlt), ?_⟩
    · rw [Nat.min_eq_left hlt.le]
      exact hsteps
    · refine iff_of_true ?_ hle
      rw [show frame.1 = _ from hsteps]
      exact hrest
  · -- the budget is used up, and nothing is left of what is owed beyond it
    obtain ⟨hsteps, hrest⟩ := habove hge
    have hle : c.maxSteps * step ≤ total :=
      (le_div_iff₀ hstep).1 ((Nat.le_floor_iff' (hmax ▸ hne)).1 hge)
    have hzero : amount frame.2.owed = 0 := by
      rw [hrest]
      rfl
    refine ⟨?_, ?_, fun hlt => absurd hge (Nat.not_le.2 hlt), fun _ => hzero, ?_⟩
    · rw [Nat.min_eq_right hge]
      exact hsteps
    · rw [hrest]
      rfl
    · rw [hzero, hsteps, eq_comm, sub_eq_zero]
      exact ⟨fun heq => heq.le, fun hle' => le_antisymm hle' hle⟩

/-- A clock with steps of half a second that owes a quarter, at double speed: a quarter second
more is a step, and a quarter is still owed. -/
theorem carried_of_exact_below_cap :
    let s : Settings := { fixedTimestep := 0.5, maxStepsPerFrame := 2 }
    let uses : List Use := [.advance 0.75, .setTimeScale 2]
    let c := (ofSettings s).after uses
    s.check = .ok () ∧ ExactFrame c 0.25 ∧ (c.advance 0.25).1 = 1 ∧
    amount (c.advance 0.25).2.owed = 1 / 4 := by
  intro s uses c
  have hs : Settings.check { fixedTimestep := 0.5, maxStepsPerFrame := 2 } = .ok () := rfl
  have hexact : ExactFrame c 0.25 :=
    ⟨by decide +kernel, by decide +kernel, by decide +kernel⟩
  obtain ⟨-, -, -, hsteps, -, hbelow, -⟩ := carried_of_exact s hs uses 0.25 hexact
  refine ⟨hs, hexact, hsteps.trans (by decide +kernel), ?_⟩
  exact (hbelow (by decide +kernel)).trans (by decide +kernel)

/-- Two steps of half a second are allowed, and a frame of a second and a quarter comes: it owes
two whole steps and no more, and the quarter is lost, so that another quarter makes no step. -/
theorem rest_lost_at_cap :
    let s : Settings := { fixedTimestep := 0.5, maxStepsPerFrame := 2 }
    let c := ofSettings s
    let total := amount c.owed + amount 1.25 * amount c.timeScale
    let frame := c.advance 1.25
    s.check = .ok () ∧ ExactFrame c 1.25 ∧
    ⌊total / amount c.fixedTimestep⌋₊ = c.maxSteps ∧ frame.1 = c.maxSteps ∧
    total - frame.1 * amount c.fixedTimestep = 1 / 4 ∧ amount frame.2.owed = 0 ∧
    (frame.2.advance 0.25).1 = 0 := by
  refine ⟨rfl, ⟨?_, ?_, ?_⟩, ?_, ?_, ?_, ?_, ?_⟩ <;> decide +kernel

end FrameClock

end Cueflow
