import Cueflow.Proofs.Number.Width
import Cueflow.Proofs.Player.Stages
/-!
# The outcome of the show

Whatever settings the check accepts and whatever chance brings, the show is played to an outcome
that the rules of the guard patrol allow.

> `outcome_law`: a run never fails and never breaks the world, its counters keep to the limits,
> and its board tells one story: no outcome, the alarm or victory, with the noise and the guard
> as that outcome needs them.

The directors' stages say everything about the board (`MainStage.lit`, `MainStage.loud`,
`MainStage.down`, `MainStage.transitions_eq`). They hold when the show opens
(`Lawful.of_opening`), every step keeps them, and frames consist of steps, however many a frame
has and whatever its length is (`Lawful.frame`, `Lawful.playFrames`). The clock is only asked for
the delta of a step. It counts in double width, and what was widened is narrowed without loss
(`narrow_widen`), so that delta is the one in the settings.
-/

namespace Cueflow

theorem Roll.contains_eq_isSome {V : Type} (r : Roll V) (key : String) :
    r.contains key = (r.get? key).isSome := by
  unfold Roll.contains Roll.get?
  induction r.entries with
  | nil => rfl
  | cons e rest ih =>
    rw [List.any_cons, ih, Roll.lookup_entry]
    cases key == e.1 <;> rfl

namespace Patrol

/-! ## What the stages say in the end -/

namespace MainStage

variable {current : Option Scene} {n : Nat} {b : Board}

theorem transitions_le (h : MainStage current n b) : n ≤ 3 := by
  cases h <;> decide

theorem lit (h : MainStage current n b) (hn : 1 ≤ n) : Lit b := by
  cases h with
  | intro => exact absurd hn (by decide)
  | patrol _ hlit | victory _ hlit | alarm _ hlit | left hlit | won hlit | alarmed hlit =>
    exact hlit

theorem loud (h : MainStage current n b) (halarm : b.contains "alarm" = true) :
    Loud b ∧ b.get? "victory" = none := by
  rw [Roll.contains_eq_isSome] at halarm
  cases h with
  | intro _ _ hcalm | patrol _ _ hcalm | victory _ _ _ hcalm | left _ hcalm =>
    rw [hcalm.alarm] at halarm
    cases halarm
  | won _ _ _ hnone =>
    rw [hnone] at halarm
    cases halarm
  | alarm _ _ hloud hnone => exact ⟨hloud, hnone⟩
  | alarmed _ hloud _ hnone => exact ⟨hloud, hnone⟩

theorem down (h : MainStage current n b) (hvictory : b.contains "victory" = true) : Down b := by
  rw [Roll.contains_eq_isSome] at hvictory
  cases h with
  | intro _ _ hcalm | patrol _ _ hcalm | victory _ _ _ hcalm | left _ hcalm =>
    rw [hcalm.victory] at hvictory
    cases hvictory
  | alarm _ _ _ hnone | alarmed _ _ _ hnone =>
    rw [hnone] at hvictory
    cases hvictory
  | won _ hdown => exact hdown

/-- The main flow ends after its third hand-over if an outcome was declared, and after its second
if it left. -/
theorem transitions_eq (h : MainStage none n b) :
    n = if b.contains "alarm" || b.contains "victory" then 3 else 2 := by
  rw [Roll.contains_eq_isSome, Roll.contains_eq_isSome]
  cases h with
  | left _ hcalm => rw [hcalm.alarm, hcalm.victory]; rfl
  | won _ _ hget hnone => rw [hget, hnone]; rfl
  | alarmed _ _ hget hnone => rw [hget, hnone]; rfl

end MainStage

namespace AmbienceStage

variable {current : Option Scene} {n : Nat} {b : Board}

theorem transitions_le (h : AmbienceStage current n b) : n ≤ 1 := by
  cases h <;> decide

theorem wind_eq_one (h : AmbienceStage current n b) (hn : n = 1) : b.get? ambienceName = some 1 := by
  cases h with
  | running => cases hn
  | ended hget => exact hget

theorem transitions_eq (h : AmbienceStage none n b) : n = 1 := by
  cases h
  rfl

end AmbienceStage

/-! ## The flows that are played -/

/-- The timeline of the intro. -/
def introTimeline : Timeline Float32 World := ⟨"intro", introEvents⟩

/-- The timeline of the ambience. -/
def ambienceTimeline : Timeline Float32 World := ⟨ambienceName, ambienceEvents⟩

/-- The patrol before it starts. -/
def patrolJunction : Junction Float32 World Empty Scene :=
  .ofBranches "patrol" [noise, stamina]
    (patrolBranches ⟨0.5, 1, 0.5⟩ (.on ambienceName) alarmTimeline victoryTimeline)

theorem ambience_eq : ambience = .ok (.playback (play ambienceTimeline)) := rfl

theorem guardFlow_eq :
    guardFlow = .ok (.playback ((play introTimeline).andThen (.goto (.junction patrolJunction)))) :=
  rfl

end Patrol

/-! ## Opening -/

namespace Settings

variable {s : Settings}

/-- What the check makes sure of, as far as a run goes by it. -/
theorem of_check (hs : s.check = .ok ()) : s.fixedTimestep.isFinite = true ∧
    ¬ s.fixedTimestep ≤ 0 ∧ s.maxStepsPerFrame ≠ 0 ∧ s.timeScale.isFinite = true := by
  unfold check at hs
  split at hs
  · cases hs
  next hstep =>
  rw [Bool.or_eq_true, not_or, Bool.not_eq_true', Bool.not_eq_false, decide_eq_true_eq] at hstep
  split at hs
  · cases hs
  split at hs
  · cases hs
  next hscale =>
  split at hs
  · cases hs
  next hmax => exact ⟨hstep.1, hstep.2, hmax, by simpa using hscale⟩

end Settings

namespace Show

open Number Patrol

/-- The delta of a step is the length of a step in the settings. -/
theorem stepDelta_ofSettings {s : Settings} (hfinite : s.fixedTimestep.isFinite = true) :
    (FrameClock.ofSettings s).stepDelta = s.fixedTimestep := narrow_widen hfinite

theorem maxSteps_ofSettings {s : Settings} (hmax : s.maxStepsPerFrame ≠ 0) :
    (FrameClock.ofSettings s).maxSteps = s.maxStepsPerFrame.toNat := by
  have hpos : s.maxStepsPerFrame.toNat ≠ 0 := fun h => hmax (UInt32.toNat_inj.1 h)
  show max s.maxStepsPerFrame.toNat 1 = s.maxStepsPerFrame.toNat
  omega

/-- A show opens with both directors in their first stage. -/
theorem Lawful.of_opening (generator : Chance.Generator) {s : Settings} (hs : s.check = .ok ()) :
    ∃ opened, opening generator s = .ok opened ∧ opened.Lawful ∧
      opened.clock = .ofSettings s ∧ opened.frames = 0 ∧ opened.steps = 0 := by
  obtain ⟨hfinite, hpos, -⟩ := Settings.of_check hs
  have hdelta := stepDelta_ofSettings hfinite
  have hself : s.fixedTimestep ≤ s.fixedTimestep := ClockLaws.le_self_of_isFinite hfinite
  have hlt : 0 < s.fixedTimestep := ClockLaws.lt_of_not_le hself ClockLaws.zero_le_zero hpos
  have hnone : ∀ key, (Roll.empty : Board).get? key = none := fun _ => rfl
  unfold opening
  rw [ambience_eq, guardFlow_eq]
  refine ⟨_, rfl, ?_, rfl, rfl, rfl⟩
  exact {
    stepDelta_nonneg := hdelta ▸ Binary.le_of_lt hlt
    stepDelta_finite := hdelta ▸ hfinite
    sound := rfl
    reinforcements := hnone _
    hushed := fun x hx => nomatch (hnone _).symm.trans hx
    main := .intro (.opening ((Playback.Standing.ofTimeline introTimeline).andThen _))
      ⟨.inl rfl, rfl, _, _, rfl⟩ ⟨hnone _, hnone _⟩
    ambience := .running (.opening (.ofTimeline ambienceTimeline)) }

/-! ## Playing -/

theorem Lawful.playSteps (n : Nat) {s : Show} (h : s.Lawful) : (playSteps n s).Lawful := by
  induction n generalizing s with
  | zero => exact h
  | succ n ih => exact ih h.step

theorem playSteps_counters (n : Nat) (s : Show) : (playSteps n s).clock = s.clock ∧
    (playSteps n s).frames = s.frames ∧ (playSteps n s).steps = s.steps + n := by
  induction n generalizing s with
  | zero => exact ⟨rfl, rfl, rfl⟩
  | succ n ih =>
    obtain ⟨hclock, hframes, hsteps⟩ := ih s.step
    refine ⟨hclock, hframes, hsteps.trans ?_⟩
    show s.steps + 1 + n = s.steps + (n + 1)
    omega

/-- A frame changes nothing but the clock's account of time and what its steps change. -/
theorem Lawful.frame (frameTime : Float) {s : Show} (h : s.Lawful) :
    (s.frame frameTime).Lawful := by
  have hclock : ({ s with clock := (s.clock.advance frameTime).2 } : Show).Lawful :=
    ⟨h.stepDelta_nonneg, h.stepDelta_finite, h.sound, h.reinforcements, h.hushed, h.main,
      h.ambience⟩
  have hplayed := hclock.playSteps (s.clock.advance frameTime).1
  exact ⟨hplayed.stepDelta_nonneg, hplayed.stepDelta_finite, hplayed.sound,
    hplayed.reinforcements, hplayed.hushed, hplayed.main, hplayed.ambience⟩

/-- No frame so far has had more steps than this. -/
structure Paced (maxSteps : Nat) (s : Show) : Prop where
  clock : s.clock.maxSteps = maxSteps
  steps_le : s.steps ≤ s.frames * maxSteps

theorem Paced.frame {maxSteps : Nat} (frameTime : Float) {s : Show} (h : s.Paced maxSteps) :
    (s.frame frameTime).Paced maxSteps ∧ (s.frame frameTime).frames = s.frames + 1 := by
  have hle := s.clock.advance_le frameTime
  obtain ⟨hclock, hframes, hsteps⟩ := playSteps_counters (s.clock.advance frameTime).1
    { s with clock := (s.clock.advance frameTime).2 }
  have hframes' : (s.frame frameTime).frames = s.frames + 1 := congrArg (· + 1) hframes
  have hsteps' : (s.frame frameTime).steps = s.steps + (s.clock.advance frameTime).1 := hsteps
  refine ⟨⟨(congrArg FrameClock.maxSteps hclock).trans h.clock, ?_⟩, hframes'⟩
  rw [hframes', hsteps', Nat.add_mul, Nat.one_mul]
  rw [h.clock] at hle
  exact Nat.add_le_add h.steps_le hle

/-- What holds of the show after every frame holds in the end. -/
theorem playFrames_induction {frameTime : Float} {kept : Show → Prop}
    (hframe : ∀ s, kept s → kept (s.frame frameTime)) (limit : Nat) {s : Show} (h : kept s) :
    kept (playFrames frameTime limit s) := by
  induction limit generalizing s with
  | zero => exact h
  | succ limit ih =>
    unfold playFrames
    split
    · exact ih (hframe s h)
    · exact h

/-- A show stops at its limit, or before it because both directors are idle. -/
theorem playFrames_stops (frameTime : Float) (limit : Nat) {maxSteps : Nat} {s : Show}
    (h : s.Paced maxSteps) : (playFrames frameTime limit s).frames ≤ s.frames + limit ∧
      ((playFrames frameTime limit s).isRunning = false ∨
        (playFrames frameTime limit s).frames = s.frames + limit) := by
  induction limit generalizing s with
  | zero => exact ⟨Nat.le_refl _, Or.inr rfl⟩
  | succ limit ih =>
    unfold playFrames
    split
    · obtain ⟨hpaced, hframes⟩ := h.frame frameTime
      have := ih hpaced
      rw [hframes, Nat.add_assoc, Nat.add_comm 1 limit] at this
      exact this
    · next hidle => exact ⟨Nat.le_add_right _ _, Or.inl (Bool.not_eq_true _ ▸ hidle)⟩

end Show

/-! ## The outcome -/

/-- The outcome is one that the settings and the rules of the patrol allow. -/
structure Summary.Allowed (r : Summary) (s : Settings) : Prop where
  frames_le : r.frames ≤ s.maxFrames.toNat
  steps_le : r.steps ≤ r.frames * s.maxStepsPerFrame.toNat
  stopped : r.finished = true ∨ r.frames = s.maxFrames.toNat
  ambienceTransitions_le : r.ambienceTransitions ≤ 1
  mainTransitions_le : r.mainTransitions ≤ 3
  reinforcements : r.board.contains "reinforcements" = false
  one_story : ¬ (r.board.contains "alarm" = true ∧ r.board.contains "victory" = true)
  siren : ∀ x, r.board.get? "siren" = some x → x < 0.25
  light : 1 ≤ r.mainTransitions →
    r.board.get? "light" = some 1 ∧ r.board.contains "guard_hp" = true
  ambience : r.ambienceTransitions = 1 → r.board.get? "ambience" = some 1
  victory : r.board.contains "victory" = true →
    ∃ hp, r.board.get? "guard_hp" = some hp ∧ hp ≤ 0
  alarm : r.board.contains "alarm" = true →
    (∃ x, r.board.get? "noise" = some x ∧ 15 ≤ x) ∧
      ∃ hp, r.board.get? "guard_hp" = some hp ∧ 0 < hp
  finished : r.finished = true → r.ambienceTransitions = 1 ∧
    r.mainTransitions = if r.board.contains "alarm" || r.board.contains "victory" then 3 else 2

namespace Show

open Patrol

/-- What the stages of both directors say about the outcome. -/
theorem Lawful.allowed {s : Settings} {final : Show} (h : final.Lawful)
    (hpaced : final.Paced s.maxStepsPerFrame.toNat)
    (hframes : final.frames ≤ s.maxFrames.toNat)
    (hstopped : final.isRunning = false ∨ final.frames = s.maxFrames.toNat) :
    final.summary.Allowed s where
  frames_le := hframes
  steps_le := hpaced.steps_le
  stopped := by
    refine hstopped.imp_left fun hidle => ?_
    show (!final.isRunning) = true
    rw [hidle]
    rfl
  ambienceTransitions_le := h.ambience.transitions_le
  mainTransitions_le := h.main.transitions_le
  reinforcements := by
    show final.world.board.contains "reinforcements" = false
    rw [Roll.contains_eq_isSome, h.reinforcements]
    rfl
  one_story := by
    rintro ⟨halarm, hvictory⟩
    rw [Roll.contains_eq_isSome] at hvictory
    have hnone : final.summary.board.get? "victory" = none := (h.main.loud halarm).2
    rw [hnone] at hvictory
    cases hvictory
  siren := h.hushed
  light hn := by
    obtain ⟨hlight, hp, hget, -⟩ := h.main.lit hn
    refine ⟨hlight, ?_⟩
    show final.world.board.contains "guard_hp" = true
    rw [Roll.contains_eq_isSome, hget]
    rfl
  ambience hn := h.ambience.wind_eq_one hn
  victory := h.main.down
  alarm halarm := ⟨(h.main.loud halarm).1.noise, (h.main.loud halarm).1.guard⟩
  finished hfinished := by
    obtain ⟨hmain, hambience⟩ : final.main.current = none ∧ final.ambience.current = none := by
      simpa [summary, isRunning, Director.isRunning] using hfinished
    exact ⟨(hambience ▸ h.ambience).transitions_eq, (hmain ▸ h.main).transitions_eq⟩

/-- Every run with settings that the check accepts comes to an outcome that the rules of the
patrol allow, whatever the generator gives. -/
theorem outcome_law (generator : Chance.Generator) (s : Settings) (hs : s.check = .ok ()) :
    ∃ final, playOn generator s = .ok final ∧ final.world.broken = false ∧
      final.summary.Allowed s := by
  obtain ⟨opened, hopening, hlawful, hclock, hframes₀, hsteps₀⟩ := Lawful.of_opening generator hs
  have hpaced : opened.Paced s.maxStepsPerFrame.toNat := by
    refine ⟨?_, ?_⟩
    · rw [hclock, maxSteps_ofSettings (Settings.of_check hs).2.2.1]
    · rw [hsteps₀]
      exact Nat.zero_le _
  obtain ⟨frameTime, hframeTime⟩ : ∃ t, t = Number.widen s.frameTime := ⟨_, rfl⟩
  have hlawful := playFrames_induction (fun _ h => h.frame frameTime) s.maxFrames.toNat hlawful
  obtain ⟨hle, hstopped⟩ := playFrames_stops frameTime s.maxFrames.toNat hpaced
  have hpaced := playFrames_induction (fun _ h => (h.frame frameTime).1) s.maxFrames.toNat hpaced
  rw [hframes₀, Nat.zero_add] at hle hstopped
  refine ⟨_, ?_, hlawful.sound, hlawful.allowed hpaced hle hstopped⟩
  unfold playOn
  rw [hs, hopening, hframeTime]
  rfl

/-- The default settings are accepted, so the law holds of every run with them. Each story that it
tells is played to its end: in steps of half a second the noise is high before the guard is down,
and the alarm is raised; in steps of eight seconds the guard is down at once; and in steps of
1.4 seconds the ambience is over before either. -/
theorem outcome_law_of_defaults :
    let ending := fun s : Settings => (run s).toOption.map fun r =>
      (r.finished, r.ambienceTransitions, r.mainTransitions,
        r.board.contains "alarm", r.board.contains "victory")
    ({} : Settings).check = .ok () ∧
    (∃ final, playOn (.ofSeed 0) {} = .ok final ∧ final.world.broken = false ∧
      final.summary.Allowed {}) ∧
    ending { fixedTimestep := 0.5, frameTime := 0.5 } = some (true, 1, 3, true, false) ∧
    ending { fixedTimestep := 8, frameTime := 8 } = some (true, 1, 3, false, true) ∧
    ending { fixedTimestep := 1.4, frameTime := 1.4 } = some (true, 1, 2, false, false) := by
  refine ⟨rfl, outcome_law (.ofSeed 0) {} rfl, ?_, ?_, ?_⟩ <;> decide +kernel

end Show

end Cueflow
