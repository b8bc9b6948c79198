import Cueflow.Proofs.Player.Patrolling
/-!
# The stages of the show

How far each director has come, as the number of its hand-overs, what it runs, and what that
says about the board.

> `MainStage.step`, `AmbienceStage.step`: a step keeps to the stages; it goes on in its stage or
> hands over to the next one.

> `Show.Lawful.step`: a step of the show keeps both directors in their stages, the siren hushed,
> the reinforcements away and the world sound.

The directors share the board, but no name is written by both. What one of them says about the
board is therefore not touched by a tick of the other (`MainStage.of_writes`,
`AmbienceStage.of_writes`).
-/

namespace Cueflow

namespace Patrol

open Playback

variable {keys : List String} {w w' : World}

/-! ## What other writing leaves alone -/

/-- Neither alarm nor victory has been declared. -/
structure Calm (b : Board) : Prop where
  alarm : b.get? "alarm" = none
  victory : b.get? "victory" = none

theorem Calm.of_writes (h : Calm w.board) (hw : Writes keys w w') (halarm : "alarm" ∉ keys)
    (hvictory : "victory" ∉ keys) : Calm w'.board :=
  ⟨(hw.board _ halarm).trans h.alarm, (hw.board _ hvictory).trans h.victory⟩

theorem Down.of_writes (h : Down w.board) (hw : Writes keys w w') (hguard : "guard_hp" ∉ keys) :
    Down w'.board := by
  obtain ⟨hp, hget, hdown⟩ := h
  exact ⟨hp, (hw.board _ hguard).trans hget, hdown⟩

theorem Loud.of_writes (h : Loud w.board) (hw : Writes keys w w') (hnoise : "noise" ∉ keys)
    (hguard : "guard_hp" ∉ keys) : Loud w'.board := by
  obtain ⟨⟨x, hx, hloud⟩, hp, hget, hup⟩ := h
  exact ⟨⟨x, (hw.board _ hnoise).trans hx, hloud⟩, hp, (hw.board _ hguard).trans hget, hup⟩

theorem Hushed.of_writes (h : Hushed w.board) (hw : Writes keys w w') (hsiren : "siren" ∉ keys) :
    Hushed w'.board := by
  intro x hx
  rw [hw.board _ hsiren] at hx
  exact h x hx

theorem Intro.of_writes {next : Scene} {p : Playback Float32 World Empty Scene}
    (h : Intro next p w.board) (hw : Writes keys w w') (hguard : "guard_hp" ∉ keys) :
    Intro next p w'.board := by
  cases h with
  | opening h => exact .opening h
  | fading h => exact .fading h
  | spawned h hhp => exact .spawned h ((hw.board _ hguard).trans hhp)

theorem Alarm.of_writes {p : Playback Float32 World Empty Scene} (h : Alarm p w.board)
    (hw : Writes keys w w') (halarm : "alarm" ∉ keys) : Alarm p w'.board := by
  cases h with
  | opening h => exact .opening h
  | sounding h hget => exact .sounding h ((hw.board _ halarm).trans hget)

/-! ## The main flow -/

/-- The names that the main flow writes under. -/
def mainKeys : List String := ["light", "guard_hp", "noise", "alarm", "siren", "victory"]

/-- The timeline of the alarm. -/
def alarmTimeline : Timeline Float32 World := ⟨"alarm", alarmEvents⟩

/-- The timeline of victory. -/
def victoryTimeline : Timeline Float32 World := ⟨"victory", victoryEvents⟩

/-- How far the main flow has come: what is running, after how many hand-overs, and with what on
the board. -/
inductive MainStage : Option Scene → Nat → Board → Prop where
  | intro {p j b} : Intro (.junction j) p b → Patrols alarmTimeline victoryTimeline j → Calm b →
      MainStage (some (.playback p)) 0 b
  | patrol {j b} : Patrols alarmTimeline victoryTimeline j → Lit b → Calm b →
      MainStage (some (.junction j)) 1 b
  | victory {p b} : Standing victoryEvents none 0 [] p → Lit b → Down b → Calm b →
      MainStage (some (.playback p)) 2 b
  | alarm {p b} : Alarm p b → Lit b → Loud b → b.get? "victory" = none →
      MainStage (some (.playback p)) 2 b
  | left {b} : Lit b → Calm b → MainStage none 2 b
  | won {b} : Lit b → Down b → b.get? "victory" = some 1 → b.get? "alarm" = none →
      MainStage none 3 b
  | alarmed {b} : Lit b → Loud b → b.get? "alarm" = some 1 → b.get? "victory" = none →
      MainStage none 3 b

/-- What the main flow says about the board does not depend on names that it does not write. -/
theorem MainStage.of_writes {current : Option Scene} {n : Nat}
    (h : MainStage current n w.board) (hw : Writes keys w w')
    (hkeys : ∀ key ∈ mainKeys, key ∉ keys) : MainStage current n w'.board := by
  have hlight := hkeys "light" (by decide)
  have hguard := hkeys "guard_hp" (by decide)
  have hnoise := hkeys "noise" (by decide)
  have halarm := hkeys "alarm" (by decide)
  have hvictory := hkeys "victory" (by decide)
  cases h with
  | intro h hj hcalm =>
    exact .intro (h.of_writes hw hguard) hj (hcalm.of_writes hw halarm hvictory)
  | patrol hj hlit hcalm =>
    exact .patrol hj (hlit.of_writes hw hlight hguard) (hcalm.of_writes hw halarm hvictory)
  | victory h hlit hdown hcalm =>
    exact .victory h (hlit.of_writes hw hlight hguard) (hdown.of_writes hw hguard)
      (hcalm.of_writes hw halarm hvictory)
  | alarm h hlit hloud hnone =>
    exact .alarm (h.of_writes hw halarm) (hlit.of_writes hw hlight hguard)
      (hloud.of_writes hw hnoise hguard) ((hw.board _ hvictory).trans hnone)
  | left hlit hcalm =>
    exact .left (hlit.of_writes hw hlight hguard) (hcalm.of_writes hw halarm hvictory)
  | won hlit hdown hget hnone =>
    exact .won (hlit.of_writes hw hlight hguard) (hdown.of_writes hw hguard)
      ((hw.board _ hvictory).trans hget) ((hw.board _ halarm).trans hnone)
  | alarmed hlit hloud hget hnone =>
    exact .alarmed (hlit.of_writes hw hlight hguard) (hloud.of_writes hw hnoise hguard)
      ((hw.board _ halarm).trans hget) ((hw.board _ hvictory).trans hnone)

/-- A step of the main flow stays in its stage, or hands over to the next one. -/
theorem MainStage.step {c : Scene} {n : Nat} (h : MainStage (some c) n w.board)
    (hhushed : Hushed w.board) (hd : 0 ≤ w.deltaTime) (hfinite : w.deltaTime.isFinite = true) :
    Comes mainKeys w (fun c b => MainStage (some c) n b ∧ Hushed b)
      (fun next b => MainStage next (n + 1) b ∧ Hushed b) (c.step w) := by
  cases h with
  | intro h hj hcalm =>
    refine (h.step hd).lift Flow.playback (by decide) ?_ ?_
    · intro p w' hw h
      exact ⟨.intro h hj (hcalm.of_writes hw (by decide) (by decide)),
        hhushed.of_writes hw (by decide)⟩
    · rintro _ w' hw ⟨rfl, hlit⟩
      exact ⟨.patrol hj hlit (hcalm.of_writes hw (by decide) (by decide)),
        hhushed.of_writes hw (by decide)⟩
  | patrol hj hlit hcalm =>
    refine (hj.step hlit hfinite).lift Flow.junction (by decide) ?_ ?_
    · rintro j w' hw ⟨hj, hlit⟩
      exact ⟨.patrol hj hlit (hcalm.of_writes hw (by decide) (by decide)),
        hhushed.of_writes hw (by decide)⟩
    · rintro next w' hw ⟨hlit, hnext⟩
      have hcalm := hcalm.of_writes hw (by decide) (by decide)
      refine ⟨?_, hhushed.of_writes hw (by decide)⟩
      rcases hnext with rfl | ⟨rfl, hdown⟩ | ⟨rfl, hloud⟩
      · exact .left hlit hcalm
      · exact .victory (.ofTimeline victoryTimeline) hlit hdown hcalm
      · exact .alarm (.opening (.ofTimeline alarmTimeline)) hlit hloud hcalm.victory
  | victory h hlit hdown hcalm =>
    refine (victory_step h hd).lift Flow.playback (by decide) (fun _ _ _ => False.elim) ?_
    rintro _ w' hw ⟨rfl, hget⟩
    exact ⟨.won (hlit.of_writes hw (by decide) (by decide)) (hdown.of_writes hw (by decide)) hget
      ((hw.board _ (by decide)).trans hcalm.alarm), hhushed.of_writes hw (by decide)⟩
  | alarm h hlit hloud hnone =>
    refine (h.step hd hhushed).lift Flow.playback (by decide) ?_ ?_
    · rintro p w' hw ⟨h, hhushed⟩
      exact ⟨.alarm h (hlit.of_writes hw (by decide) (by decide))
        (hloud.of_writes hw (by decide) (by decide)) ((hw.board _ (by decide)).trans hnone), hhushed⟩
    · rintro _ w' hw ⟨rfl, hget, hhushed⟩
      exact ⟨.alarmed (hlit.of_writes hw (by decide) (by decide))
        (hloud.of_writes hw (by decide) (by decide)) hget ((hw.board _ (by decide)).trans hnone),
        hhushed⟩

/-! ## The ambience -/

/-- How far the ambience has come. -/
inductive AmbienceStage : Option Scene → Nat → Board → Prop where
  | running {p b} : Ambience p → AmbienceStage (some (.playback p)) 0 b
  | ended {b} : b.get? ambienceName = some 1 → AmbienceStage none 1 b

theorem AmbienceStage.of_writes {current : Option Scene} {n : Nat}
    (h : AmbienceStage current n w.board) (hw : Writes keys w w') (hkey : ambienceName ∉ keys) :
    AmbienceStage current n w'.board := by
  cases h with
  | running h => exact .running h
  | ended h => exact .ended ((hw.board _ hkey).trans h)

theorem AmbienceStage.step {c : Scene} {n : Nat} (h : AmbienceStage (some c) n w.board)
    (hd : 0 ≤ w.deltaTime) :
    Comes [ambienceName] w (fun c b => AmbienceStage (some c) n b)
      (fun next b => AmbienceStage next (n + 1) b) (c.step w) := by
  cases h with
  | running h =>
    refine (h.step hd).lift Flow.playback (fun _ => id) ?_ ?_
    · intro p w' _ h
      exact .running h
    · rintro _ w' _ ⟨rfl, hget⟩
      exact .ended hget

/-! ## A tick of a director -/

/-- What is said about a director and the board still holds after a tick, if it does after a
step of what the director runs. -/
theorem tick_keeps {d : Director Scene} (stage : Option Scene → Nat → Board → Prop)
    (h : stage d.current d.transitions w.board)
    (hstep : ∀ c, d.current = some c → Comes keys w (fun c b => stage (some c) d.transitions b)
      (fun next b => stage next (d.transitions + 1) b) (c.step w)) :
    Writes keys w (d.tick w).2.2 ∧
      stage (d.tick w).2.1.current (d.tick w).2.1.transitions (d.tick w).2.2.board := by
  cases hcurrent : d.current with
  | none =>
    rw [Director.tick_of_idle hcurrent]
    exact ⟨.refl keys w, h⟩
  | some c =>
    have hcomes := hstep c hcurrent
    have htick : Interpreter.step c w = c.step w := rfl
    unfold Director.tick
    rw [hcurrent]
    dsimp only
    rw [htick]
    rcases hres : c.step w with ⟨_ | next, c', w'⟩ <;> rw [hres] at hcomes
    · exact hcomes
    · exact ⟨⟨hcomes.1.deltaTime, hcomes.1.broken, hcomes.1.board⟩, hcomes.2⟩

end Patrol

/-! ## The show -/

namespace Show

open Patrol

/-- Both directors are in their stages, the siren is hushed, the reinforcements are away and the
world is sound. -/
structure Lawful (s : Show) : Prop where
  stepDelta_nonneg : 0 ≤ s.clock.stepDelta
  stepDelta_finite : s.clock.stepDelta.isFinite = true
  sound : s.world.broken = false
  reinforcements : s.world.board.get? "reinforcements" = none
  hushed : Hushed s.world.board
  main : MainStage s.main.current s.main.transitions s.world.board
  ambience : AmbienceStage s.ambience.current s.ambience.transitions s.world.board

/-- A step ticks the ambience and then the main flow; neither writes what the other goes by. -/
theorem Lawful.step {s : Show} (h : s.Lawful) : s.step.Lawful := by
  obtain ⟨w₀, hw₀⟩ : ∃ w₀, w₀ = s.world.beginTick s.clock.stepDelta := ⟨_, rfl⟩
  have hdelta₀ : w₀.deltaTime = s.clock.stepDelta := by rw [hw₀]; rfl
  have hboard₀ : w₀.board = s.world.board := by rw [hw₀]; rfl
  have hsound₀ : w₀.broken = false := by rw [hw₀]; exact h.sound
  -- the ambience
  obtain ⟨hwrites₁, hambience₁⟩ := tick_keeps (d := s.ambience) AmbienceStage
    (hboard₀ ▸ h.ambience : AmbienceStage _ _ w₀.board)
    fun c hc => (hc ▸ hboard₀ ▸ h.ambience : AmbienceStage (some c) _ w₀.board).step
      (hdelta₀ ▸ h.stepDelta_nonneg)
  obtain ⟨w₁, hw₁⟩ : ∃ w₁, w₁ = (s.ambience.tick w₀).2.2 := ⟨_, rfl⟩
  rw [← hw₁] at hwrites₁ hambience₁
  have hdelta₁ : w₁.deltaTime = s.clock.stepDelta := hwrites₁.deltaTime.trans hdelta₀
  have hmain₁ : MainStage s.main.current s.main.transitions w₁.board :=
    (hboard₀ ▸ h.main : MainStage _ _ w₀.board).of_writes hwrites₁ (by decide)
  have hhushed₁ : Hushed w₁.board :=
    (hboard₀ ▸ h.hushed : Hushed w₀.board).of_writes hwrites₁ (by decide)
  -- the main flow
  obtain ⟨hwrites₂, hmain₂, hhushed₂⟩ := tick_keeps (d := s.main)
    (fun c n b => MainStage c n b ∧ Hushed b) ⟨hmain₁, hhushed₁⟩
    fun c hc => (hc ▸ hmain₁ : MainStage (some c) _ w₁.board).step hhushed₁
      (hdelta₁ ▸ h.stepDelta_nonneg) (hdelta₁ ▸ h.stepDelta_finite)
  obtain ⟨w₂, hw₂⟩ : ∃ w₂, w₂ = (s.main.tick w₁).2.2 := ⟨_, rfl⟩
  rw [← hw₂] at hwrites₂ hmain₂ hhushed₂
  have hstep : s.step = { s with
      world := w₂, ambience := (s.ambience.tick w₀).2.1, main := (s.main.tick w₁).2.1
      steps := s.steps + 1 } := by
    rw [hw₂, hw₁, hw₀]
    rfl
  have hnone₀ : w₀.board.get? "reinforcements" = none := by rw [hboard₀, h.reinforcements]
  rw [hstep]
  exact {
    stepDelta_nonneg := h.stepDelta_nonneg
    stepDelta_finite := h.stepDelta_finite
    sound := (hwrites₂.broken.trans hwrites₁.broken).trans hsound₀
    reinforcements := (hwrites₂.board _ (by decide)).trans
      ((hwrites₁.board _ (by decide)).trans hnone₀)
    hushed := hhushed₂
    main := hmain₂
    ambience := hambience₁.of_writes hwrites₂ (by decide) }

end Show

end Cueflow
