import Cueflow.Proofs.Choice.Recording
import Cueflow.Proofs.Player.Scenes
/-!
# Patrolling

The junction of the show: a step lets the noise rise and the guard tire, and then goes on or
takes one of the three ways on.

> `Patrols.step`: the alarm is raised over a noise of at least 15 and a guard that is still up,
> victory is declared over a guard that is down, and no step leaves the lights or breaks the
> world.

The guard is up when its health is not at most 0 *and* can be compared. It can: it starts
finite, and what a step adds to it is finite (`Binary.add_le_self`).
-/

namespace Cueflow.Patrol

open Number Junction

variable {alarm victory : Timeline Float32 World} {wait : Wait Float32} {ambience : Dependency}
  {w : World} {j : Junction Float32 World Empty Scene}

/-! ## The parts of a step -/

/-- A time between a half and one can be drawn. -/
theorem writes_draw (keys : List String) (w : World) : Writes keys w (w.draw 0.5 1).2 := by
  have hrange : ¬ (1 : Float32) ≤ 0.5 := by decide +kernel
  have hdrawable : Chance.drawable 0.5 1 = true := by decide +kernel
  unfold World.draw World.draw?
  rw [if_neg hrange, Chance.Generator.draw?_of_drawable _ hdrawable]
  exact ⟨rfl, rfl, fun _ _ => rfl⟩

theorem startBranches_patrol (remaining : Float32) (ambience : Dependency) {x : Float32}
    {w' : World} (hdraw : w.draw 0.5 1 = (x, w')) :
    startBranches (patrolBranches ⟨0.5, 1, remaining⟩ ambience alarm victory) w =
      (patrolBranches ⟨0.5, 1, x⟩ (ambience.start w').1 alarm victory, w') := by
  have hwait : (⟨0.5, 1, remaining⟩ : Wait Float32).start w = (⟨0.5, 1, x⟩, w') := by
    unfold Wait.start
    rw [show Host.draw (0.5 : Float32) 1 w = (x, w') from hdraw]
  simp only [patrolBranches, startBranches, downBranch, alarmBranch, overBranch, Branch.start,
    Branch.when, Branch.whenNot, Branch.withLabel, guardDown, noisy, Condition.bound,
    Condition.start, Condition.startAll, hwait]
  rfl

theorem update_patrol (w : World) :
    runLogic Background.update [noise, stamina] w =
      add "guard_hp" (-w.deltaTime * 0.5) (add "noise" (w.deltaTime * 10) w) := rfl

theorem isOpen_down (victory : Timeline Float32 World) (w : World) :
    (downBranch victory).isOpen w =
      (decide (w.board.get "guard_hp" ≤ 0), downBranch victory, w) := by
  simp [downBranch, Branch.isOpen, Branch.when, Branch.withLabel, guardDown, Condition.bound,
    Condition.isMet]

theorem isOpen_alarm (wait : Wait Float32) (alarm : Timeline Float32 World) (w : World) :
    (alarmBranch wait alarm).isOpen w =
      ((wait.isMet w).1 && decide (15 ≤ w.board.get "noise"),
        alarmBranch (wait.isMet w).2.1 alarm, w) := by
  simp [alarmBranch, Branch.isOpen, Branch.when, Branch.withLabel, noisy, Condition.bound,
    Condition.isMet, Condition.allMet, Wait.isMet, Condition.kind]
  rfl

theorem isOpen_over (ambience : Dependency) (w : World) :
    (overBranch ambience).isOpen w = (!ambience.isMet w, overBranch ambience, w) := by
  simp [overBranch, Branch.isOpen, Branch.whenNot, Branch.withLabel, Condition.isMet]

/-- What finding the first open branch comes to: none is open, or which one is and why. -/
inductive Found (w : World) : Option Nat → Prop where
  | nothing : Found w none
  | down : w.board.get "guard_hp" ≤ 0 → Found w (some 0)
  | loud : ¬ w.board.get "guard_hp" ≤ 0 → 15 ≤ w.board.get "noise" → Found w (some 1)
  | ambienceOver : Found w (some 2)

theorem firstOpen_patrol (alarm victory : Timeline Float32 World) (wait : Wait Float32)
    (ambience : Dependency) (w : World) :
    ∃ found, Found w found ∧ ∃ remaining,
      firstOpen (patrolBranches wait ambience alarm victory) w =
        (found, patrolBranches { wait with remaining } ambience alarm victory, w) := by
  unfold patrolBranches firstOpen
  rw [isOpen_down]
  by_cases hdown : w.board.get "guard_hp" ≤ 0
  · rw [decide_eq_true hdown]
    exact ⟨some 0, .down hdown, wait.remaining, rfl⟩
  · rw [decide_eq_false hdown]
    dsimp only
    unfold firstOpen
    rw [isOpen_alarm]
    cases hloud : (wait.isMet w).1 && decide (15 ≤ w.board.get "noise") with
    | true =>
      have hnoise := of_decide_eq_true (Bool.and_eq_true_iff.1 hloud).2
      exact ⟨some 1, .loud hdown hnoise, _, rfl⟩
    | false =>
      dsimp only
      unfold firstOpen
      rw [isOpen_over]
      cases ambience.isMet w with
      | true => exact ⟨none, .nothing, _, rfl⟩
      | false => exact ⟨some 2, .ambienceOver, _, rfl⟩

/-! ## What is on the board while the guard patrols -/

theorem Lit.of_writes {keys : List String} {w' : World} (h : Lit w.board) (hw : Writes keys w w')
    (hlight : "light" ∉ keys) (hguard : "guard_hp" ∉ keys) : Lit w'.board := by
  obtain ⟨hp, hget, hself⟩ := h.guard
  exact ⟨(hw.board _ hlight).trans h.light, hp, (hw.board _ hguard).trans hget, hself⟩

/-- The guard has no health left. -/
def Down (b : Board) : Prop := ∃ hp, b.get? "guard_hp" = some hp ∧ hp ≤ 0

/-- The noise is high, and the guard has health left. -/
structure Loud (b : Board) : Prop where
  noise : ∃ x, b.get? "noise" = some x ∧ 15 ≤ x
  guard : ∃ hp, b.get? "guard_hp" = some hp ∧ 0 < hp

theorem get_eq_of_get? {b : Board} {key : String} {x : Float32} (h : b.get? key = some x) :
    b.get key = x := by
  unfold Board.get
  rw [h]
  rfl

/-- An update lets the noise rise and the guard tire, and leaves the lights alone. -/
theorem update_lit (h : Lit w.board) (hd : w.deltaTime.isFinite = true) :
    Writes ["noise", "guard_hp"] w (runLogic Background.update [noise, stamina] w) ∧
      Lit (runLogic Background.update [noise, stamina] w).board ∧
      ∃ x, (runLogic Background.update [noise, stamina] w).board.get? "noise" = some x := by
  obtain ⟨hp, hget, hself⟩ := h.guard
  rw [update_patrol, add_eq_set, add_eq_set]
  refine ⟨(Writes.set (by simp) _ w).trans (Writes.set (by simp) _ _), ⟨?_, ?_⟩, ?_⟩
  · rw [get?_set_of_ne (by decide), get?_set_of_ne (by decide), h.light]
  · refine ⟨_, get?_set_self _ _ _, Binary.add_le_self ?_ (Single.isFinite_neg_mul_half hd)⟩
    rw [get_eq_of_get? (x := hp) (by rw [get?_set_of_ne (by decide), hget])]
    exact hself
  · exact ⟨_, by rw [get?_set_of_ne (by decide), get?_set_self]⟩

/-! ## The junction -/

/-- The patrol has not ended; its branches are those that it was made with, with whatever is
left of the wait and whatever the ambience was found to be. -/
structure Patrols (alarm victory : Timeline Float32 World)
    (j : Junction Float32 World Empty Scene) : Prop where
  phase : j.phase = .notStarted ∨ j.phase = .running
  logic : j.logic = [noise, stamina]
  branches : ∃ remaining ambience,
    j.branches = patrolBranches ⟨0.5, 1, remaining⟩ ambience alarm victory

/-- Starting draws a time to wait and sets the noise to 0. -/
theorem Patrols.start (h : Patrols alarm victory j) (w : World) :
    Patrols alarm victory (j.start w).1 ∧ Writes ["noise"] w (j.start w).2 := by
  obtain ⟨remaining, ambience, hbranches⟩ := h.branches
  rcases h.phase with hphase | hphase
  · obtain ⟨x, w', hdraw⟩ : ∃ x w', w.draw 0.5 1 = (x, w') := ⟨_, _, rfl⟩
    have hstart : j.start w =
        ({ j with
            branches := patrolBranches ⟨0.5, 1, x⟩ (ambience.start w').1 alarm victory
            phase := .running }, set "noise" 0 w') := by
      unfold Junction.start
      rw [hphase, hbranches, h.logic]
      dsimp only
      rw [startBranches_patrol remaining ambience hdraw]
      rfl
    have hwrites := writes_draw ["noise"] w
    rw [hdraw] at hwrites
    rw [hstart]
    exact ⟨⟨Or.inr rfl, h.logic, _, _, rfl⟩, hwrites.trans (Writes.set (by simp) 0 _)⟩
  · have hstart : j.start w = (j, w) := by
      unfold Junction.start
      rw [hphase]
    rw [hstart]
    exact ⟨h, .refl _ w⟩

/-- Where the branch with this index leads. -/
def wayOn (alarm victory : Timeline Float32 World) : Nat → Option Scene
  | 0 => some (.playback (play victory))
  | 1 => some (.playback (play alarm))
  | _ => none

/-- Taking a branch leaves the world alone. -/
theorem Patrols.win (h : Patrols alarm victory j) (i : Nat) (w : World) :
    ∃ j', Junction.win j i w = (.done (wayOn alarm victory i), j', w) := by
  obtain ⟨remaining, ambience, hbranches⟩ := h.branches
  have hclose : j.close .taken w =
      ({ j with
          branches := patrolBranches ⟨0.5, 1, remaining⟩ ambience.finish alarm victory
          phase := .taken }, w) := by
    unfold Junction.close
    rw [hbranches, h.logic]
    rfl
  unfold Junction.win
  rw [hclose]
  rcases i with _ | _ | _ | i <;> exact ⟨_, rfl⟩

/-- A step goes on, or it takes a way on that the board allows. -/
theorem Patrols.step (h : Patrols alarm victory j) (hlit : Lit w.board)
    (hd : w.deltaTime.isFinite = true) :
    Comes ["noise", "guard_hp"] w (fun j b => Patrols alarm victory j ∧ Lit b)
      (fun c b => Lit b ∧ (c = none ∨ c = some (.playback (play victory)) ∧ Down b ∨
        c = some (.playback (play alarm)) ∧ Loud b)) (j.step w) := by
  obtain ⟨h₁, hwrites₁⟩ := h.start w
  rw [step_eq_choose h.phase]
  rcases hstart : j.start w with ⟨j₁, w₁⟩
  rw [hstart] at h₁ hwrites₁
  dsimp only at h₁ hwrites₁ ⊢
  obtain ⟨hwrites₂, hlit₂, x, hnoise⟩ := update_lit
    (hlit.of_writes hwrites₁ (by decide) (by decide)) (hwrites₁.deltaTime ▸ hd)
  have hwrites₁ : Writes ["noise", "guard_hp"] w w₁ := hwrites₁.mono (by simp)
  have hwrites := hwrites₁.trans hwrites₂
  obtain ⟨w₂, hw₂⟩ : ∃ w₂, w₂ = runLogic Background.update [noise, stamina] w₁ := ⟨_, rfl⟩
  rw [← hw₂] at hwrites hlit₂ hnoise
  obtain ⟨remaining, ambience, hbranches⟩ := h₁.branches
  obtain ⟨found, hfound, left, hfirst⟩ := firstOpen_patrol alarm victory
    ⟨0.5, 1, remaining⟩ ambience w₂
  have hfirst : firstOpen j₁.branches (runLogic Background.update j₁.logic w₁) =
      (found, patrolBranches ⟨0.5, 1, left⟩ ambience alarm victory, w₂) := by
    rw [hbranches, h₁.logic, ← hw₂, hfirst]
  have hwon : ∀ taken, Patrols alarm victory { j₁ with
      branches := patrolBranches ⟨0.5, 1, left⟩ ambience alarm victory, ticks := j₁.ticks + 1,
      taken } := fun _ => ⟨h₁.phase, h₁.logic, left, ambience, rfl⟩
  obtain ⟨hp, hget, hself⟩ := hlit₂.guard
  cases hfound with
  | nothing =>
    rw [choose_of_none hfirst]
    exact ⟨hwrites, ⟨h₁.phase, h₁.logic, left, ambience, rfl⟩, hlit₂⟩
  | down hdown =>
    obtain ⟨j', hwin⟩ := (hwon (some 0)).win 0 w₂
    rw [choose_of_some hfirst, hwin]
    rw [get_eq_of_get? hget] at hdown
    exact ⟨hwrites, hlit₂, Or.inr (Or.inl ⟨rfl, hp, hget, hdown⟩)⟩
  | loud hup hloud =>
    obtain ⟨j', hwin⟩ := (hwon (some 1)).win 1 w₂
    rw [choose_of_some hfirst, hwin]
    rw [get_eq_of_get? hget] at hup
    rw [get_eq_of_get? hnoise] at hloud
    have hpos := ClockLaws.lt_of_not_le hself ClockLaws.zero_le_zero hup
    exact ⟨hwrites, hlit₂, Or.inr (Or.inr ⟨rfl, ⟨x, hnoise, hloud⟩, hp, hget, hpos⟩)⟩
  | ambienceOver =>
    obtain ⟨j', hwin⟩ := (hwon (some 2)).win 2 w₂
    rw [choose_of_some hfirst, hwin]
    exact ⟨hwrites, hlit₂, Or.inl rfl⟩

end Cueflow.Patrol
