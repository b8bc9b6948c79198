import Cueflow.Player.Show
import Cueflow.Proofs.Number.Single
import Cueflow.Proofs.Schedule.Standing
/-!
# The scenes of the guard patrol

The timelines of the show as state machines: what is on the board at each place that a playback
of one can have come to, and what its next step makes of it.

> `Intro.step`, `Alarm.step`, `victory_step`, `Ambience.step`: a step of the scene goes on as the
> scene says or ends as it says, and writes under its own names only.

The last update of the intro and of the ambience writes 1 exactly (`EventAction.progress_eq_one`).
The siren is driven while the exit lies ahead, so it does not come to a quarter
(`Single.progress_lt_quarter`), and the reinforcements behind the exit are never reached.
-/

namespace Cueflow.Patrol

open Number Playback

/-! ## Writing on the board -/

/-- From one world to the other, nothing but the board was written, and that under these names
only. Chance may have been used. -/
structure Writes (keys : List String) (w w' : World) : Prop where
  deltaTime : w'.deltaTime = w.deltaTime
  broken : w'.broken = w.broken
  board : ∀ key ∉ keys, w'.board.get? key = w.board.get? key

namespace Writes

variable {keys keys' : List String} {w w' w'' : World}

theorem refl (keys : List String) (w : World) : Writes keys w w := ⟨rfl, rfl, fun _ _ => rfl⟩

theorem trans (h : Writes keys w w') (h' : Writes keys w' w'') : Writes keys w w'' where
  deltaTime := h'.deltaTime.trans h.deltaTime
  broken := h'.broken.trans h.broken
  board key hkey := (h'.board key hkey).trans (h.board key hkey)

theorem mono (h : Writes keys w w') (hsub : ∀ key ∈ keys, key ∈ keys') : Writes keys' w w' :=
  ⟨h.deltaTime, h.broken, fun key hkey => h.board key fun hmem => hkey (hsub key hmem)⟩

theorem set {key : String} (hkey : key ∈ keys) (value : Float32) (w : World) :
    Writes keys w (Patrol.set key value w) where
  deltaTime := rfl
  broken := rfl
  board other hother :=
    Roll.get?_insert_of_ne (fun h : other = key => hother (h ▸ hkey)) w.board value

end Writes

theorem get?_set_self (key : String) (value : Float32) (w : World) :
    (set key value w).board.get? key = some value := Roll.get?_insert_self w.board key value

theorem add_eq_set (key : String) (amount : Float32) (w : World) :
    add key amount w = set key (w.board.get key + amount) w := by
  simp only [add, set, World.onBoard, Board.add]

theorem get?_set_of_ne {key other : String} (hne : other ≠ key) (value : Float32) (w : World) :
    (set key value w).board.get? other = w.board.get? other :=
  Roll.get?_insert_of_ne hne w.board value

/-- What a step may come to: the scene goes on, or it ends and hands over `next`; in either case
it has written under these names only. -/
def Comes {C : Type} (keys : List String) (w : World) (goesOn : C → Board → Prop)
    (ends : Option Scene → Board → Prop) : StepResult Scene × C × World → Prop
  | (.suspend, c, w') => Writes keys w w' ∧ goesOn c w'.board
  | (.done next, _, w') => Writes keys w w' ∧ ends next w'.board

/-- A span that starts with its scene is not over at a time before its end. -/
theorem not_up {now d : Float32} (hlt : now < d) : ¬ d ≤ now - 0 := by
  rw [Single.sub_zero_eq]
  exact ClockLaws.not_le_of_lt hlt

namespace Comes

variable {C : Type} {keys keys' : List String} {w : World} {goesOn : C → Board → Prop}
  {ends : Option Scene → Board → Prop} {goesOn' : Scene → Board → Prop}
  {ends' : Option Scene → Board → Prop} {step : StepResult Scene × C × World}

/-- What a step of a part of a scene comes to, a step of the scene comes to. -/
theorem lift (h : Comes keys w goesOn ends step) (f : C → Scene)
    (hkeys : ∀ key ∈ keys, key ∈ keys')
    (hgoesOn : ∀ c w', Writes keys w w' → goesOn c w'.board → goesOn' (f c) w'.board)
    (hends : ∀ next w', Writes keys w w' → ends next w'.board → ends' next w'.board) :
    Comes keys' w goesOn' ends' (step.1, f step.2.1, step.2.2) := by
  obtain ⟨_ | next, c, w'⟩ := step
  · exact ⟨h.1.mono hkeys, hgoesOn c w' h.1 h.2⟩
  · exact ⟨h.1.mono hkeys, hends next w' h.1 h.2⟩

end Comes

/-! ## The intro -/

/-- The lights are on and the guard is there, with a health that can be compared. -/
structure Lit (b : Board) : Prop where
  light : b.get? "light" = some 1
  guard : ∃ hp, b.get? "guard_hp" = some hp ∧ hp ≤ hp

/-- How far the intro has come. -/
inductive Intro (next : Scene) (p : Playback Float32 World Empty Scene) (b : Board) : Prop where
  | opening : Standing introEvents (some next) 0 [] p → Intro next p b
  | fading : Standing introEvents (some next) 2 [1] p → Intro next p b
  | spawned : Standing introEvents (some next) 3 [1] p → b.get? "guard_hp" = some 3 →
      Intro next p b

theorem updateOngoing_intro (now : Float32) (w : World) :
    ∃ still, updateOngoing introEvents now [1] w =
        (false, still, set "light" (EventAction.progress (now - 0) 1) w) ∧
      (1 ≤ now - 0 ∧ still = [] ∨ ¬ 1 ≤ now - 0 ∧ still = [1]) :=
  updateOngoing_span (e := ⟨"fade_in", 0, 1, .span (set "light")⟩) rfl rfl now w

theorem Intro.step {next : Scene} {p : Playback Float32 World Empty Scene} {w : World}
    (h : Intro next p w.board) (hd : 0 ≤ w.deltaTime) :
    Comes ["light", "guard_hp"] w (Intro next) (fun c b => c = some next ∧ Lit b) (p.step w) := by
  have hlight : ∀ x w, Writes ["light", "guard_hp"] w (set "light" x w) := Writes.set (by simp)
  have hguard : ∀ x w, Writes ["light", "guard_hp"] w (set "guard_hp" x w) := Writes.set (by simp)
  cases h with
  | opening h =>
    have hdue : ¬ p.timeAfter w < 0 := ClockLaws.not_lt_of_le (h.timeAfter_nonneg hd)
    have hoff : Writes ["light", "guard_hp"] w (set "light" 0 (set "light" 0 w)) :=
      (hlight 0 w).trans (hlight 0 _)
    have hreached : triggerDue (p.timeAfter w) (introEvents.drop 0) 0 [] w =
        triggerDue (p.timeAfter w) (introEvents.drop 2) 2 [1] (set "light" 0 (set "light" 0 w)) :=
      (triggerDue_call hdue rfl).trans (triggerDue_span hdue rfl)
    by_cases hlt : p.timeAfter w < 1
    · have htrigger := hreached.trans (triggerDue_ahead hlt)
      obtain ⟨p', hstep, hp⟩ := h.due_suspend hd rfl hdue htrigger (Or.inl rfl)
      rw [hstep]
      exact ⟨hoff, .fading hp⟩
    · have htrigger : triggerDue (p.timeAfter w) (introEvents.drop 0) 0 [] w =
          (.all, 3, [1], set "guard_hp" 3 (set "light" 0 (set "light" 0 w))) :=
        hreached.trans (triggerDue_call hlt rfl)
      obtain ⟨p', hstep, hp⟩ := h.due_suspend hd rfl hdue htrigger
        (Or.inr ⟨rfl, List.cons_ne_nil _ _⟩)
      rw [hstep]
      exact ⟨hoff.trans (hguard 3 _), .spawned hp (get?_set_self _ _ _)⟩
  | fading h =>
    by_cases hlt : p.timeAfter w < 1
    · obtain ⟨still, hupdate, ⟨hup, -⟩ | ⟨-, rfl⟩⟩ := updateOngoing_intro (p.timeAfter w) w
      · exact absurd hup (not_up hlt)
      · obtain ⟨p', hstep, hp⟩ := h.ahead hd rfl hlt hupdate
        rw [hstep]
        exact ⟨hlight _ w, .fading hp⟩
    · have htrigger : triggerDue (p.timeAfter w) (introEvents.drop 2) 2 [1] w =
          (.all, 3, [1], set "guard_hp" 3 w) := triggerDue_call hlt rfl
      obtain ⟨p', hstep, hp⟩ := h.due_suspend hd rfl hlt htrigger
        (Or.inr ⟨rfl, List.cons_ne_nil _ _⟩)
      rw [hstep]
      exact ⟨hguard 3 w, .spawned hp (get?_set_self _ _ _)⟩
  | spawned h hhp =>
    have hkept : (set "light" (EventAction.progress (p.timeAfter w - 0) 1) w).board.get? "guard_hp"
        = some 3 := by
      rw [get?_set_of_ne (by decide), hhp]
    obtain ⟨still, hupdate, hstill⟩ := updateOngoing_intro (p.timeAfter w) w
    obtain ⟨p', ⟨hne, hstep, hp⟩ | ⟨rfl, hstep⟩⟩ :=
      h.played hd rfl (List.cons_ne_nil _ _) hupdate <;> rw [hstep]
    · obtain ⟨-, rfl⟩ := hstill.resolve_left fun hup => hne hup.2
      exact ⟨hlight _ w, .spawned hp hkept⟩
    · obtain ⟨hup, -⟩ := hstill.resolve_right fun hnot => nomatch hnot.2
      refine ⟨hlight _ w, rfl, ?_, 3, hkept, by decide +kernel⟩
      rw [get?_set_self, EventAction.progress_eq_one rfl hup]

/-! ## The alarm -/

/-- The siren has not come to a quarter, if it was heard at all. -/
def Hushed (b : Board) : Prop := ∀ x, b.get? "siren" = some x → x < 0.25

/-- How far the alarm has come. -/
inductive Alarm (p : Playback Float32 World Empty Scene) (b : Board) : Prop where
  | opening : Standing alarmEvents none 0 [] p → Alarm p b
  | sounding : Standing alarmEvents none 2 [1] p → b.get? "alarm" = some 1 → Alarm p b

theorem updateOngoing_alarm (now : Float32) (w : World) :
    ∃ still, updateOngoing alarmEvents now [1] w =
        (false, still, set "siren" (EventAction.progress (now - 0) 2) w) ∧
      (2 ≤ now - 0 ∧ still = [] ∨ ¬ 2 ≤ now - 0 ∧ still = [1]) :=
  updateOngoing_span (e := ⟨"siren", 0, 2, .span (set "siren")⟩) rfl rfl now w

theorem hushed_set_siren {x : Float32} (hx : x < 0.25) (w : World) :
    Hushed (set "siren" x w).board := by
  intro y hy
  rw [get?_set_self] at hy
  cases hy
  exact hx

theorem Alarm.step {p : Playback Float32 World Empty Scene} {w : World} (h : Alarm p w.board)
    (hd : 0 ≤ w.deltaTime) (hhushed : Hushed w.board) :
    Comes ["alarm", "siren"] w (fun p b => Alarm p b ∧ Hushed b)
      (fun c b => c = none ∧ b.get? "alarm" = some 1 ∧ Hushed b) (p.step w) := by
  have hsiren : ∀ x w, Writes ["alarm", "siren"] w (set "siren" x w) := Writes.set (by simp)
  cases h with
  | opening h =>
    have hdue : ¬ p.timeAfter w < 0 := ClockLaws.not_lt_of_le (h.timeAfter_nonneg hd)
    have hraise : Writes ["alarm", "siren"] w (set "siren" 0 (set "alarm" 1 w)) :=
      (Writes.set (by simp) 1 w).trans (hsiren 0 _)
    have halarm : (set "siren" 0 (set "alarm" 1 w)).board.get? "alarm" = some 1 := by
      rw [get?_set_of_ne (by decide), get?_set_self]
    have hhushed : Hushed (set "siren" 0 (set "alarm" 1 w)).board :=
      hushed_set_siren (by decide +kernel) _
    have hreached : triggerDue (p.timeAfter w) (alarmEvents.drop 0) 0 [] w =
        triggerDue (p.timeAfter w) (alarmEvents.drop 2) 2 [1] (set "siren" 0 (set "alarm" 1 w)) :=
      (triggerDue_call hdue rfl).trans (triggerDue_span hdue rfl)
    by_cases hlt : p.timeAfter w < 0.5
    · have htrigger := hreached.trans (triggerDue_ahead hlt)
      obtain ⟨p', hstep, hp⟩ := h.due_suspend hd rfl hdue htrigger (Or.inl rfl)
      rw [hstep]
      exact ⟨hraise, .sounding hp halarm, hhushed⟩
    · have htrigger := hreached.trans (triggerDue_exitState hlt rfl)
      obtain ⟨p', hstep⟩ := h.due_done hd rfl hdue htrigger (Or.inl rfl)
      rw [hstep, closeAll_span rfl rfl]
      exact ⟨hraise, rfl, halarm, hhushed⟩
  | sounding h halarm =>
    by_cases hlt : p.timeAfter w < 0.5
    · have h0 := h.timeAfter_nonneg hd
      obtain ⟨still, hupdate, ⟨hup, -⟩ | ⟨-, rfl⟩⟩ := updateOngoing_alarm (p.timeAfter w) w
      · have hle : (0.5 : Float32) ≤ 2 := by decide +kernel
        exact absurd (ClockLaws.le_trans hle hup) (not_up hlt)
      · obtain ⟨p', hstep, hp⟩ := h.ahead hd rfl hlt hupdate
        rw [hstep]
        refine ⟨hsiren _ w, .sounding hp ?_, hushed_set_siren (Single.progress_lt_quarter h0 hlt) w⟩
        rw [get?_set_of_ne (by decide), halarm]
    · have htrigger : triggerDue (p.timeAfter w) (alarmEvents.drop 2) 2 [1] w =
          (.exit, 2, [1], w) := triggerDue_exitState hlt rfl
      obtain ⟨p', hstep⟩ := h.due_done hd rfl hlt htrigger (Or.inl rfl)
      rw [hstep, closeAll_span rfl rfl]
      exact ⟨.refl _ w, rfl, halarm, hhushed⟩

/-! ## Victory -/

theorem victory_step {p : Playback Float32 World Empty Scene} {w : World}
    (h : Standing victoryEvents none 0 [] p) (hd : 0 ≤ w.deltaTime) :
    Comes ["victory"] w (fun _ _ => False)
      (fun c b => c = none ∧ b.get? "victory" = some 1) (p.step w) := by
  have hdue : ¬ p.timeAfter w < 0 := ClockLaws.not_lt_of_le (h.timeAfter_nonneg hd)
  have htrigger : triggerDue (p.timeAfter w) (victoryEvents.drop 0) 0 [] w =
      (.all, 1, [], set "victory" 1 w) := triggerDue_call hdue rfl
  obtain ⟨p', hstep⟩ := h.due_done hd rfl hdue htrigger (Or.inr ⟨rfl, rfl⟩)
  rw [hstep]
  exact ⟨Writes.set (by simp) 1 w, rfl, get?_set_self _ _ _⟩

/-! ## The ambience -/

/-- How far the ambience has come. -/
inductive Ambience (p : Playback Float32 World Empty Scene) : Prop where
  | opening : Standing ambienceEvents none 0 [] p → Ambience p
  | blowing : Standing ambienceEvents none 1 [0] p → Ambience p

theorem updateOngoing_ambience (now : Float32) (w : World) :
    ∃ still, updateOngoing ambienceEvents now [0] w =
        (false, still, set ambienceName (EventAction.progress (now - 0) 4) w) ∧
      (4 ≤ now - 0 ∧ still = [] ∨ ¬ 4 ≤ now - 0 ∧ still = [0]) :=
  updateOngoing_span (e := ⟨"wind", 0, 4, .span (set ambienceName)⟩) rfl rfl now w

theorem Ambience.step {p : Playback Float32 World Empty Scene} {w : World} (h : Ambience p)
    (hd : 0 ≤ w.deltaTime) :
    Comes [ambienceName] w (fun p _ => Ambience p)
      (fun c b => c = none ∧ b.get? ambienceName = some 1) (p.step w) := by
  have hwrite : ∀ x w, Writes [ambienceName] w (set ambienceName x w) := Writes.set (by simp)
  cases h with
  | opening h =>
    have hdue : ¬ p.timeAfter w < 0 := ClockLaws.not_lt_of_le (h.timeAfter_nonneg hd)
    have htrigger : triggerDue (p.timeAfter w) (ambienceEvents.drop 0) 0 [] w =
        (.all, 1, [0], set ambienceName 0 w) := triggerDue_span hdue rfl
    obtain ⟨p', hstep, hp⟩ := h.due_suspend hd rfl hdue htrigger
      (Or.inr ⟨rfl, List.cons_ne_nil _ _⟩)
    rw [hstep]
    exact ⟨hwrite 0 w, .blowing hp⟩
  | blowing h =>
    obtain ⟨still, hupdate, hstill⟩ := updateOngoing_ambience (p.timeAfter w) w
    obtain ⟨p', ⟨hne, hstep, hp⟩ | ⟨rfl, hstep⟩⟩ :=
      h.played hd rfl (List.cons_ne_nil _ _) hupdate <;> rw [hstep]
    · obtain ⟨-, rfl⟩ := hstill.resolve_left fun hup => hne hup.2
      exact ⟨hwrite _ w, .blowing hp⟩
    · obtain ⟨hup, -⟩ := hstill.resolve_right fun hnot => nomatch hnot.2
      refine ⟨hwrite _ w, rfl, ?_⟩
      rw [get?_set_self, EventAction.progress_eq_one rfl hup]

end Cueflow.Patrol
