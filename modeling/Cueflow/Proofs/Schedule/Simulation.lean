import Mathlib.Data.List.Forall2
import Cueflow.Proofs.Flow.Resolver
import Cueflow.Proofs.Schedule.Recording
/-!
# Playbacks that run alike

Two playbacks of the same shape on two kinds of hosts, and a relation `R` between these hosts
that every callback of the one and the callback of the other in its place keep, with the same
answer.

> `Simulates.play`: then whole runs keep it, and the playbacks go through the same states.

A playback decides by nothing but its clock and the answers that it gets, so `Simulates` asks for
the shape, event by event, and for hosts that tell the same delta. What the callbacks do to the
hosts is up to `R`: it may forget a part of one host, or tell a part of one from the other.
-/

namespace Cueflow

variable {A T K K' C S S' : Type} {R : S → S' → Prop}

/-- The same answer, on hosts that are related. -/
def Agree (R : S → S' → Prop) (x : A × S) (y : A × S') : Prop := y.1 = x.1 ∧ R x.2 y.2

/-- The events start at the same time, answer the same, and leave related hosts related. -/
structure Event.Simulates [Scalar T] (R : S → S' → Prop) (e : Event T S) (e' : Event T S') :
    Prop where
  time : e'.time = e.time
  trigger : ∀ {s s'}, R s s' → Agree R (e.trigger s) (e'.trigger s')
  update : ∀ (now : T) {s s'}, R s s' → Agree R (e.update now s) (e'.update now s')
  close : ∀ {s s'}, R s s' → R (e.close s) (e'.close s')

/-- The same move, on related hosts. -/
inductive Move.Simulates (R : S → S' → Prop) : Move S → Move S' → Prop where
  | step : Simulates R .step .step
  | abort : Simulates R .abort .abort
  | outside {f : S → S} {f' : S' → S'} : (∀ {s s'}, R s s' → R (f s) (f' s')) →
      Simulates R (.outside f) (.outside f')

/-- Lists that are related have related elements in the same places. -/
theorem getElem?_forall₂ {α β : Type} {r : α → β → Prop} {xs : List α} {ys : List β}
    (h : List.Forall₂ r xs ys) (i : Nat) :
    (xs[i]? = none ∧ ys[i]? = none) ∨ ∃ x y, xs[i]? = some x ∧ ys[i]? = some y ∧ r x y := by
  induction h generalizing i with
  | nil => exact Or.inl ⟨rfl, rfl⟩
  | cons hxy _ ih =>
    cases i with
    | zero => exact Or.inr ⟨_, _, rfl, rfl, hxy⟩
    | succ i =>
      rw [List.getElem?_cons_succ, List.getElem?_cons_succ]
      exact ih i

namespace Playback

variable [Scalar T]

/-! ## The passes -/

section Passes

variable {events : List (Event T S)} {events' : List (Event T S')} {s : S} {s' : S'}

theorem closeAll_alike (h : List.Forall₂ (Event.Simulates R) events events') (active : List Nat)
    (hs : R s s') : R (closeAll events active s) (closeAll events' active s') := by
  induction active generalizing s s' with
  | nil => exact hs
  | cons i rest ih =>
    unfold closeAll
    rcases getElem?_forall₂ h i with ⟨he, he'⟩ | ⟨e, e', he, he', halike⟩
    · rw [he, he']
      exact ih hs
    · rw [he, he']
      exact ih (halike.close hs)

theorem updateOngoing_alike (h : List.Forall₂ (Event.Simulates R) events events') (now : T)
    (active : List Nat) (hs : R s s') :
    let pass := updateOngoing events now active s
    let pass' := updateOngoing events' now active s'
    pass'.1 = pass.1 ∧ pass'.2.1 = pass.2.1 ∧ R pass.2.2 pass'.2.2 := by
  induction active generalizing s s' with
  | nil => exact ⟨rfl, rfl, hs⟩
  | cons i rest ih =>
    unfold updateOngoing
    rcases getElem?_forall₂ h i with ⟨he, he'⟩ | ⟨e, e', he, he', halike⟩
    · rw [he, he']
      exact ih hs
    · rw [he, he']
      dsimp only
      obtain ⟨hanswer, hupdated⟩ := halike.update now hs
      rcases hu : e.update now s with ⟨answer, s₁⟩
      rcases hu' : e'.update now s' with ⟨answer', s₁'⟩
      rw [hu, hu'] at hanswer hupdated
      obtain rfl : answer = answer' := hanswer.symm
      cases answer with
      | ongoing =>
        obtain ⟨hexited, hstill, hrest⟩ := ih hupdated
        exact ⟨hexited, congrArg (i :: ·) hstill, hrest⟩
      | finished => exact ih (halike.close hupdated)
      | exit => exact ⟨rfl, rfl, hupdated⟩

theorem triggerDue_alike (h : List.Forall₂ (Event.Simulates R) events events') (now : T)
    (cursor : Nat) (active : List Nat) (hs : R s s') :
    let pass := triggerDue now events cursor active s
    let pass' := triggerDue now events' cursor active s'
    pass'.1 = pass.1 ∧ pass'.2.1 = pass.2.1 ∧ pass'.2.2.1 = pass.2.2.1 ∧
      R pass.2.2.2 pass'.2.2.2 := by
  induction h generalizing cursor active s s' with
  | nil => exact ⟨rfl, rfl, rfl, hs⟩
  | @cons e e' _ _ halike _ ih =>
    unfold triggerDue
    rw [halike.time]
    split
    · exact ⟨rfl, rfl, rfl, hs⟩
    · obtain ⟨hanswer, htriggered⟩ := halike.trigger hs
      rcases ht : e.trigger s with ⟨answer, s₁⟩
      rcases ht' : e'.trigger s' with ⟨answer', s₁'⟩
      rw [ht, ht'] at hanswer htriggered
      obtain rfl : answer = answer' := hanswer.symm
      cases answer with
      | ongoing => exact ih (cursor + 1) (active ++ [cursor]) htriggered
      | finished => exact ih (cursor + 1) active htriggered
      | exit => exact ⟨rfl, rfl, rfl, htriggered⟩

end Passes

/-! ## Steps and aborts -/

variable [Builder K S C] [Builder K' S' C]

/-- The playbacks are in the same state, over events and targets that do alike. -/
structure Simulates (R : S → S' → Prop) (p : Playback T S K C) (p' : Playback T S' K' C) :
    Prop where
  events : List.Forall₂ (Event.Simulates R) p.timeline.events p'.timeline.events
  target : ∀ {s s'}, R s s' → Agree R (Target.reach p.target s) (Target.reach p'.target s')
  phase : p'.phase = p.phase
  currentTime : p'.currentTime = p.currentTime
  cursor : p'.cursor = p.cursor
  active : p'.active = p.active

omit [Scalar T] [Builder K' S' C] in
/-- Finishing closes, and goes to the target if there is one. -/
theorem finish_eq_reach (p : Playback T S K C) (phase : PlayPhase) (active : List Nat) (s : S) :
    p.finish phase active s =
      let reached := Target.reach p.target (closeAll p.timeline.events active s)
      (.done reached.1, p.ended phase, reached.2) := by
  unfold finish ended Target.reach
  cases htarget : p.target with
  | none => simp
  | some target => simp

/-- The same outcome, with playbacks and hosts that go on alike. -/
def Alike (R : S → S' → Prop) (x : StepResult C × Playback T S K C × S)
    (y : StepResult C × Playback T S' K' C × S') : Prop :=
  y.1 = x.1 ∧ Simulates R x.2.1 y.2.1 ∧ R x.2.2 y.2.2

namespace Simulates

variable {p : Playback T S K C} {p' : Playback T S' K' C} {s : S} {s' : S'}

theorem size (h : Simulates R p p') : p'.timeline.size = p.timeline.size :=
  h.events.length_eq.symm

theorem put (h : Simulates R p p') (cursor : Nat) (active : List Nat) :
    Simulates R { p with cursor, active } { p' with cursor, active } :=
  { h with cursor := rfl, active := rfl }

theorem keep (h : Simulates R p p') (active : List Nat) :
    Simulates R { p with active } { p' with active } := { h with active := rfl }

theorem atTime (h : Simulates R p p') (now : T) : Simulates R (p.atTime now) (p'.atTime now) :=
  { h with phase := rfl, currentTime := rfl }

theorem aborted (h : Simulates R p p') : Simulates R p.aborted p'.aborted :=
  { h with phase := rfl, cursor := h.size, active := rfl }

theorem ended (h : Simulates R p p') (phase : PlayPhase) :
    Simulates R (p.ended phase) (p'.ended phase) where
  events := h.events
  target hs := ⟨rfl, hs⟩
  phase := rfl
  currentTime := h.currentTime
  cursor := h.size
  active := rfl

theorem finish (h : Simulates R p p') (phase : PlayPhase) (active : List Nat) (hs : R s s') :
    Alike R (p.finish phase active s) (p'.finish phase active s') := by
  obtain ⟨hnext, hreached⟩ := h.target (closeAll_alike h.events active hs)
  rw [finish_eq_reach, finish_eq_reach]
  exact ⟨congrArg StepResult.done hnext, h.ended phase, hreached⟩

theorem advance (h : Simulates R p p') (hs : R s s') : Alike R (p.advance s) (p'.advance s') := by
  have hpass : let pass := triggerDue p.currentTime p.pending p.cursor p.active s
      let pass' := triggerDue p'.currentTime p'.pending p'.cursor p'.active s'
      pass'.1 = pass.1 ∧ pass'.2.1 = pass.2.1 ∧ pass'.2.2.1 = pass.2.2.1 ∧
        R pass.2.2.2 pass'.2.2.2 := by
    unfold pending
    rw [h.currentTime, h.cursor, h.active]
    exact triggerDue_alike (List.forall₂_drop p.cursor h.events) _ _ _ hs
  unfold Playback.advance
  rcases hp : triggerDue p.currentTime p.pending p.cursor p.active s with
    ⟨reached, cursor, active, s₁⟩
  rcases hp' : triggerDue p'.currentTime p'.pending p'.cursor p'.active s' with
    ⟨reached', cursor', active', s₁'⟩
  rw [hp, hp'] at hpass
  obtain ⟨hreached, hcursor, hactive, htriggered⟩ := hpass
  obtain rfl : reached = reached' := hreached.symm
  obtain rfl : cursor = cursor' := hcursor.symm
  obtain rfl : active = active' := hactive.symm
  have hmoved := h.put cursor active
  cases reached with
  | future => exact ⟨rfl, hmoved, htriggered⟩
  | exit => exact hmoved.finish .exited active htriggered
  | all =>
    dsimp only
    split
    · exact hmoved.finish .finished [] htriggered
    · exact ⟨rfl, hmoved, htriggered⟩

theorem isWaiting (h : Simulates R p p') : p'.isWaiting = p.isWaiting := by
  unfold Playback.isWaiting
  rw [h.cursor, h.currentTime, h.active]
  rcases getElem?_forall₂ h.events p.cursor with ⟨he, he'⟩ | ⟨e, e', he, he', halike⟩
  · rw [he, he']
  · rw [he, he']
    dsimp only
    rw [halike.time]

theorem proceed (h : Simulates R p p') (hs : R s s') :
    Alike R (p.proceed s) (p'.proceed s') := by
  have hpass : let pass := updateOngoing p.timeline.events p.currentTime p.active s
      let pass' := updateOngoing p'.timeline.events p'.currentTime p'.active s'
      pass'.1 = pass.1 ∧ pass'.2.1 = pass.2.1 ∧ R pass.2.2 pass'.2.2 := by
    rw [h.currentTime, h.active]
    exact updateOngoing_alike h.events _ _ hs
  unfold Playback.proceed
  rw [h.isWaiting]
  split
  · rcases hp : updateOngoing p.timeline.events p.currentTime p.active s with ⟨exited, still, s₁⟩
    rcases hp' : updateOngoing p'.timeline.events p'.currentTime p'.active s' with
      ⟨exited', still', s₁'⟩
    rw [hp, hp'] at hpass
    obtain ⟨hexited, hstill, hupdated⟩ := hpass
    obtain rfl : exited = exited' := hexited.symm
    obtain rfl : still = still' := hstill.symm
    cases exited with
    | true => exact h.finish .exited still hupdated
    | false => exact (h.keep still).advance hupdated
  · exact h.advance hs

/-- Aborts are alike. -/
theorem abort (h : Simulates R p p') (hs : R s s') :
    Simulates R (p.abort s).1 (p'.abort s').1 ∧ R (p.abort s).2 (p'.abort s').2 := by
  unfold Playback.abort
  rw [h.phase, h.active]
  split
  · exact ⟨h, hs⟩
  · exact ⟨h.aborted, closeAll_alike h.events p.active hs⟩

variable [Host S T] [Host S' T]

/-- If related hosts tell the same delta, steps are alike. -/
theorem step (h : Simulates R p p') (hdelta : ∀ {s s'}, R s s' →
    Host.deltaTime s' = Host.deltaTime s) (hs : R s s') : Alike R (p.step s) (p'.step s') := by
  by_cases hover : p.phase.isTerminal = true
  · rw [step_of_isTerminal hover, step_of_isTerminal (p := p') (by rw [h.phase, hover])]
    exact ⟨rfl, h, hs⟩
  · have hrun : p.phase.isTerminal = false := by simpa using hover
    rw [step_eq_proceed hrun, step_eq_proceed (p := p') (by rw [h.phase, hrun]), h.currentTime,
      hdelta hs]
    exact (h.atTime _).proceed hs

/-- Runs are alike. -/
theorem play (hdelta : ∀ {s s'}, R s s' → Host.deltaTime s' = Host.deltaTime s)
    {moves : List (Move S)} {moves' : List (Move S')}
    (hmoves : List.Forall₂ (Move.Simulates R) moves moves') (h : Simulates R p p')
    (hs : R s s') :
    let played := Playback.play moves p s
    let played' := Playback.play moves' p' s'
    Simulates R played.1 played'.1 ∧ R played.2 played'.2 := by
  induction hmoves generalizing p p' s s' with
  | nil => exact ⟨h, hs⟩
  | cons hmove _ ih =>
    cases hmove with
    | step =>
      obtain ⟨-, hnext, hs⟩ := h.step hdelta hs
      exact ih hnext hs
    | abort =>
      obtain ⟨hnext, hs⟩ := h.abort hs
      exact ih hnext hs
    | outside hf => exact ih h (hf hs)

end Simulates

end Playback

end Cueflow
