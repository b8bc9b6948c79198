import Cueflow.Proofs.Number.Clock
import Cueflow.Proofs.Schedule.Recording
/-!
# Where a playback stands

One step of a playback whose events are known, by the place that it has come to: the next
event lies ahead (`ahead`), or it is due and the run through the events stops somewhere
(`due_suspend`, `due_done`), or every event has been triggered and some are ongoing (`played`).
Each of these takes what the passes do as a hypothesis and says where the playback stands then.
What the passes do follows event by event (`triggerDue_call` and its siblings,
`updateOngoing_span`).

The clock of such a playback has not gone below 0, and no step takes it there.
-/

namespace Cueflow.Playback

variable {T H K C : Type} [Scalar T]

/-! ## One event that is reached -/

section Reached

variable {now : T} {e : Event T H} (hdue : ¬ now < e.time) {rest : List (Event T H)}
  {cursor : Nat} {active : List Nat} {h : H}

theorem triggerDue_ahead (hlt : now < e.time) :
    triggerDue now (e :: rest) cursor active h = (.future, cursor, active, h) :=
  if_pos hlt

include hdue

theorem triggerDue_call {f : H → H} (hf : e.action = .call f) :
    triggerDue now (e :: rest) cursor active h =
      triggerDue now rest (cursor + 1) active (f h) := by
  rw [triggerDue, if_neg hdue, Event.trigger, hf]
  rfl

theorem triggerDue_span {f : T → H → H} (hf : e.action = .span f) :
    triggerDue now (e :: rest) cursor active h =
      triggerDue now rest (cursor + 1) (active ++ [cursor]) (f 0 h) := by
  rw [triggerDue, if_neg hdue, Event.trigger, hf]
  rfl

theorem triggerDue_exitState (he : e.action = .exitState) :
    triggerDue now (e :: rest) cursor active h = (.exit, cursor, active, h) := by
  rw [triggerDue, if_neg hdue, Event.trigger, he]
  rfl

end Reached

/-! ## Where a playback stands -/

/-- The playback of these events has not ended and will hand over `next`; the event at
`cursor` comes next, and those in `active` are ongoing. -/
structure Standing (events : List (Event T H)) (next : Option C) (cursor : Nat)
    (active : List Nat) (p : Playback T H K C) : Prop where
  events_eq : p.timeline.events = events
  target_eq : p.target = next.map Target.goto
  running : p.phase.isTerminal = false
  nonneg : 0 ≤ p.currentTime
  cursor_eq : p.cursor = cursor
  active_eq : p.active = active

/-- The time that a step takes the playback to. -/
def timeAfter [Host H T] (p : Playback T H K C) (h : H) : T := p.currentTime + Host.deltaTime h

namespace Standing

variable {events : List (Event T H)} {next : Option C} {cursor : Nat} {active still : List Nat}
  {p : Playback T H K C} {e : Event T H} {w w' : H} {reached : Reached} {cursor' : Nat}
  {active' : List Nat}

theorem ofTimeline [ClockLaws T] (t : Timeline T H) :
    Standing t.events (none : Option C) 0 [] (.ofTimeline t : Playback T H K C) :=
  ⟨rfl, rfl, rfl, ClockLaws.zero_le_zero, rfl, rfl⟩

theorem andThen (h : Standing events (none : Option C) cursor active p) (c : C) :
    Standing events (some c) cursor active (p.andThen (.goto c)) :=
  ⟨h.events_eq, rfl, h.running, h.nonneg, h.cursor_eq, h.active_eq⟩

theorem move (h : Standing events next cursor active p) (cursor' : Nat) (active' : List Nat) :
    Standing events next cursor' active' { p with cursor := cursor', active := active' } :=
  ⟨h.events_eq, h.target_eq, h.running, h.nonneg, rfl, rfl⟩

theorem isWaiting_iff (h : Standing events next cursor active p)
    (he : events[cursor]? = some e) : p.isWaiting = true ↔ p.currentTime < e.time := by
  unfold isWaiting
  rw [h.events_eq, h.cursor_eq, he]
  exact decide_eq_true_iff

theorem isWaiting_of_played (h : Standing events next cursor active p)
    (he : events[cursor]? = none) (hactive : active ≠ []) : p.isWaiting = true := by
  unfold isWaiting
  rw [h.events_eq, h.cursor_eq, he, h.active_eq]
  simpa using hactive

/-- Ending hands over what was prepared and closes what is ongoing. -/
theorem finish_eq [Builder K H C] (h : Standing events next cursor active p) (phase : PlayPhase)
    (active' : List Nat) (w : H) :
    ∃ p', p.finish phase active' w = (.done next, p', closeAll events active' w) := by
  unfold finish
  dsimp only
  rw [h.target_eq, h.events_eq]
  cases next <;> exact ⟨_, rfl⟩

/-- A run through the scheduled events that leaves the playback going. -/
theorem advance_suspend [Builder K H C] (h : Standing events next cursor active p)
    (htrigger : triggerDue p.currentTime (events.drop cursor) cursor active w =
      (reached, cursor', active', w'))
    (hreached : reached = .future ∨ reached = .all ∧ active' ≠ []) :
    p.advance w = (.suspend, { p with cursor := cursor', active := active' }, w') := by
  unfold advance pending
  rw [h.events_eq, h.cursor_eq, h.active_eq, htrigger]
  rcases hreached with rfl | ⟨rfl, hactive⟩
  · rfl
  · exact if_neg (by simpa using hactive)

/-- A run through the scheduled events that ends the playback. -/
theorem advance_done [Builder K H C] (h : Standing events next cursor active p)
    (htrigger : triggerDue p.currentTime (events.drop cursor) cursor active w =
      (reached, cursor', active', w'))
    (hreached : reached = .exit ∨ reached = .all ∧ active' = []) :
    ∃ p', p.advance w = (.done next, p', closeAll events active' w') := by
  unfold advance pending
  rw [h.events_eq, h.cursor_eq, h.active_eq, htrigger]
  rcases hreached with rfl | ⟨rfl, rfl⟩
  · exact (h.move cursor' active').finish_eq .exited active' w'
  · exact (h.move cursor' []).finish_eq .finished [] w'

/-! ## Steps -/

variable [Host H T]

section Clock

variable [ClockLaws T]

theorem timeAfter_nonneg (h : Standing events next cursor active p)
    (hd : 0 ≤ Host.deltaTime w) : 0 ≤ p.timeAfter w :=
  ClockLaws.zero_le_add h.nonneg hd

theorem atTime (h : Standing events next cursor active p) (hd : 0 ≤ Host.deltaTime w) :
    Standing events next cursor active (p.atTime (p.timeAfter w)) :=
  ⟨h.events_eq, h.target_eq, rfl, h.timeAfter_nonneg hd, h.cursor_eq, h.active_eq⟩

end Clock

variable [Builder K H C]

/-- A step that finds nothing due updates what is ongoing. -/
theorem step_of_waiting (h : Standing events next cursor active p)
    (hwaiting : (p.atTime (p.timeAfter w)).isWaiting = true)
    (hupdate : updateOngoing events (p.timeAfter w) active w = (false, still, w')) :
    p.step w =
      { p.atTime (p.timeAfter w) with cursor := cursor, active := still }.advance w' := by
  have hupdate : updateOngoing (p.atTime (p.timeAfter w)).timeline.events
      (p.atTime (p.timeAfter w)).currentTime (p.atTime (p.timeAfter w)).active w =
      (false, still, w') := by
    rw [← hupdate, ← h.events_eq, ← h.active_eq]
    rfl
  rw [step_eq_proceed h.running, ← h.cursor_eq]
  show (p.atTime (p.timeAfter w)).proceed w = _
  unfold proceed
  rw [if_pos hwaiting, hupdate]
  rfl

/-- A step that finds something due does not update. -/
theorem step_of_due (h : Standing events next cursor active p)
    (hwaiting : ¬ (p.atTime (p.timeAfter w)).isWaiting = true) :
    p.step w = (p.atTime (p.timeAfter w)).advance w := by
  rw [step_eq_proceed h.running]
  show (p.atTime (p.timeAfter w)).proceed w = _
  unfold proceed
  rw [if_neg hwaiting]

variable [ClockLaws T]

/-- As long as the next event lies ahead, the ongoing ones are updated. -/
theorem ahead (h : Standing events next cursor active p) (hd : 0 ≤ Host.deltaTime w)
    (he : events[cursor]? = some e) (hlt : p.timeAfter w < e.time)
    (hupdate : updateOngoing events (p.timeAfter w) active w = (false, still, w')) :
    ∃ p', p.step w = (.suspend, p', w') ∧ Standing events next cursor still p' := by
  have hat := h.atTime hd
  have hstill := hat.move cursor still
  obtain ⟨hi, rfl⟩ := List.getElem?_eq_some_iff.1 he
  have htrigger : triggerDue (p.timeAfter w) (events.drop cursor) cursor still w' =
      (.future, cursor, still, w') := by
    rw [List.drop_eq_getElem_cons hi]
    exact triggerDue_ahead hlt
  rw [h.step_of_waiting ((hat.isWaiting_iff he).2 hlt) hupdate,
    hstill.advance_suspend htrigger (Or.inl rfl)]
  exact ⟨_, rfl, hstill.move cursor still⟩

/-- Once every event has been triggered, the ongoing ones are updated until none is left. -/
theorem played (h : Standing events next cursor active p) (hd : 0 ≤ Host.deltaTime w)
    (he : events.drop cursor = []) (hactive : active ≠ [])
    (hupdate : updateOngoing events (p.timeAfter w) active w = (false, still, w')) :
    ∃ p', still ≠ [] ∧ p.step w = (.suspend, p', w') ∧ Standing events next cursor still p' ∨
      still = [] ∧ p.step w = (.done next, p', w') := by
  have hat := h.atTime hd
  have hstill := hat.move cursor still
  have htrigger : triggerDue (p.timeAfter w) (events.drop cursor) cursor still w' =
      (.all, cursor, still, w') := by
    rw [he]
    rfl
  have hnone : events[cursor]? = none := List.getElem?_eq_none (List.drop_eq_nil_iff.1 he)
  rw [h.step_of_waiting (hat.isWaiting_of_played hnone hactive) hupdate]
  by_cases hempty : still = []
  · obtain ⟨p', hdone⟩ := hstill.advance_done htrigger (Or.inr ⟨rfl, hempty⟩)
    refine ⟨p', Or.inr ⟨hempty, ?_⟩⟩
    rw [hdone, hempty]
    rfl
  · rw [hstill.advance_suspend htrigger (Or.inr ⟨rfl, hempty⟩)]
    exact ⟨_, Or.inl ⟨hempty, rfl, hstill.move cursor still⟩⟩

/-- An event that is due is triggered, with those after it that are due as well. -/
theorem due_suspend (h : Standing events next cursor active p) (hd : 0 ≤ Host.deltaTime w)
    (he : events[cursor]? = some e) (hdue : ¬ p.timeAfter w < e.time)
    (htrigger : triggerDue (p.timeAfter w) (events.drop cursor) cursor active w =
      (reached, cursor', active', w'))
    (hreached : reached = .future ∨ reached = .all ∧ active' ≠ []) :
    ∃ p', p.step w = (.suspend, p', w') ∧ Standing events next cursor' active' p' := by
  have hat := h.atTime hd
  rw [h.step_of_due (mt (hat.isWaiting_iff he).1 hdue), hat.advance_suspend htrigger hreached]
  exact ⟨_, rfl, hat.move cursor' active'⟩

/-- If an exit is among them, or nothing is left, that is the end. -/
theorem due_done (h : Standing events next cursor active p) (hd : 0 ≤ Host.deltaTime w)
    (he : events[cursor]? = some e) (hdue : ¬ p.timeAfter w < e.time)
    (htrigger : triggerDue (p.timeAfter w) (events.drop cursor) cursor active w =
      (reached, cursor', active', w'))
    (hreached : reached = .exit ∨ reached = .all ∧ active' = []) :
    ∃ p', p.step w = (.done next, p', closeAll events active' w') := by
  have hat := h.atTime hd
  rw [h.step_of_due (mt (hat.isWaiting_iff he).1 hdue)]
  exact hat.advance_done htrigger hreached

end Standing

/-! ## A single span -/

section Span

variable {events : List (Event T H)} {i : Nat} {e : Event T H} {f : T → H → H}

/-- A span that is updated alone is driven with its progress, until its time is up. -/
theorem updateOngoing_span (he : events[i]? = some e) (hf : e.action = .span f) (now : T) (h : H) :
    ∃ still, updateOngoing events now [i] h =
        (false, still, f (EventAction.progress (now - e.time) e.duration) h) ∧
      (e.duration ≤ now - e.time ∧ still = [] ∨ ¬ e.duration ≤ now - e.time ∧ still = [i]) := by
  obtain ⟨label, time, duration, action⟩ := e
  obtain rfl : action = .span f := hf
  by_cases hup : duration ≤ now - time
  · refine ⟨[], ?_, Or.inl ⟨hup, rfl⟩⟩
    simp [updateOngoing, he, Event.update, EventAction.update, EventStatus.until, hup, Event.close,
      EventAction.close]
  · refine ⟨[i], ?_, Or.inr ⟨hup, rfl⟩⟩
    simp [updateOngoing, he, Event.update, EventAction.update, EventStatus.until, hup]

omit [Scalar T] in
theorem closeAll_span (he : events[i]? = some e) (hf : e.action = .span f) (h : H) :
    closeAll events [i] h = h := by
  simp [closeAll, he, Event.close, hf, EventAction.close]

end Span

end Cueflow.Playback
