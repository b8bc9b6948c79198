import Cueflow.World.Basic
import Cueflow.Proofs.Number.BinaryClock
import Cueflow.Proofs.Schedule.Punctuality
/-!
# Completion

An event whose updates ask nothing but the clock cannot outlast its duration, and a timeline made
of such events cannot either.

> `done_after_all_durations`: a playback that still runs although every event is past its duration
> ends with the next step. Once nothing is scheduled, a step leaves no event ongoing that is past
> its duration.

One more step is enough because of what a step that leaves the playback running has seen: the next
event lies ahead (`Ahead`). If every event has started, none is scheduled, and the next step
updates. The pass over the ongoing events then keeps those whose time is not up
(`updateOngoing_timed`), and time that has passed stays passed.
-/

namespace Cueflow

variable {T H K C : Type} [Scalar T]

/-- The updates of an author's event answer by the clock alone. The other actions do so anyway. -/
def EventAction.Timed : EventAction T H → Prop
  | .custom event => ∀ elapsed duration h,
      (event.update elapsed duration h).1 = .until elapsed duration
  | .call _ | .span _ | .exitState => True

/-- An event that only reacts to its trigger answers by the clock. -/
theorem EventAction.timed_ofTrigger (trigger : H → EventStatus × H) :
    (EventAction.custom (.ofTrigger trigger) : EventAction T H).Timed := fun _ _ _ => rfl

theorem EventAction.Timed.update {action : EventAction T H} (haction : action.Timed)
    (elapsed duration : T) (h : H) :
    (action.update elapsed duration h).1 = .finished ∨
      (action.update elapsed duration h).1 = .until elapsed duration := by
  cases action with
  | call f => exact Or.inl rfl
  | span f => exact Or.inr rfl
  | exitState => exact Or.inl rfl
  | custom event => exact Or.inr (haction elapsed duration h)

namespace Playback

/-! ## A step with nothing scheduled -/

/-- An event that is still ongoing after an update is not past its duration. -/
theorem updateOngoing_timed {events : List (Event T H)} (hevents : ∀ e ∈ events, e.action.Timed)
    (now : T) (active : List Nat) (h : H) :
    (updateOngoing events now active h).1 = false ∧
      ∀ i ∈ (updateOngoing events now active h).2.1,
        ∃ e, events[i]? = some e ∧ ¬ e.duration ≤ now - e.time := by
  induction active generalizing h with
  | nil => exact ⟨rfl, List.forall_mem_nil _⟩
  | cons i rest ih =>
    unfold updateOngoing
    split
    · exact ih h
    next e he =>
      have hanswer : (e.update now h).1 = .finished ∨
          (e.update now h).1 = .until (now - e.time) e.duration :=
        (hevents e (List.mem_of_getElem? he)).update (now - e.time) e.duration h
      split
      next h' hongoing =>
        -- the time is not up, or the answer would be another
        have hshort : ¬ e.duration ≤ now - e.time := by
          rw [← EventStatus.until_eq_finished_iff]
          rcases hanswer with hanswer | hanswer
          · rw [hongoing] at hanswer
            cases hanswer
          · rw [← hanswer, hongoing]
            exact EventStatus.noConfusion
        obtain ⟨hexited, hstill⟩ := ih h'
        refine ⟨hexited, fun j hj => ?_⟩
        rcases List.mem_cons.1 hj with rfl | hj
        · exact ⟨e, he, hshort⟩
        · exact hstill j hj
      next h' _ => exact ih (e.close h')
      next h' hexit =>
        rw [hexit] at hanswer
        rcases hanswer with hanswer | hanswer
        · cases hanswer
        · exact absurd hanswer.symm (EventStatus.until_ne_exit _ _)

variable [Builder K H C]

/-- With nothing scheduled, triggering ends the playback, or leaves it to what is ongoing. -/
theorem advance_of_pending_eq_nil {p : Playback T H K C} (hpending : p.pending = []) (h : H) :
    (p.advance h).2.1.currentTime = p.currentTime ∧
      (∀ i ∈ (p.advance h).2.1.active, i ∈ p.active) ∧
      ((p.advance h).2.1.active = [] → (p.advance h).1.isDone = true) := by
  unfold advance
  rw [hpending, triggerDue]
  dsimp only
  by_cases hempty : p.active.isEmpty = true
  · rw [if_pos hempty]
    obtain ⟨hdone, hended⟩ := finish_eq_ended p .finished [] h
    rw [hended]
    exact ⟨rfl, List.forall_mem_nil _, fun _ => hdone⟩
  · rw [if_neg hempty]
    exact ⟨rfl, fun i hi => hi, fun hnil => absurd (List.isEmpty_iff.2 hnil) hempty⟩

/-- With nothing scheduled, the rest of a step keeps no event that is past its duration, and if
it keeps none, the playback is over. -/
theorem proceed_of_pending_eq_nil {p : Playback T H K C}
    (hevents : ∀ e ∈ p.timeline.events, e.action.Timed) (hpending : p.pending = []) (h : H) :
    (p.proceed h).2.1.currentTime = p.currentTime ∧
      (∀ i ∈ (p.proceed h).2.1.active,
        ∃ e, p.timeline.events[i]? = some e ∧ ¬ e.duration ≤ p.currentTime - e.time) ∧
      ((p.proceed h).2.1.active = [] → (p.proceed h).1.isDone = true) := by
  unfold proceed
  by_cases hwait : p.isWaiting = true
  · rw [if_pos hwait]
    obtain ⟨hexited, hstill⟩ := updateOngoing_timed hevents p.currentTime p.active h
    rcases hupdate : updateOngoing p.timeline.events p.currentTime p.active h with
      ⟨exited, still, h'⟩
    rw [hupdate] at hexited hstill
    obtain rfl : exited = false := hexited
    obtain ⟨hclock, hactive, hdone⟩ :=
      advance_of_pending_eq_nil (p := { p with active := still }) hpending h'
    exact ⟨hclock, fun i hi => hstill i (hactive i hi), hdone⟩
  · rw [if_neg hwait]
    -- with nothing scheduled, only a playback without ongoing events does not wait
    have hnone : p.timeline.events[p.cursor]? = none := by
      rw [List.getElem?_eq_none_iff]
      exact List.drop_eq_nil_iff.1 hpending
    have hnil : p.active = [] := by simpa [isWaiting, hnone] using hwait
    obtain ⟨hclock, hactive, hdone⟩ := advance_of_pending_eq_nil hpending h
    refine ⟨hclock, fun i hi => ?_, hdone⟩
    have hmem := hactive i hi
    rw [hnil] at hmem
    cases hmem

/-! ## Along a run -/

omit [Builder K H C]

/-- A punctual playback that runs has its next event ahead. -/
structure Ahead (t : Timeline T H) (p : Playback T H K C) (calls : List (Call T)) : Prop
    extends Punctual t p calls where
  next : p.phase = .running → ∀ e, t.events[p.cursor]? = some e → p.currentTime < e.time

namespace Ahead

variable [ClockLaws T] {t : Timeline T H} {p p' : Playback T H K C} {calls log : List (Call T)}
  {ends : Bool} {d : T}

theorem opening (t : Timeline T H) (target : Option (Target K C)) :
    Ahead t (opening t target) [] where
  toPunctual := .opening t target
  next hrun := nomatch hrun

theorem stepped (ht : t.Ordered) (h : Ahead t p calls) (hp : p.Sound)
    (hrun : p.phase.isTerminal = false) (hd : 0 ≤ d)
    (hstep : Stepped (p.atTime (p.currentTime + d)) log ends p') : Ahead t p' (calls ++ log) := by
  have hpunctual := h.toPunctual.stepped ht hp hrun hd hstep
  obtain ⟨n, hreach⟩ := hstep.reach
  refine ⟨hpunctual, fun hrun' => ?_⟩
  rw [← hpunctual.timeline]
  exact (hreach.running (by rw [hrun']; rfl)).2

omit [ClockLaws T] in
theorem aborted (h : Ahead t p calls) : Ahead t p.aborted (calls ++ closes p.active) where
  toPunctual := h.toPunctual.aborted
  next hrun := nomatch hrun

/-- If every event has started, none is scheduled. -/
theorem pending_eq_nil (h : Ahead t p calls) (hrun : p.phase = .running)
    (hstarted : ∀ e ∈ t.events, e.time ≤ p.currentTime) : p.pending = [] := by
  unfold pending
  rw [h.timeline, List.drop_eq_nil_iff, ← List.getElem?_eq_none_iff,
    Option.eq_none_iff_forall_ne_some]
  intro e he
  exact ClockLaws.not_le_of_lt (h.next hrun e he) (hstarted e (List.mem_of_getElem? he))

end Ahead

/-- Along every run of an accepted timeline of events that answer by the clock, in steps of lengths
that are not below 0: if the playback still runs although every event has started and is past its
duration, the next such step ends it. If it runs and nothing is scheduled, the next step leaves no
event ongoing that is past its duration. -/
theorem done_after_all_durations [SpanLaws T] [Host H T] [Builder K H C] {name : String}
    {events : List (Event T H)} {t : Timeline T H}
    (ht : Timeline.ofEvents name events = .ok t) (hevents : ∀ e ∈ events, e.action.Timed)
    (target : Option (Target K C)) (moves : List (Move H)) (h : H)
    (hpaced : Paced (fun d => 0 ≤ d) moves (opening t target) h)
    (hdelta : 0 ≤ Host.deltaTime (play moves (opening t target) h).2)
    (hrun : (play moves (opening t target) h).1.phase = .running) :
    let played := play moves (opening t target) h
    let now := played.1.currentTime
    let next := played.1.step played.2
    ((∀ e ∈ events, e.time ≤ now ∧ e.duration ≤ now - e.time) → next.1.isDone = true) ∧
    (played.1.pendingCount = 0 → ∀ i ∈ next.2.1.active, ∃ e, events[i]? = some e ∧
      ¬ e.duration ≤ next.2.1.currentTime - e.time) := by
  intro played now next
  have hevent : t.events = events := by rw [Timeline.eq_of_ofEvents ht]
  have hfinite := Timeline.isFinite_of_ofEvents ht
  rw [hevent] at hfinite
  have hordered := Timeline.ordered_of_ofEvents ht
  obtain ⟨calls, -, -, hahead⟩ := play_recorded (id : Call T → Call T)
    (D := fun d => 0 ≤ d) (I := Ahead t)
    (fun hp hrun h hd hstep => h.stepped hordered hp hrun hd hstep) (fun _ _ h => h.aborted) moves
    (sound_opening t target) (Ahead.opening t target) (⟨h, []⟩ : Journaled (Call T) H) hpaced
  have hahead : Ahead t played.1 ([] ++ calls) := hahead
  have hplayed : played.1.timeline.events = events := by rw [hahead.timeline, hevent]
  -- with nothing scheduled, all that the next step does is to update
  have hexhausted : played.1.pending = [] → (∀ i ∈ next.2.1.active, ∃ e, events[i]? = some e ∧
      ¬ e.duration ≤ (now + Host.deltaTime played.2) - e.time) ∧
      next.2.1.currentTime = now + Host.deltaTime played.2 ∧
      (next.2.1.active = [] → next.1.isDone = true) := by
    intro hpending
    have hnext : next = (played.1.atTime (now + Host.deltaTime played.2)).proceed played.2 :=
      step_eq_proceed (by rw [hrun]; rfl) _
    rw [hnext]
    obtain ⟨hclock, hactive, hdone⟩ := proceed_of_pending_eq_nil
      (p := played.1.atTime (now + Host.deltaTime played.2))
      (fun e he => hevents e (hplayed ▸ he)) hpending played.2
    exact ⟨fun i hi => hplayed ▸ hactive i hi, hclock, hdone⟩
  refine ⟨fun hpast => ?_, fun hcount => ?_⟩
  · have hpending : played.1.pending = [] :=
      hahead.pending_eq_nil hrun fun e he => (hpast e (hevent ▸ he)).1
    obtain ⟨hactive, -, hdone⟩ := hexhausted hpending
    refine hdone (List.eq_nil_iff_forall_not_mem.2 fun i hi => ?_)
    obtain ⟨e, he, hshort⟩ := hactive i hi
    have hmem := List.mem_of_getElem? he
    obtain ⟨hstarted, hlong⟩ := hpast e hmem
    have hlater : now ≤ now + Host.deltaTime played.2 := ClockLaws.le_add hahead.clock hdelta
    exact hshort (ClockLaws.le_trans hlong
      (SpanLaws.sub_le_sub (hfinite e hmem).1 hstarted hlater))
  · have hpending : played.1.pending = [] := by
      unfold pending
      rw [List.drop_eq_nil_iff]
      exact Nat.sub_eq_zero_iff_le.1 hcount
    obtain ⟨hactive, hclock, -⟩ := hexhausted hpending
    rw [hclock]
    exact hactive

/-- A tick of two seconds triggers a call, a span of one second and an author's event of half a
second, which are all past their durations then. The next tick ends the playback, even if no time
passes in it. -/
theorem done_after_all_durations_at_two :
    let w := (World.ofSeed none).beginTick 2
    let events : List (Event Float32 World) :=
      [.call 0 id, .span 0 1 fun _ w => w, .custom 1 0.5 (.ofTrigger fun w => (.ongoing, w))]
    let p : Playback Float32 World Empty Unit := opening ⟨"watch", events⟩ none
    let moves : List (Move World) := [.step, .outside (·.beginTick 0)]
    let played := play moves p w
    Timeline.ofEvents "watch" events = .ok ⟨"watch", events⟩ ∧
    (∀ e ∈ events, e.action.Timed) ∧ Paced (fun d => 0 ≤ d) moves p w ∧
    (0 : Float32) ≤ Host.deltaTime played.2 ∧ played.1.phase = .running ∧
    played.1.active = [1, 2] ∧ (played.1.step played.2).1.isDone = true := by
  intro w events p moves played
  have ht : Timeline.ofEvents "watch" events = .ok ⟨"watch", events⟩ := by rfl
  have hevents : ∀ e ∈ events, e.action.Timed := by
    simp only [events, List.forall_mem_cons]
    exact ⟨trivial, trivial, EventAction.timed_ofTrigger _, fun e he => nomatch he⟩
  have hpaced : Paced (fun d => 0 ≤ d) moves p w := ⟨by decide, trivial⟩
  have hdelta : (0 : Float32) ≤ Host.deltaTime played.2 := by decide
  have hrun : played.1.phase = .running := by decide
  refine ⟨ht, hevents, hpaced, hdelta, hrun, by decide, ?_⟩
  exact (done_after_all_durations ht hevents none moves w hpaced hdelta hrun).1 (by decide)

end Playback

end Cueflow
