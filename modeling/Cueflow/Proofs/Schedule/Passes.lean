import Cueflow.Schedule.Playback
import Cueflow.Proofs.Journal
/-!
# Recorded events, and what the passes over them note

`Event.recorded` lifts an event to a host with a journal: it notes its triggers, its updates
with their elapsed time and answer, and its closing, each under its index in the timeline.
A step of a playback goes over events in two passes, and over the ongoing ones once more when
it closes them. For each of these this file has a relation that says what may be noted, with
the host left out (a callback may answer anything), and the proof that the recorded pass is
the plain one with such a log.

* `UpdatePass` for `updateOngoing`: an update each, in the order of the list, and a closing
  right after an update that reports the end.
* `TriggerPass` for `triggerDue`: a trigger each, up to the first event that is not due or
  that asks to exit.
* `closes` for `closeAll`.

The relations follow the recursion of the passes, so what they keep is proved by induction
on them; `TriggerPass.active_eq` and `UpdatePass.sublist` are the facts about indices.
-/

namespace Cueflow

variable {T H K C E : Type}

/-! ## Lifting events, timelines and playbacks -/

/-- The event on a host with a journal. -/
def Event.recorded (mark : EventCall T → E) [Scalar T] (e : Event T H) :
    Event T (Journaled E H) where
  label := e.label
  time := e.time
  duration := e.duration
  action := .custom {
    trigger := fun s =>
      let (answer, s) := s.ask e.action.trigger
      (answer, s.note [mark (.trigger answer)])
    update := fun elapsed duration s =>
      let (answer, s) := s.ask (e.action.update elapsed duration)
      (answer, s.note [mark (.update elapsed answer)])
    close := fun s => (s.act e.action.close).note [mark .close] }

variable [Scalar T]

theorem Event.trigger_recorded (mark : EventCall T → E) (e : Event T H)
    (s : Journaled E H) :
    (e.recorded mark).trigger s =
      ((e.trigger s.host).1,
        ⟨(e.trigger s.host).2, s.journal ++ [mark (.trigger (e.trigger s.host).1)]⟩) := rfl

theorem Event.update_recorded (mark : EventCall T → E) (e : Event T H) (now : T)
    (s : Journaled E H) :
    (e.recorded mark).update now s =
      ((e.update now s.host).1,
        ⟨(e.update now s.host).2,
          s.journal ++ [mark (.update (now - e.time) (e.update now s.host).1)]⟩) := rfl

theorem Event.close_recorded (mark : EventCall T → E) (e : Event T H)
    (s : Journaled E H) :
    (e.recorded mark).close s = ⟨e.close s.host, s.journal ++ [mark .close]⟩ := rfl

/-- The events from place `n` on, each noting calls under its index. -/
def recordEvents (mark : Call T → E) (n : Nat) (events : List (Event T H)) :
    List (Event T (Journaled E H)) :=
  (events.zipIdx n).map fun x => x.1.recorded fun call => mark (.event x.2 call)

theorem recordEvents_cons (mark : Call T → E) (n : Nat) (e : Event T H)
    (rest : List (Event T H)) :
    recordEvents mark n (e :: rest) =
      e.recorded (fun call => mark (.event n call)) :: recordEvents mark (n + 1) rest := rfl

theorem getElem?_recordEvents (mark : Call T → E) (events : List (Event T H)) (i : Nat) :
    (recordEvents mark 0 events)[i]? =
      events[i]?.map fun e => e.recorded fun call => mark (.event i call) := by
  simp only [recordEvents, List.getElem?_map, List.getElem?_zipIdx, Option.map_map,
    Nat.zero_add]
  rfl

/-- What is left of recorded events is what is left, recorded. -/
theorem drop_recordEvents (mark : Call T → E) (k n : Nat) (events : List (Event T H)) :
    (recordEvents mark n events).drop k = recordEvents mark (n + k) (events.drop k) := by
  induction k generalizing n events with
  | zero => rfl
  | succ k ih =>
    cases events with
    | nil => rfl
    | cons e rest =>
      rw [recordEvents_cons, List.drop_succ_cons, List.drop_succ_cons, ih (n + 1) rest,
        Nat.add_right_comm, Nat.add_assoc]

/-- The timeline on a host with a journal. -/
def Timeline.recorded (mark : Call T → E) (t : Timeline T H) : Timeline T (Journaled E H) :=
  ⟨t.name, recordEvents mark 0 t.events⟩

theorem Timeline.size_recorded (mark : Call T → E) (t : Timeline T H) :
    (t.recorded mark).size = t.size := by
  simp [Timeline.recorded, Timeline.size, recordEvents]

namespace Playback

/-- The playback on a host with a journal. -/
def recorded (mark : Call T → E) (p : Playback T H K C) :
    Playback T (Journaled E H) (Noted E K) C where
  timeline := p.timeline.recorded mark
  target := p.target.map (Target.recorded (mark .resolve))
  phase := p.phase
  currentTime := p.currentTime
  cursor := p.cursor
  active := p.active

@[simp] theorem phase_recorded (mark : Call T → E) (p : Playback T H K C) :
    (p.recorded mark).phase = p.phase := rfl

theorem pending_recorded (mark : Call T → E) (p : Playback T H K C) :
    (p.recorded mark).pending = recordEvents mark p.cursor p.pending := by
  show (recordEvents mark 0 p.timeline.events).drop p.cursor = _
  rw [drop_recordEvents, Nat.zero_add]
  rfl

theorem isWaiting_recorded (mark : Call T → E) (p : Playback T H K C) :
    (p.recorded mark).isWaiting = p.isWaiting := by
  have hnext : (p.recorded mark).timeline.events[(p.recorded mark).cursor]? =
      p.timeline.events[p.cursor]?.map fun e => e.recorded fun call =>
        mark (.event p.cursor call) := getElem?_recordEvents mark _ _
  unfold isWaiting
  rw [hnext]
  cases p.timeline.events[p.cursor]? <;> rfl

/-! ## The passes, and what they note -/

/-- A pass over the ongoing events notes an update of each in turn, and the closing of an
event right after the update that reported it as over. An update that asks to exit is the
last thing noted, and leaves the event and those after it ongoing. -/
inductive UpdatePass (events : List (Event T H)) (now : T) :
    (active : List Nat) → (log : List (Call T)) → (exited : Bool) → (still : List Nat) →
    Prop where
  | nil : UpdatePass events now [] [] false []
  | ongoing {i : Nat} {e : Event T H} {rest log exited still} :
      events[i]? = some e → UpdatePass events now rest log exited still →
      UpdatePass events now (i :: rest)
        (.event i (.update (now - e.time) .ongoing) :: log) exited (i :: still)
  | finished {i : Nat} {e : Event T H} {rest log exited still} :
      events[i]? = some e → UpdatePass events now rest log exited still →
      UpdatePass events now (i :: rest)
        (.event i (.update (now - e.time) .finished) :: .event i .close :: log) exited still
  | exit {i : Nat} {e : Event T H} {rest} :
      events[i]? = some e →
      UpdatePass events now (i :: rest)
        [.event i (.update (now - e.time) .exit)] true (i :: rest)

/-- A run through the scheduled events notes a trigger of each event that is due, up to the
first that is not, or that asks to exit. -/
inductive TriggerPass (now : T) :
    (pending : List (Event T H)) → (cursor : Nat) → (active : List Nat) →
    (log : List (Call T)) → (reached : Reached) → (cursor' : Nat) → (active' : List Nat) →
    Prop where
  | all {cursor active} : TriggerPass now [] cursor active [] .all cursor active
  | future {e : Event T H} {rest cursor active} : now < e.time →
      TriggerPass now (e :: rest) cursor active [] .future cursor active
  | finished {e : Event T H} {rest cursor active log reached cursor' active'} :
      ¬ now < e.time →
      TriggerPass now rest (cursor + 1) active log reached cursor' active' →
      TriggerPass now (e :: rest) cursor active
        (.event cursor (.trigger .finished) :: log) reached cursor' active'
  | ongoing {e : Event T H} {rest cursor active log reached cursor' active'} :
      ¬ now < e.time →
      TriggerPass now rest (cursor + 1) (active ++ [cursor]) log reached cursor' active' →
      TriggerPass now (e :: rest) cursor active
        (.event cursor (.trigger .ongoing) :: log) reached cursor' active'
  | exit {e : Event T H} {rest cursor active} : ¬ now < e.time →
      TriggerPass now (e :: rest) cursor active
        [.event cursor (.trigger .exit)] .exit cursor active

/-- The closing of events in order. -/
def closes (active : List Nat) : List (Call T) := active.map fun i => .event i .close

/-- The recorded pass over the ongoing events is the plain one with a log. -/
theorem updateOngoing_recorded (mark : Call T → E) (events : List (Event T H)) (now : T)
    (active : List Nat) (hactive : ∀ i ∈ active, i < events.length) (s : Journaled E H) :
    ∃ log,
      updateOngoing (recordEvents mark 0 events) now active s =
        ((updateOngoing events now active s.host).1,
          (updateOngoing events now active s.host).2.1,
          ⟨(updateOngoing events now active s.host).2.2, s.journal ++ log.map mark⟩) ∧
      UpdatePass events now active log (updateOngoing events now active s.host).1
        (updateOngoing events now active s.host).2.1 := by
  induction active generalizing s with
  | nil => exact ⟨[], by simp [updateOngoing], .nil⟩
  | cons i rest ih =>
    have hi : i < events.length := hactive i List.mem_cons_self
    have hrest : ∀ j ∈ rest, j < events.length :=
      fun j hj => hactive j (List.mem_cons_of_mem _ hj)
    have he : events[i]? = some events[i] := List.getElem?_eq_getElem hi
    simp only [updateOngoing, getElem?_recordEvents, he, Option.map_some,
      Event.update_recorded]
    rcases hu : events[i].update now s.host with ⟨answer, h⟩
    -- the answer is all that the pass looks at, so any callback may stand here
    cases answer with
    | ongoing =>
      obtain ⟨log, hlog, hpass⟩ := ih hrest
        ⟨h, s.journal ++ [mark (.event i (.update (now - events[i].time) .ongoing))]⟩
      refine ⟨_, ?_, .ongoing he hpass⟩
      simp only [hlog, List.map_cons, List.append_assoc, List.singleton_append]
    | finished =>
      obtain ⟨log, hlog, hpass⟩ := ih hrest
        ⟨events[i].close h,
          s.journal ++ [mark (.event i (.update (now - events[i].time) .finished)),
            mark (.event i .close)]⟩
      refine ⟨_, ?_, .finished he hpass⟩
      simp only [Event.close_recorded, hlog, List.map_cons, List.append_assoc,
        List.cons_append, List.nil_append]
    | exit => exact ⟨_, by simp, .exit he⟩

/-- The recorded run through the scheduled events is the plain one with a log. -/
theorem triggerDue_recorded (mark : Call T → E) (now : T) (pending : List (Event T H))
    (cursor : Nat) (active : List Nat) (s : Journaled E H) :
    ∃ log,
      triggerDue now (recordEvents mark cursor pending) cursor active s =
        ((triggerDue now pending cursor active s.host).1,
          (triggerDue now pending cursor active s.host).2.1,
          (triggerDue now pending cursor active s.host).2.2.1,
          ⟨(triggerDue now pending cursor active s.host).2.2.2, s.journal ++ log.map mark⟩) ∧
      TriggerPass now pending cursor active log
        (triggerDue now pending cursor active s.host).1
        (triggerDue now pending cursor active s.host).2.1
        (triggerDue now pending cursor active s.host).2.2.1 := by
  induction pending generalizing cursor active s with
  | nil => exact ⟨[], by simp [triggerDue, recordEvents], .all⟩
  | cons e rest ih =>
    rw [recordEvents_cons]
    -- an event that lies ahead stops the run before it is called
    by_cases hdue : now < e.time
    · refine ⟨[], ?_, ?_⟩
      · simp [triggerDue, hdue, show (e.recorded fun call =>
          mark (.event cursor call)).time = e.time from rfl]
      · simpa [triggerDue, hdue] using TriggerPass.future hdue
    · simp only [triggerDue, show (e.recorded fun call =>
        mark (.event cursor call)).time = e.time from rfl, if_neg hdue,
        Event.trigger_recorded]
      rcases ht : e.trigger s.host with ⟨answer, h⟩
      cases answer with
      | finished =>
        obtain ⟨log, hlog, hpass⟩ := ih (cursor + 1) active
          ⟨h, s.journal ++ [mark (.event cursor (.trigger .finished))]⟩
        refine ⟨_, ?_, .finished hdue hpass⟩
        simp only [hlog, List.map_cons, List.append_assoc, List.singleton_append]
      | ongoing =>
        obtain ⟨log, hlog, hpass⟩ := ih (cursor + 1) (active ++ [cursor])
          ⟨h, s.journal ++ [mark (.event cursor (.trigger .ongoing))]⟩
        refine ⟨_, ?_, .ongoing hdue hpass⟩
        simp only [hlog, List.map_cons, List.append_assoc, List.singleton_append]
      | exit => exact ⟨_, by simp, .exit hdue⟩

/-- Recorded closing is the plain one with the closings noted. -/
theorem closeAll_recorded (mark : Call T → E) (events : List (Event T H))
    (active : List Nat) (hactive : ∀ i ∈ active, i < events.length) (s : Journaled E H) :
    closeAll (recordEvents mark 0 events) active s =
      ⟨closeAll events active s.host, s.journal ++ (closes active).map mark⟩ := by
  induction active generalizing s with
  | nil => simp [closeAll, closes]
  | cons i rest ih =>
    have hi : i < events.length := hactive i List.mem_cons_self
    have he : events[i]? = some events[i] := List.getElem?_eq_getElem hi
    simp only [closeAll, getElem?_recordEvents, he, Option.map_some, Event.close_recorded]
    rw [ih (fun j hj => hactive j (List.mem_cons_of_mem _ hj))]
    simp [closes]

/-! ## The indices that passes go over -/

/-- A run through the scheduled events passes some of them, and appends those that went
ongoing in order. -/
theorem TriggerPass.active_eq {now : T} {pending : List (Event T H)} {cursor : Nat}
    {active : List Nat} {log : List (Call T)} {reached : Reached} {cursor' : Nat}
    {active' : List Nat}
    (hpass : TriggerPass now pending cursor active log reached cursor' active') :
    cursor ≤ cursor' ∧ cursor' ≤ cursor + pending.length ∧
      ∃ started, active' = active ++ started ∧ started.Pairwise (· < ·) ∧
        ∀ i ∈ started, cursor ≤ i ∧ i < cursor' := by
  induction hpass with
  | all => exact ⟨Nat.le_refl _, by simp, [], by simp, .nil, by simp⟩
  | future _ => exact ⟨Nat.le_refl _, by simp, [], by simp, .nil, by simp⟩
  | exit _ => exact ⟨Nat.le_refl _, by simp, [], by simp, .nil, by simp⟩
  | finished _ _ ih =>
    obtain ⟨hle, hlen, started, heq, hsorted, hmem⟩ := ih
    refine ⟨by omega, by simp only [List.length_cons]; omega, started, heq, hsorted, ?_⟩
    intro i hi
    have := hmem i hi
    omega
  | @ongoing e rest cursor active _ _ _ _ _ _ ih =>
    obtain ⟨hle, hlen, started, heq, hsorted, hmem⟩ := ih
    refine ⟨by omega, by simp only [List.length_cons]; omega, cursor :: started, ?_, ?_, ?_⟩
    · rw [heq, List.append_assoc, List.singleton_append]
    · -- the event at the cursor comes before all that are triggered after it
      refine List.Pairwise.cons (fun i hi => ?_) hsorted
      have := hmem i hi
      omega
    · intro i hi
      rcases List.mem_cons.1 hi with rfl | hi
      · omega
      · have := hmem i hi
        omega

/-- The events left ongoing by updating are among those that were. -/
theorem UpdatePass.sublist {events : List (Event T H)} {now : T} {active : List Nat}
    {log : List (Call T)} {exited : Bool} {still : List Nat}
    (hpass : UpdatePass events now active log exited still) : still.Sublist active := by
  induction hpass with
  | nil => exact List.Sublist.slnil
  | ongoing _ _ ih => exact ih.cons_cons _
  | finished _ _ ih => exact ih.cons _
  | exit _ => exact List.Sublist.refl _

end Playback

end Cueflow
