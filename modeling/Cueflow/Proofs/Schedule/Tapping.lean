import Cueflow.Proofs.Schedule.Lifecycle
import Cueflow.Proofs.Schedule.Simulation
/-!
# Tapped spans

What a span hands to its callback is seen by nobody else. A playback is *tapped* at an event by
letting that event's callback, if it is a span, note each value that it is handed; all other
callbacks act as before and note nothing.

> `simulates_tapped`: the tapped playback runs like the recorded one, and what it notes can be
> told from the calls to that event, `EventCall.handed` of each.

The recorded playback knows when a call was made and how it was answered, the tapped one what was
handed over. `Heard` ties their journals together; it also says that the calls were answered as a
span answers them (`EventCall.OfSpan`), which the calls of an arbitrary event do not tell.
-/

namespace Cueflow

variable {T H K C E : Type}

/-! ## Targets that are not noted -/

/-- A key that is built without an entry. -/
structure Quiet (K : Type) where
  key : K

instance [Builder K H C] : Builder (Quiet K) (Journaled E H) C where
  build k := Journaled.ask (Builder.build k.key)

def Target.quiet : Target K C → Target (Quiet K) C
  | .stop => .stop
  | .handOver next => .handOver next
  | .build key => .build ⟨key⟩

/-! ## Tapped events and playbacks -/

variable [Scalar T]

/-- The action on a host with a journal; what a span is handed is noted with `note`. -/
def EventAction.tapped (note : T → List E) : EventAction T H → EventAction T (Journaled E H)
  | .call f => .call (Journaled.act f)
  | .span f => .span fun x s => (s.act (f x)).note (note x)
  | .exitState => .exitState
  | .custom event => .custom {
      trigger := Journaled.ask event.trigger
      update := fun elapsed duration => Journaled.ask (event.update elapsed duration)
      close := Journaled.act event.close }

/-- What is noted when the action is handed `x`. -/
def EventAction.notes (note : T → List E) (x : T) : EventAction T H → List E
  | .span _ => note x
  | .call _ | .exitState | .custom _ => []

namespace Event

def tapped (note : T → List E) (e : Event T H) : Event T (Journaled E H) where
  label := e.label
  time := e.time
  duration := e.duration
  action := e.action.tapped note

theorem trigger_tapped (note : T → List E) (e : Event T H) (s : Journaled E H) :
    (e.tapped note).trigger s =
      ((e.trigger s.host).1, ⟨(e.trigger s.host).2, s.journal ++ e.action.notes note 0⟩) := by
  unfold trigger tapped EventAction.notes
  cases e.action <;> simp [EventAction.tapped, EventAction.trigger, Journaled.ask, Journaled.act,
    Journaled.note]

theorem update_tapped (note : T → List E) (e : Event T H) (now : T) (s : Journaled E H) :
    (e.tapped note).update now s =
      ((e.update now s.host).1, ⟨(e.update now s.host).2,
        s.journal ++ e.action.notes note (EventAction.progress (now - e.time) e.duration)⟩) := by
  unfold update tapped EventAction.notes
  cases e.action <;> simp [EventAction.tapped, EventAction.update, Journaled.ask, Journaled.act,
    Journaled.note]

omit [Scalar T] in
theorem close_tapped (note : T → List E) (e : Event T H) (s : Journaled E H) :
    (e.tapped note).close s = ⟨e.close s.host, s.journal⟩ := by
  unfold close tapped
  cases e.action <;> rfl

end Event

/-- The playback that notes what the event `i` is handed, if that is a span. -/
def Playback.tapped (i : Nat) (p : Playback T H K C) :
    Playback T (Journaled T H) (Quiet K) C where
  timeline := ⟨p.timeline.name, p.timeline.events.zipIdx.map fun x =>
    x.1.tapped fun value => if x.2 = i then [value] else []⟩
  target := p.target.map Target.quiet
  phase := p.phase
  currentTime := p.currentTime
  cursor := p.cursor
  active := p.active

/-! ## What is handed over in a call -/

namespace EventCall

/-- What the callback of a span of this duration is handed in a call. -/
def handed (duration : T) : EventCall T → Option T
  | .trigger _ => some 0
  | .update elapsed _ => some (EventAction.progress elapsed duration)
  | .close => none

/-- The call is answered as a span of this duration answers it. -/
def OfSpan (duration : T) : EventCall T → Prop
  | .trigger answer => answer = .ongoing
  | .update elapsed answer => answer = .until elapsed duration
  | .close => True

end EventCall

/-- Of two hosts that are the same, the first has the calls in its journal and the second what
the span `i`, of this duration, was handed in them. -/
structure Heard (i : Nat) (duration : T) (s : Journaled (Call T) H) (s' : Journaled T H) :
    Prop where
  host : s'.host = s.host
  journal : s'.journal = (Call.ofEvent i s.journal).filterMap (EventCall.handed duration)
  answered : ∀ call ∈ Call.ofEvent i s.journal, call.OfSpan duration

namespace Heard

variable {i j : Nat} {d : T} {s : Journaled (Call T) H} {s' : Journaled T H}

theorem nothing (i : Nat) (d : T) (h : H) : Heard i d ⟨h, []⟩ ⟨h, []⟩ where
  host := rfl
  journal := rfl
  answered _ hcall := nomatch hcall

/-- Something happens to both hosts, and nothing is noted. -/
theorem act (hs : Heard i d s s') (f : H → H) : Heard i d (s.act f) (s'.act f) where
  host := congrArg f hs.host
  journal := hs.journal
  answered := hs.answered

/-- A call to another event is not heard. -/
theorem other (hs : Heard i d s s') (hne : j ≠ i) (call : EventCall T) (h : H) :
    Heard i d ⟨h, s.journal ++ [.event j call]⟩ ⟨h, s'.journal ++ []⟩ where
  host := rfl
  journal := by
    rw [List.append_nil, Call.ofEvent_append_of_ne hne]
    exact hs.journal
  answered := by
    rw [Call.ofEvent_append_of_ne hne]
    exact hs.answered

/-- What is handed in a call to the span is heard. -/
theorem own (hs : Heard i d s s') (call : EventCall T) (hcall : call.OfSpan d) (h : H) :
    Heard i d ⟨h, s.journal ++ [.event i call]⟩ ⟨h, s'.journal ++ (call.handed d).toList⟩ where
  host := rfl
  journal := by
    rw [Call.ofEvent_append_self, List.filterMap_append, ← hs.journal]
    cases hhanded : call.handed d <;> simp [hhanded]
  answered := by
    rw [Call.ofEvent_append_self]
    exact List.forall_mem_append.2 ⟨hs.answered, List.forall_mem_singleton.2 hcall⟩

/-- Resolving a target is no call to an event. -/
theorem resolve (hs : Heard i d s s') (h : H) :
    Heard i d ⟨h, s.journal ++ [.resolve]⟩ ⟨h, s'.journal⟩ where
  host := rfl
  journal := by
    rw [Call.ofEvent_append]
    simpa [Call.ofEvent] using hs.journal
  answered := by
    rw [Call.ofEvent_append]
    simpa [Call.ofEvent] using hs.answered

end Heard

/-! ## The tapped playback runs like the recorded one -/

/-- The event at `j`, recorded and tapped; if it is the one that is listened to, it is a span. -/
theorem Event.simulates_tapped {i j : Nat} {d : T} {e : Event T H}
    (hspan : j = i → ∃ f, e.action = .span f ∧ e.duration = d) :
    Event.Simulates (Heard i d) (e.recorded fun call => .event j call)
      (e.tapped fun value => if j = i then [value] else []) where
  time := rfl
  trigger {s s'} hs := by
    rw [trigger_recorded, trigger_tapped, hs.host]
    refine ⟨rfl, ?_⟩
    by_cases hj : j = i
    · obtain ⟨f, haction, -⟩ := hspan hj
      subst hj
      have hanswer : (e.trigger s.host).1 = .ongoing := by
        unfold Event.trigger
        rw [haction]
        rfl
      have hown := hs.own (.trigger (e.trigger s.host).1) hanswer (e.trigger s.host).2
      simpa [EventAction.notes, haction, EventCall.handed] using hown
    · have hother := hs.other hj (.trigger (e.trigger s.host).1) (e.trigger s.host).2
      simp only [if_neg hj]
      cases haction : e.action <;> exact hother
  update now {s s'} hs := by
    rw [update_recorded, update_tapped, hs.host]
    refine ⟨rfl, ?_⟩
    by_cases hj : j = i
    · obtain ⟨f, haction, rfl⟩ := hspan hj
      subst hj
      have hanswer : (e.update now s.host).1 = .until (now - e.time) e.duration := by
        unfold Event.update
        rw [haction]
        rfl
      have hown := hs.own (.update (now - e.time) (e.update now s.host).1) hanswer
        (e.update now s.host).2
      simpa [EventAction.notes, haction, EventCall.handed] using hown
    · have hother := hs.other hj (.update (now - e.time) (e.update now s.host).1)
        (e.update now s.host).2
      simp only [if_neg hj]
      cases haction : e.action <;> exact hother
  close {s s'} hs := by
    rw [close_recorded, close_tapped, hs.host]
    by_cases hj : j = i
    · subst hj
      have hown := hs.own .close trivial (e.close s.host)
      simpa [EventCall.handed] using hown
    · have hother := hs.other hj .close (e.close s.host)
      rwa [List.append_nil] at hother

namespace Playback

variable [Builder K H C]

/-- The tapped playback runs like the recorded one. -/
theorem simulates_tapped {p : Playback T H K C} {i : Nat} {d : T}
    (hspan : ∀ e, p.timeline.events[i]? = some e → ∃ f, e.action = .span f ∧ e.duration = d) :
    Simulates (Heard i d) (p.recorded id) (p.tapped i) where
  events := by
    show List.Forall₂ _ (recordEvents id 0 p.timeline.events) _
    unfold recordEvents
    rw [tapped, List.forall₂_map_left_iff, List.forall₂_map_right_iff, List.forall₂_same]
    rintro ⟨e, j⟩ hmem
    refine Event.simulates_tapped fun hj => hspan e ?_
    rw [← hj]
    exact List.mk_mem_zipIdx_iff_getElem?.1 hmem
  target {s s'} hs := by
    show Agree _ (Target.reach (p.target.map (Target.recorded Call.resolve)) s)
      (Target.reach (p.target.map Target.quiet) s')
    rcases p.target with _ | _ | next | key
    · exact ⟨rfl, hs⟩
    · exact ⟨rfl, hs⟩
    · exact ⟨rfl, hs⟩
    · show (Builder.build key s'.host).1 = (Builder.build key s.host).1 ∧
        Heard i d ⟨(Builder.build (C := C) key s.host).2, s.journal ++ [.resolve]⟩
          ⟨(Builder.build (C := C) key s'.host).2, s'.journal⟩
      rw [hs.host]
      exact ⟨rfl, hs.resolve _⟩
  phase := rfl
  currentTime := rfl
  cursor := rfl
  active := rfl

end Playback

end Cueflow
