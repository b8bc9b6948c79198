import Cueflow.Proofs.Schedule.Recording
/-!
# The life of an event

Which callbacks a single event has over the whole life of its playback.

> `event_lifecycle`: nothing; or one trigger; or, if that trigger answered `ongoing`, updates
> and then at most one closing. The closing has come when the playback is over, and before
> that exactly if one of the event's own updates reported the end.

Closings are issued from three places: right after an update that reports the end, when an
event asks to exit, and when the playback is aborted. `Lived` gives the calls that belong to
each stage of a life, and `Accounts` ties the stages to the playback: an event in the list of
ongoing ones is at the stage `ongoing`, one at or after the cursor is `scheduled`, all others
are past. A pass moves events from stage to stage; the three ways to the end all go through
`Closable`, which says that just the events about to be closed have a closing to come.
-/

namespace Cueflow

variable {T H K C : Type}

namespace Call

theorem ofEvent_append (i : Nat) (xs ys : List (Call T)) :
    ofEvent i (xs ++ ys) = ofEvent i xs ++ ofEvent i ys := List.filterMap_append

/-- A call is noted with the event that it is made to … -/
theorem ofEvent_append_self (i : Nat) (calls : List (Call T)) (call : EventCall T) :
    ofEvent i (calls ++ [.event i call]) = ofEvent i calls ++ [call] := by
  rw [ofEvent_append]
  simp [ofEvent]

/-- … and with no other. -/
theorem ofEvent_append_of_ne {i j : Nat} (hne : j ≠ i) (calls : List (Call T))
    (call : EventCall T) : ofEvent i (calls ++ [.event j call]) = ofEvent i calls := by
  rw [ofEvent_append]
  simp [ofEvent, hne]

theorem mem_of_mem_ofEvent {i : Nat} {calls : List (Call T)} {call : EventCall T}
    (h : call ∈ ofEvent i calls) : .event i call ∈ calls := by
  obtain ⟨c, hc, hsome⟩ := List.mem_filterMap.1 h
  cases c with
  | event j call' =>
    obtain ⟨rfl, hcall⟩ := Option.ite_none_right_eq_some.1 hsome
    rw [← Option.some.inj hcall]
    exact hc
  | condition _ _ _ => exact nomatch hsome
  | logic _ _ => exact nomatch hsome
  | resolve => exact nomatch hsome

end Call

/-! ## Stages -/

/-- How far the life of an event has come. -/
inductive Stage where
  /-- Not triggered. -/
  | scheduled
  /-- Over with its trigger. -/
  | instant
  /-- Went ongoing. -/
  | ongoing
  /-- Asked to exit in an update, and is to be closed. -/
  | exiting
  /-- Reported its end in an update, and was closed. -/
  | ended
  /-- Was closed before it reported its end. -/
  | cut
deriving DecidableEq

/-- Whether the closing of the event is still to come. -/
def Stage.isOpen : Stage → Bool
  | .ongoing | .exiting => true
  | .scheduled | .instant | .ended | .cut => false

/-- A trigger that was answered with `ongoing`, and updates that were, too. -/
def livingCalls (times : List T) : List (EventCall T) :=
  .trigger .ongoing :: times.map fun x => .update x .ongoing

/-- The calls that an event has had when its life has come to a stage. -/
inductive Lived : Stage → List (EventCall T) → Prop where
  | scheduled : Lived .scheduled []
  | instant {answer : EventStatus} : answer ≠ .ongoing → Lived .instant [.trigger answer]
  | ongoing (times : List T) : Lived .ongoing (livingCalls times)
  | exiting (times : List T) (x : T) :
      Lived .exiting (livingCalls times ++ [.update x .exit])
  | ended (times : List T) (x : T) :
      Lived .ended (livingCalls times ++ [.update x .finished, .close])
  | cut (times : List T) : Lived .cut (livingCalls times ++ [.close])
  | exited (times : List T) (x : T) :
      Lived .cut (livingCalls times ++ [.update x .exit, .close])

namespace Lived

variable {stage : Stage} {calls : List (EventCall T)}

theorem eq_nil (h : Lived .scheduled calls) : calls = [] := by
  cases h
  rfl

theorem began : Lived .ongoing [(.trigger .ongoing : EventCall T)] := .ongoing []

theorem update_ongoing (h : Lived .ongoing calls) (x : T) :
    Lived .ongoing (calls ++ [.update x .ongoing]) := by
  cases h with
  | ongoing times =>
    have : livingCalls times ++ [.update x .ongoing] = livingCalls (times ++ [x]) := by
      simp [livingCalls]
    rw [this]
    exact .ongoing _

/-- An update that reports the end, and the closing after it, end a life. -/
theorem update_finished (h : Lived .ongoing calls) (x : T) :
    Lived .ended (calls ++ [.update x .finished, .close]) := by
  cases h with
  | ongoing times => exact .ended times x

/-- An event that asks to exit in an update is still to be closed. -/
theorem update_exit (h : Lived .ongoing calls) (x : T) :
    Lived .exiting (calls ++ [.update x .exit]) := by
  cases h with
  | ongoing times => exact .exiting times x

/-- Closing cuts an open life. -/
theorem close (h : Lived stage calls) (hopen : stage.isOpen = true) :
    Lived .cut (calls ++ [.close]) := by
  cases h with
  | ongoing times => exact .cut times
  | exiting times x =>
    rw [List.append_assoc]
    exact .exited times x
  | scheduled => exact nomatch hopen
  | instant _ => exact nomatch hopen
  | ended _ _ => exact nomatch hopen
  | cut _ => exact nomatch hopen
  | exited _ _ => exact nomatch hopen

/-- Nothing but a trigger, updates and a closing, in this order, and the latter two only
after a trigger that was answered with `ongoing`. -/
theorem shape (h : Lived stage calls) :
    calls = [] ∨ (∃ answer, calls = [.trigger answer]) ∨
      ∃ updates ends, calls = .trigger .ongoing :: (updates ++ ends) ∧
        (∀ u ∈ updates, ∃ x answer, u = .update x answer) ∧
        (ends = [] ∨ ends = [.close]) := by
  have hlive : ∀ times : List T, ∀ u ∈ times.map fun x => EventCall.update x .ongoing,
      ∃ x answer, u = .update x answer := by
    intro times u hu
    obtain ⟨x, -, rfl⟩ := List.mem_map.1 hu
    exact ⟨x, _, rfl⟩
  have hlast : ∀ (times : List T) (x : T) (answer : EventStatus),
      ∀ u ∈ times.map (fun x => EventCall.update x .ongoing) ++ [.update x answer],
      ∃ x answer, u = .update x answer := by
    intro times x answer u hu
    rcases List.mem_append.1 hu with hu | hu
    · exact hlive times u hu
    · exact ⟨x, answer, List.mem_singleton.1 hu⟩
  cases h with
  | scheduled => exact Or.inl rfl
  | instant _ => exact Or.inr (Or.inl ⟨_, rfl⟩)
  | ongoing times => exact Or.inr (Or.inr ⟨_, [], by simp [livingCalls], hlive times, .inl rfl⟩)
  | exiting times x =>
    exact Or.inr (Or.inr ⟨_, [], by simp [livingCalls], hlast times x .exit, .inl rfl⟩)
  | ended times x =>
    exact Or.inr (Or.inr ⟨_, [.close], by simp [livingCalls], hlast times x .finished, .inr rfl⟩)
  | cut times =>
    exact Or.inr (Or.inr ⟨_, [.close], by simp [livingCalls], hlive times, .inr rfl⟩)
  | exited times x =>
    exact Or.inr (Or.inr ⟨_, [.close], by simp [livingCalls], hlast times x .exit, .inr rfl⟩)

/-- A life without a closing to come, that once went ongoing, has one closing. -/
theorem countP_close (h : Lived stage calls) (hopen : stage.isOpen = false)
    (hmem : .trigger .ongoing ∈ calls) : calls.countP EventCall.isClose = 1 := by
  have hlive : ∀ times : List T, (livingCalls times).countP EventCall.isClose = 0 := by
    intro times
    simp [livingCalls, EventCall.isClose, List.countP_eq_zero]
  cases h with
  | scheduled => exact absurd hmem List.not_mem_nil
  | instant hne =>
    have := List.mem_singleton.1 hmem
    injection this with heq
    exact absurd heq.symm hne
  | ongoing _ => exact nomatch hopen
  | exiting _ _ => exact nomatch hopen
  | ended times x => simp [List.countP_append, hlive, EventCall.isClose]
  | cut times => simp [List.countP_append, hlive, EventCall.isClose]
  | exited times x => simp [List.countP_append, hlive, EventCall.isClose]

/-- Unless it was cut, a life has a closing exactly if it has an update that reported the
end. -/
theorem close_mem_iff (h : Lived stage calls) (hcut : stage ≠ .cut) :
    .close ∈ calls ↔ ∃ x, .update x .finished ∈ calls := by
  cases h with
  | scheduled => simp
  | instant _ => simp
  | ongoing times => simp [livingCalls]
  | exiting times x => simp [livingCalls]
  | ended times x => simp [livingCalls]
  | cut _ => exact absurd rfl hcut
  | exited _ _ => exact absurd rfl hcut

/-- An event that did not go ongoing has its trigger and nothing else. -/
theorem eq_of_trigger_mem (h : Lived stage calls) {answer : EventStatus}
    (hne : answer ≠ .ongoing) (hmem : .trigger answer ∈ calls) :
    calls = [.trigger answer] := by
  cases h with
  | scheduled => exact absurd hmem List.not_mem_nil
  | instant _ => rw [List.mem_singleton.1 hmem]
  | ongoing times => simp [livingCalls, hne] at hmem
  | exiting times x => simp [livingCalls, hne] at hmem
  | ended times x => simp [livingCalls, hne] at hmem
  | cut times => simp [livingCalls, hne] at hmem
  | exited times x => simp [livingCalls, hne] at hmem

end Lived

namespace Playback

variable {cursor : Nat} {active : List Nat} {calls : List (Call T)}

/-! ## Stages and the lists of a playback -/

/-- The stages that go with the cursor and the ongoing events of a playback that runs. -/
structure Current (cursor : Nat) (active : List Nat) (calls : List (Call T)) : Prop where
  scheduled : ∀ i, cursor ≤ i → Lived .scheduled (Call.ofEvent i calls)
  ongoing : ∀ i ∈ active, Lived .ongoing (Call.ofEvent i calls)
  past : ∀ i < cursor, i ∉ active →
    Lived .instant (Call.ofEvent i calls) ∨ Lived .ended (Call.ofEvent i calls)

/-- Just the events in `active` have their closing still to come. -/
def Closable (active : List Nat) (calls : List (Call T)) : Prop :=
  ∀ i, ∃ stage : Stage, Lived stage (Call.ofEvent i calls) ∧ (stage.isOpen = true ↔ i ∈ active)

/-- What a playback runs on can be closed. -/
theorem Current.closable (h : Current cursor active calls) : Closable active calls := by
  intro i
  by_cases hi : i ∈ active
  · exact ⟨.ongoing, h.ongoing i hi, by simp [Stage.isOpen, hi]⟩
  · by_cases hcursor : cursor ≤ i
    · exact ⟨.scheduled, h.scheduled i hcursor, by simp [Stage.isOpen, hi]⟩
    · rcases h.past i (by omega) hi with hlived | hlived
      · exact ⟨.instant, hlived, by simp [Stage.isOpen, hi]⟩
      · exact ⟨.ended, hlived, by simp [Stage.isOpen, hi]⟩

theorem Closable.close {i : Nat} {rest : List Nat} (h : Closable (i :: rest) calls)
    (hi : i ∉ rest) : Closable rest (calls ++ [.event i .close]) := by
  intro j
  obtain ⟨stage, hlived, hopen⟩ := h j
  by_cases hj : i = j
  · subst hj
    rw [Call.ofEvent_append_self]
    exact ⟨.cut, hlived.close (hopen.2 List.mem_cons_self), by simp [Stage.isOpen, hi]⟩
  · rw [Call.ofEvent_append_of_ne hj]
    refine ⟨stage, hlived, hopen.trans ?_⟩
    rw [List.mem_cons]
    exact ⟨fun hmem => hmem.resolve_left (Ne.symm hj), Or.inr⟩

/-- After the closings no event has one to come. -/
theorem Closable.closes (h : Closable active calls) (hnodup : active.Nodup) :
    Closable [] (calls ++ closes active) := by
  induction active generalizing calls with
  | nil =>
    rw [Playback.closes, List.map_nil, List.append_nil]
    exact h
  | cons i rest ih =>
    obtain ⟨hi, hrest⟩ := List.nodup_cons.1 hnodup
    rw [Playback.closes, List.map_cons, List.append_cons]
    exact ih (h.close hi) hrest

/-- Resolving a target is no call to an event. -/
theorem Closable.trail (h : Closable active calls) (p : Playback T H K C) :
    Closable active (calls ++ p.trail) := by
  have htrail : ∀ i, Call.ofEvent i p.trail = [] := by
    intro i
    rcases p.trail_cases with h | h <;> rw [h] <;> rfl
  intro i
  rw [Call.ofEvent_append, htrail, List.append_nil]
  exact h i

/-! ## Stages along the passes -/

/-- A call to the ongoing event `i` that leaves it ongoing. -/
theorem Current.update_ongoing {i : Nat} (h : Current cursor active calls)
    (hlt : ∀ i ∈ active, i < cursor) (hi : i ∈ active) (x : T) :
    Current cursor active (calls ++ [.event i (.update x .ongoing)]) where
  scheduled j hj := by
    -- an ongoing event lies before the cursor
    have hne : i ≠ j := by
      have := hlt i hi
      omega
    rw [Call.ofEvent_append_of_ne hne]
    exact h.scheduled j hj
  ongoing j hj := by
    by_cases hij : i = j
    · subst hij
      rw [Call.ofEvent_append_self]
      exact (h.ongoing i hi).update_ongoing x
    · rw [Call.ofEvent_append_of_ne hij]
      exact h.ongoing j hj
  past j hj hmem := by
    have hne : i ≠ j := fun hij => hmem (hij ▸ hi)
    rw [Call.ofEvent_append_of_ne hne]
    exact h.past j hj hmem

/-- An update that reports the end, and the closing after it, take an event off the list. -/
theorem Current.update_finished {i : Nat} {before rest : List Nat}
    (h : Current cursor (before ++ i :: rest) calls)
    (hlt : ∀ j ∈ before ++ i :: rest, j < cursor) (hnodup : (before ++ i :: rest).Nodup)
    (x : T) :
    Current cursor (before ++ rest)
      (calls ++ [.event i (.update x .finished)] ++ [.event i .close]) := by
  have hi : i ∈ before ++ i :: rest := List.mem_append_right _ List.mem_cons_self
  have hperm : (before ++ i :: rest).Perm (i :: (before ++ rest)) := List.perm_middle
  -- it was listed once, so it is off the list for good
  have hout : i ∉ before ++ rest := (List.nodup_cons.1 (hperm.nodup_iff.1 hnodup)).1
  have hsame : ∀ j, i ≠ j → Call.ofEvent j (calls ++ [.event i (.update x .finished)] ++
      [.event i .close]) = Call.ofEvent j calls := by
    intro j hne
    rw [Call.ofEvent_append_of_ne hne, Call.ofEvent_append_of_ne hne]
  refine ⟨fun j hj => ?_, fun j hj => ?_, fun j hj hmem => ?_⟩
  · have := hlt i hi
    rw [hsame j (by omega)]
    exact h.scheduled j hj
  · rw [hsame j (fun hij => hout (hij ▸ hj))]
    exact h.ongoing j (hperm.mem_iff.2 (List.mem_cons_of_mem _ hj))
  · by_cases hij : i = j
    · subst hij
      rw [Call.ofEvent_append_self, Call.ofEvent_append_self, List.append_assoc]
      exact Or.inr ((h.ongoing i hi).update_finished x)
    · rw [hsame j hij]
      refine h.past j hj fun hj => ?_
      rcases List.mem_cons.1 (hperm.mem_iff.1 hj) with hji | hj
      · exact hij hji.symm
      · exact hmem hj

/-- An ongoing event that asks to exit is still to be closed. -/
theorem Current.update_exit {i : Nat} (h : Current cursor active calls)
    (hi : i ∈ active) (x : T) : Closable active (calls ++ [.event i (.update x .exit)]) := by
  intro j
  by_cases hij : i = j
  · subst hij
    rw [Call.ofEvent_append_self]
    exact ⟨.exiting, (h.ongoing i hi).update_exit x, by simp [Stage.isOpen, hi]⟩
  · rw [Call.ofEvent_append_of_ne hij]
    exact h.closable j

/-- The event at the cursor, triggered, is past the cursor. It is ongoing if it answered so,
and over otherwise. -/
theorem Current.trigger {answer : EventStatus} {active' : List Nat}
    (h : Current cursor active calls) (hlt : ∀ i ∈ active, i < cursor)
    (hactive : active' = if answer = .ongoing then active ++ [cursor] else active) :
    Current (cursor + 1) active' (calls ++ [.event cursor (.trigger answer)]) := by
  -- this is the first call to the event, since it was still scheduled
  have hself : Call.ofEvent cursor (calls ++ [.event cursor (.trigger answer)]) =
      [.trigger answer] := by
    rw [Call.ofEvent_append_self, (h.scheduled cursor (Nat.le_refl _)).eq_nil]
    rfl
  have hmem : ∀ j, j ∈ active' ↔ j ∈ active ∨ (answer = .ongoing ∧ j = cursor) := by
    intro j
    rw [hactive]
    by_cases hgo : answer = .ongoing <;> simp [hgo]
  refine ⟨fun j hj => ?_, fun j hj => ?_, fun j hj hout => ?_⟩
  · rw [Call.ofEvent_append_of_ne (by omega)]
    exact h.scheduled j (by omega)
  · rcases (hmem j).1 hj with hj | ⟨hgo, rfl⟩
    · have := hlt j hj
      rw [Call.ofEvent_append_of_ne (by omega)]
      exact h.ongoing j hj
    · rw [hself, hgo]
      exact .began
  · by_cases hjc : cursor = j
    · subst hjc
      rw [hself]
      exact Or.inl (.instant fun hgo => hout ((hmem _).2 (Or.inr ⟨hgo, rfl⟩)))
    · rw [Call.ofEvent_append_of_ne hjc]
      exact h.past j (by omega) fun hj => hout ((hmem j).2 (Or.inl hj))

/-- Updating keeps the stages, with the events before the pass left alone. If an event asks
to exit, what is ongoing then can be closed. -/
theorem UpdatePass.current [Scalar T] {events : List (Event T H)} {now : T}
    {log : List (Call T)} {exited : Bool} {still : List Nat}
    (hpass : UpdatePass events now active log exited still) (before : List Nat)
    (h : Current cursor (before ++ active) calls)
    (hlt : ∀ i ∈ before ++ active, i < cursor) (hnodup : (before ++ active).Nodup) :
    (exited = false → Current cursor (before ++ still) (calls ++ log)) ∧
      (exited = true → Closable (before ++ still) (calls ++ log)) := by
  -- events that stay move over to `before`, so the list as a whole is that of the playback
  induction hpass generalizing before calls with
  | nil =>
    rw [List.append_nil calls]
    exact ⟨fun _ => h, fun hexit => nomatch hexit⟩
  | @ongoing i e rest log exited still _ _ ih =>
    have hi : i ∈ before ++ i :: rest := List.mem_append_right _ List.mem_cons_self
    have hnext := h.update_ongoing hlt hi (now - e.time)
    rw [List.append_cons before] at hnext hlt hnodup
    rw [List.append_cons before, List.append_cons calls]
    exact ih (before ++ [i]) hnext hlt hnodup
  | @finished i e rest log exited still _ _ ih =>
    have hnext := h.update_finished hlt hnodup (now - e.time)
    have hsub : (before ++ rest).Sublist (before ++ i :: rest) :=
      (List.sublist_cons_self i rest).append_left before
    rw [List.append_cons calls, List.append_cons (calls ++ _)]
    exact ih before hnext (fun j hj => hlt j (hsub.subset hj)) (hnodup.sublist hsub)
  | @exit i e rest _ =>
    have hi : i ∈ before ++ i :: rest := List.mem_append_right _ List.mem_cons_self
    exact ⟨fun hexit => (nomatch hexit), fun _ => h.update_exit hi (now - e.time)⟩

/-- Triggering keeps the stages. If an event asks to exit, what is ongoing then can be
closed. -/
theorem TriggerPass.current [Scalar T] {now : T} {pending : List (Event T H)}
    {log : List (Call T)} {reached : Reached} {cursor' : Nat} {active' : List Nat}
    (hpass : TriggerPass now pending cursor active log reached cursor' active')
    (h : Current cursor active calls) (hlt : ∀ i ∈ active, i < cursor) :
    (reached ≠ .exit → Current cursor' active' (calls ++ log)) ∧
      (reached = .exit → Closable active' (calls ++ log)) := by
  induction hpass generalizing calls with
  | all =>
    rw [List.append_nil]
    exact ⟨fun _ => h, fun hexit => nomatch hexit⟩
  | future _ =>
    rw [List.append_nil]
    exact ⟨fun _ => h, fun hexit => nomatch hexit⟩
  | finished _ _ ih =>
    rw [List.append_cons]
    exact ih (h.trigger hlt (by simp)) fun i hi => Nat.lt_succ_of_lt (hlt i hi)
  | @ongoing _ _ cursor active _ _ _ _ _ _ ih =>
    rw [List.append_cons]
    refine ih (h.trigger hlt (by simp)) fun i hi => ?_
    rcases List.mem_append.1 hi with hi | hi
    · exact Nat.lt_succ_of_lt (hlt i hi)
    · rw [List.mem_singleton.1 hi]
      exact Nat.lt_succ_self _
  | @exit _ _ cursor active _ =>
    have hstays : active = if EventStatus.exit = .ongoing then active ++ [cursor] else active := rfl
    exact ⟨fun hexit => absurd rfl hexit, fun _ => (h.trigger hlt hstays).closable⟩

/-! ## Stages along a run -/

/-- The calls so far are accounted for by the lists of the playback. -/
structure Accounts (p : Playback T H K C) (calls : List (Call T)) : Prop where
  running : p.phase.isTerminal = false → Current p.cursor p.active calls
  terminal : p.phase.isTerminal = true → Closable [] calls

namespace Accounts

variable {p p' : Playback T H K C} {log : List (Call T)} {ends : Bool}

theorem opening [Scalar T] (t : Timeline T H) (target : Option (Target K C)) :
    Accounts (opening t target) [] where
  running _ := ⟨fun _ _ => .scheduled, fun _ hi => (nomatch hi), fun _ hi => nomatch hi⟩
  terminal hover := nomatch hover

/-- A playback that ends by itself closes what is ongoing. -/
theorem ended (hclose : Closable active calls) (hnodup : active.Nodup) {phase : PlayPhase}
    (hphase : phase.isTerminal = true) :
    Accounts (p.ended phase) (calls ++ (closes active ++ p.trail)) where
  running hrun := by
    have hrun : phase.isTerminal = false := hrun
    rw [hphase] at hrun
    exact nomatch hrun
  terminal _ := by
    rw [← List.append_assoc]
    exact (hclose.closes hnodup).trail p

/-- An abort closes what is ongoing. -/
theorem aborted (h : Accounts p calls) (hp : p.Sound) (hrun : p.phase.isTerminal = false) :
    Accounts p.aborted (calls ++ closes p.active) where
  running hrun := nomatch hrun
  terminal _ := (h.running hrun).closable.closes hp.nodup

/-- The part of a step after the updates keeps the account. -/
theorem advanced [Scalar T] (h : Current p.cursor p.active calls) (hp : p.Sound)
    (hrun : p.phase = .running) (hadv : Advanced p log ends p') :
    Accounts p' (calls ++ log) := by
  cases hadv with
  | future hpass =>
    have hnext := (hpass.current h hp.active_lt).1 Reached.noConfusion
    exact ⟨fun _ => hnext, fun hover => by simp [hrun, PlayPhase.isTerminal] at hover⟩
  | busy hpass _ =>
    have hnext := (hpass.current h hp.active_lt).1 Reached.noConfusion
    exact ⟨fun _ => hnext, fun hover => by simp [hrun, PlayPhase.isTerminal] at hover⟩
  | finished hpass =>
    have hnext := (hpass.current h hp.active_lt).1 Reached.noConfusion
    rw [← List.append_assoc]
    exact ended hnext.closable .nil rfl
  | exited hpass =>
    have hnext := (hpass.current h hp.active_lt).2 rfl
    rw [List.append_assoc, ← List.append_assoc]
    exact ended hnext (hp.triggerPass hrun hpass).nodup rfl

theorem stepped [Scalar T] {now : T} (h : Accounts p calls) (hp : p.Sound)
    (hrun : p.phase.isTerminal = false) (hstep : Stepped (p.atTime now) log ends p') :
    Accounts p' (calls ++ log) := by
  have hnow : Current (p.atTime now).cursor (p.atTime now).active calls := h.running hrun
  have hp := hp.atTime now
  cases hstep with
  | exited _ hpass =>
    have hnext := (hpass.current [] hnow hp.active_lt hp.nodup).2 rfl
    rw [List.append_assoc, ← List.append_assoc]
    exact ended hnext (hp.updatePass rfl hpass).nodup rfl
  | updated _ hpass hadv =>
    have hnext := (hpass.current [] hnow hp.active_lt hp.nodup).1 rfl
    rw [← List.append_assoc]
    exact advanced hnext (hp.updatePass rfl hpass) rfl hadv
  | due _ hadv => exact advanced hnow hp rfl hadv

/-- Every event is at some stage; none is open when the playback is over, and none was cut
while it runs. -/
theorem lived (h : Accounts p calls) (i : Nat) :
    ∃ stage, Lived stage (Call.ofEvent i calls) ∧
      (p.phase.isTerminal = true → stage.isOpen = false) ∧
      (p.phase.isTerminal = false → stage ≠ .cut) := by
  by_cases hover : p.phase.isTerminal = true
  · obtain ⟨stage, hlived, hopen⟩ := h.terminal hover i
    exact ⟨stage, hlived, fun _ => by simpa using hopen, fun hrun => by simp [hover] at hrun⟩
  · have hnow := h.running (by simpa using hover)
    -- the list and the cursor tell the stage
    by_cases hi : i ∈ p.active
    · exact ⟨.ongoing, hnow.ongoing i hi, fun ho => absurd ho hover, fun _ => Stage.noConfusion⟩
    · by_cases hcursor : p.cursor ≤ i
      · exact ⟨.scheduled, hnow.scheduled i hcursor, fun _ => rfl, fun _ => Stage.noConfusion⟩
      · rcases hnow.past i (by omega) hi with hlived | hlived
        · exact ⟨.instant, hlived, fun _ => rfl, fun _ => Stage.noConfusion⟩
        · exact ⟨.ended, hlived, fun _ => rfl, fun _ => Stage.noConfusion⟩

end Accounts

/-! ## The life of one event -/

/-- Along every run of steps and aborts, with ticks of any length and events that answer
anything, the calls to one event are none, or one trigger, or a trigger answered with
`ongoing` followed by updates and then at most one closing. An event that went ongoing has
had one closing when the playback is over; while the playback runs it has been closed exactly
if it reported its end. An event that did not go ongoing has its trigger and nothing else.
Keeping the journal changes nothing of the run. -/
theorem event_lifecycle [Scalar T] [Host H T] [Builder K H C] (t : Timeline T H)
    (target : Option (Target K C)) (moves : List (Move H)) (h : H) (i : Nat) :
    let played := play moves (opening t target) h
    let noted := play (moves.map Move.journaled) ((opening t target).recorded id)
      (⟨h, []⟩ : Journaled (Call T) H)
    let calls := Call.ofEvent i noted.2.journal
    (noted.1 = played.1.recorded id ∧ noted.2.host = played.2) ∧
    (calls = [] ∨ (∃ answer, calls = [.trigger answer]) ∨
      ∃ updates ends, calls = .trigger .ongoing :: (updates ++ ends) ∧
        (∀ u ∈ updates, ∃ x answer, u = .update x answer) ∧
        (ends = [] ∨ ends = [.close])) ∧
    (played.1.phase.isTerminal = true → .trigger .ongoing ∈ calls →
      calls.countP EventCall.isClose = 1) ∧
    (played.1.phase = .running → (.close ∈ calls ↔ ∃ x, .update x .finished ∈ calls)) ∧
    (∀ answer, answer ≠ .ongoing → .trigger answer ∈ calls → calls = [.trigger answer]) := by
  intro played noted calls
  obtain ⟨log, hnoted, -, haccounts⟩ := play_recorded (id : Call T → Call T)
    (D := fun _ => True) (I := Accounts)
    (fun hp hrun h _ hstep => h.stepped hp hrun hstep)
    (fun hp hrun h => h.aborted hp hrun) moves (sound_opening t target)
    (Accounts.opening t target) (⟨h, []⟩ : Journaled (Call T) H) (Move.paced_true _ _ _ _)
  rw [List.nil_append] at haccounts
  -- the journal starts out empty, so what is in it is the log of the run
  have hjournal : noted.2.journal = log := by
    show (play (moves.map Move.journaled) ((opening t target).recorded id) ⟨h, []⟩).2.journal = _
    rw [hnoted, List.nil_append, List.map_id]
  obtain ⟨stage, hlived, hover, hrun⟩ := haccounts.lived i
  rw [← hjournal] at hlived
  refine ⟨⟨congrArg Prod.fst hnoted, congrArg (fun x => x.2.host) hnoted⟩, hlived.shape,
    fun hterminal => hlived.countP_close (hover hterminal), fun hphase => ?_,
    fun answer hne => hlived.eq_of_trigger_mem hne⟩
  exact hlived.close_mem_iff (hrun (by rw [hphase]; rfl))

end Playback

end Cueflow
