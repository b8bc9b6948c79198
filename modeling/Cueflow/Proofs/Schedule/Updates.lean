import Cueflow.World.Basic
import Cueflow.Proofs.Schedule.Exits
import Cueflow.Proofs.Schedule.Lifecycle
/-!
# Which steps update

An author of an event is promised an update on every tick while the event is ongoing. A step
keeps that promise only if nothing is due in it.

> `updates_unless_due`: a step that finds the next event due updates no ongoing event; every
> other step updates each of them once, up to the first that asks to exit. So an event whose
> time is up is over after the step exactly if nothing was due in it or an exit was asked for.

`NextDue` is what tells the two kinds of steps apart. Updates go over the ongoing events in the
order of their indices (`Sound.sorted`), so "before" is `<` on indices. In a timeline with
something due on every tick the promise is kept on none of them: `starved_by_due_events`.
-/

namespace Cueflow

variable {T H K C : Type}

/-- Whether this is an update of an event. -/
def EventCall.isUpdate : EventCall T → Bool
  | .update _ _ => true
  | .trigger _ | .close => false

namespace Call

/-- How often an event is updated. -/
def updates (i : Nat) (calls : List (Call T)) : Nat :=
  (ofEvent i calls).countP EventCall.isUpdate

theorem updates_append (i : Nat) (xs ys : List (Call T)) :
    updates i (xs ++ ys) = updates i xs + updates i ys := by
  unfold updates
  rw [ofEvent, List.filterMap_append, List.countP_append]
  rfl

theorem updates_cons_self (i : Nat) (call : EventCall T) (calls : List (Call T)) :
    updates i (.event i call :: calls) = updates i calls + if call.isUpdate then 1 else 0 := by
  simp [updates, ofEvent, List.countP_cons]

theorem updates_cons_of_ne {i j : Nat} (hne : j ≠ i) (call : EventCall T)
    (calls : List (Call T)) : updates i (.event j call :: calls) = updates i calls := by
  simp [updates, ofEvent, hne]

/-- No event is updated. -/
def Updateless (calls : List (Call T)) : Prop :=
  ∀ i x answer, .event i (.update x answer) ∉ calls

namespace Updateless

variable {xs ys : List (Call T)}

theorem nil : Updateless ([] : List (Call T)) := fun _ _ _ h => nomatch h

theorem append (hxs : Updateless xs) (hys : Updateless ys) : Updateless (xs ++ ys) := by
  intro i x answer h
  rcases List.mem_append.1 h with h | h
  · exact hxs i x answer h
  · exact hys i x answer h

theorem trigger (j : Nat) (answer : EventStatus) (hxs : Updateless xs) :
    Updateless (.event j (.trigger answer) :: xs) := by
  intro i x answer' h
  rcases List.mem_cons.1 h with heq | h
  · cases heq
  · exact hxs i x answer' h

theorem updates_eq_zero (hxs : Updateless xs) (i : Nat) : updates i xs = 0 := by
  refine List.countP_eq_zero.2 fun call hcall hupdate => ?_
  cases call with
  | trigger _ => cases hupdate
  | close => cases hupdate
  | update x answer => exact hxs i x answer (mem_of_mem_ofEvent hcall)

end Updateless

/-- An event asks to exit in an update. -/
def UpdateExits (i : Nat) (calls : List (Call T)) : Prop :=
  ∃ x, .event i (.update x .exit) ∈ calls

theorem updateExits_cons_of_not {call : Call T} (hcall : call.asksExit = false) (i : Nat)
    (calls : List (Call T)) : UpdateExits i (call :: calls) ↔ UpdateExits i calls := by
  constructor
  · rintro ⟨x, hx⟩
    rcases List.mem_cons.1 hx with rfl | hx
    · cases hcall
    · exact ⟨x, hx⟩
  · rintro ⟨x, hx⟩
    exact ⟨x, List.mem_cons_of_mem _ hx⟩

theorem Updateless.updateExits_append {ys : List (Call T)} (hys : Updateless ys) (i : Nat)
    (xs : List (Call T)) : UpdateExits i (xs ++ ys) ↔ UpdateExits i xs := by
  constructor
  · rintro ⟨x, hx⟩
    rcases List.mem_append.1 hx with hx | hx
    · exact ⟨x, hx⟩
    · exact absurd hx (hys i x .exit)
  · rintro ⟨x, hx⟩
    exact ⟨x, List.mem_append_left _ hx⟩

/-- Each of these events is updated once, unless one before it asks to exit; no other event is
updated. -/
structure Updated (active : List Nat) (calls : List (Call T)) : Prop where
  others : ∀ i ∉ active, updates i calls = 0 ∧ ¬ UpdateExits i calls
  once : ∀ i ∈ active, (updates i calls = 1 ∧ ∀ j < i, ¬ UpdateExits j calls) ∨
    (updates i calls = 0 ∧ ∃ j < i, UpdateExits j calls)

namespace Updated

variable {active rest : List Nat} {calls log : List (Call T)} {i : Nat}

theorem nil : Updated [] ([] : List (Call T)) where
  others _ _ := ⟨rfl, fun ⟨_, h⟩ => nomatch h⟩
  once _ hi := nomatch hi

/-- An update of an event that comes before all of them, and goes on. -/
theorem update (h : Updated rest calls) (hi : ∀ j ∈ rest, i < j) (x : T) {answer : EventStatus}
    (hanswer : answer ≠ .exit) :
    Updated (i :: rest) (.event i (.update x answer) :: calls) := by
  have hasks : (Call.event i (.update x answer)).asksExit = false := by
    cases answer with
    | exit => exact absurd rfl hanswer
    | ongoing => rfl
    | finished => rfl
  have hexits := updateExits_cons_of_not hasks
  have hout : i ∉ rest := fun hmem => Nat.lt_irrefl i (hi i hmem)
  refine ⟨fun k hk => ?_, fun k hk => ?_⟩
  · obtain ⟨hne, hk⟩ := not_or.1 (mt List.mem_cons.2 hk)
    rw [updates_cons_of_ne (Ne.symm hne), hexits]
    exact h.others k hk
  · rcases List.mem_cons.1 hk with rfl | hk
    · -- what asks to exit is in `rest`, and thus comes later
      refine Or.inl ⟨?_, fun j hj hexit => ?_⟩
      · rw [updates_cons_self, (h.others k hout).1]
        rfl
      · rw [hexits] at hexit
        by_cases hmem : j ∈ rest
        · have := hi j hmem
          omega
        · exact (h.others j hmem).2 hexit
    · have hne : i ≠ k := Nat.ne_of_lt (hi k hk)
      rw [updates_cons_of_ne hne]
      simp only [hexits]
      exact h.once k hk

theorem close (h : Updated active calls) (i : Nat) :
    Updated active (.event i .close :: calls) := by
  have hexits : ∀ k, UpdateExits k (.event i .close :: calls) ↔ UpdateExits k calls :=
    fun k => updateExits_cons_of_not rfl k calls
  have hsame : ∀ k, updates k (.event i .close :: calls) = updates k calls := by
    intro k
    by_cases hk : i = k
    · subst hk
      exact updates_cons_self i .close calls
    · exact updates_cons_of_ne hk .close calls
  refine ⟨fun k hk => ?_, fun k hk => ?_⟩
  · rw [hsame, hexits]
    exact h.others k hk
  · rw [hsame]
    simp only [hexits]
    exact h.once k hk

/-- An update that asks to exit is the only one, and comes before all the others. -/
theorem exit (hi : ∀ j ∈ rest, i < j) (x : T) :
    Updated (i :: rest) [.event i (.update x .exit)] := by
  have hself : ∀ j, UpdateExits j [Call.event i (.update x .exit)] → j = i := by
    rintro j ⟨y, hy⟩
    injection List.mem_singleton.1 hy
  refine ⟨fun k hk => ?_, fun k hk => ?_⟩
  · have hne : k ≠ i := List.ne_of_not_mem_cons hk
    exact ⟨updates_cons_of_ne (Ne.symm hne) _ _, fun hexit => hne (hself k hexit)⟩
  · rcases List.mem_cons.1 hk with rfl | hk
    · refine Or.inl ⟨updates_cons_self k _ _, fun j hj hexit => ?_⟩
      have := hself j hexit
      omega
    · have hlt : i < k := hi k hk
      exact Or.inr ⟨updates_cons_of_ne (Nat.ne_of_lt hlt) _ _, i, hlt, x, List.mem_cons_self⟩

theorem append (h : Updated active calls) (hlog : Updateless log) :
    Updated active (calls ++ log) := by
  have hsame : ∀ k, updates k (calls ++ log) = updates k calls := by
    intro k
    rw [updates_append, hlog.updates_eq_zero, Nat.add_zero]
  have hexits := fun k => hlog.updateExits_append k calls
  refine ⟨fun k hk => ?_, fun k hk => ?_⟩
  · rw [hsame, hexits]
    exact h.others k hk
  · rw [hsame]
    simp only [hexits]
    exact h.once k hk

end Updated

end Call

namespace Playback

/-! ## The calls of a step -/

theorem updateless_closes (active : List Nat) :
    Call.Updateless (closes active : List (Call T)) := by
  intro i x answer h
  obtain ⟨_, -, heq⟩ := List.mem_map.1 h
  cases heq

theorem updateless_trail (p : Playback T H K C) : Call.Updateless p.trail := by
  intro i x answer h
  rcases p.trail_cases with ht | ht
  · rw [ht] at h
    cases h
  · rw [ht] at h
    exact nomatch List.mem_singleton.1 h

variable [Scalar T]

theorem TriggerPass.updateless {now : T} {pending : List (Event T H)} {cursor : Nat}
    {active : List Nat} {log : List (Call T)} {reached : Reached} {cursor' : Nat}
    {active' : List Nat}
    (hpass : TriggerPass now pending cursor active log reached cursor' active') :
    Call.Updateless log := by
  induction hpass with
  | all => exact .nil
  | future _ => exact .nil
  | finished _ _ ih => exact ih.trigger _ _
  | ongoing _ _ ih => exact ih.trigger _ _
  | exit _ => exact Call.Updateless.nil.trigger _ _

theorem Advanced.updateless {p p' : Playback T H K C} {log : List (Call T)} {ends : Bool}
    (hadv : Advanced p log ends p') : Call.Updateless log := by
  cases hadv with
  | future hpass => exact hpass.updateless
  | busy hpass _ => exact hpass.updateless
  | finished hpass => exact hpass.updateless.append (updateless_trail p)
  | exited hpass =>
    exact (hpass.updateless.append (updateless_closes _)).append (updateless_trail p)

/-- Updating goes over the ongoing events in order. -/
theorem UpdatePass.updated {events : List (Event T H)} {now : T} {active : List Nat}
    {log : List (Call T)} {exited : Bool} {still : List Nat}
    (hpass : UpdatePass events now active log exited still)
    (hsorted : active.Pairwise (· < ·)) : Call.Updated active log := by
  induction hpass with
  | nil => exact .nil
  | ongoing _ _ ih =>
    obtain ⟨hfirst, hrest⟩ := List.pairwise_cons.1 hsorted
    exact (ih hrest).update hfirst _ EventStatus.noConfusion
  | finished _ _ ih =>
    obtain ⟨hfirst, hrest⟩ := List.pairwise_cons.1 hsorted
    exact ((ih hrest).close _).update hfirst _ EventStatus.noConfusion
  | exit _ => exact .exit (List.pairwise_cons.1 hsorted).1 _

/-- The next event is due at `now`. -/
def NextDue (p : Playback T H K C) (now : T) : Prop :=
  ∃ e, p.timeline.events[p.cursor]? = some e ∧ ¬ now < e.time

/-- With something ongoing, a playback waits exactly if nothing is due. -/
theorem isWaiting_iff {p : Playback T H K C} (hactive : p.active ≠ []) :
    p.isWaiting = true ↔ ¬ p.NextDue p.currentTime := by
  unfold isWaiting NextDue
  cases hnext : p.timeline.events[p.cursor]? with
  | none => simp [hactive]
  | some e => simp

/-- A step that finds something due updates nothing; every other step updates what is
ongoing. -/
theorem Stepped.updated_or {p p' : Playback T H K C} {log : List (Call T)} {ends : Bool}
    (hp : p.Sound) (hactive : p.active ≠ []) (hstep : Stepped p log ends p') :
    (p.NextDue p.currentTime → Call.Updateless log) ∧
      (¬ p.NextDue p.currentTime → Call.Updated p.active log) := by
  have hwaiting := isWaiting_iff hactive
  cases hstep with
  | exited hwait hpass =>
    refine ⟨fun hdue => absurd hdue (hwaiting.1 hwait), fun _ => ?_⟩
    exact ((hpass.updated hp.sorted).append (updateless_closes _)).append (updateless_trail p)
  | updated hwait hpass hadv =>
    refine ⟨fun hdue => absurd hdue (hwaiting.1 hwait), fun _ => ?_⟩
    exact (hpass.updated hp.sorted).append hadv.updateless
  | due hwait hadv =>
    refine ⟨fun _ => hadv.updateless, fun hdue => ?_⟩
    rw [hwaiting.2 hdue] at hwait
    cases hwait

/-! ## Events whose time is up -/

/-- Updating drops an event that reports its end, unless it is cut short. -/
theorem not_mem_updateOngoing {events : List (Event T H)} {now : T} {i : Nat} {e : Event T H}
    (he : events[i]? = some e) (hover : ∀ h, (e.update now h).1 = .finished)
    (active : List Nat) (h : H) (hstays : (updateOngoing events now active h).1 = false) :
    i ∉ (updateOngoing events now active h).2.1 := by
  induction active generalizing h with
  | nil => exact List.not_mem_nil
  | cons j rest ih =>
    unfold updateOngoing at hstays ⊢
    cases hj : events[j]? with
    | none =>
      rw [hj] at hstays
      exact ih h hstays
    | some e' =>
      rw [hj] at hstays
      dsimp only at hstays ⊢
      rcases hu : e'.update now h with ⟨answer, h'⟩
      rw [hu] at hstays
      cases answer with
      | finished => exact ih _ hstays
      | exit => cases hstays
      | ongoing =>
        intro hmem
        rcases List.mem_cons.1 hmem with rfl | hmem
        · -- the event itself would have reported its end
          have hfinished := hover h
          rw [Option.some.inj (he.symm.trans hj), hu] at hfinished
          cases hfinished
        · exact ih h' hstays hmem

/-- What was ongoing stays so in the part of a step after the updates, unless an exit is asked
for; and of the events before the cursor nothing else does. -/
theorem Advanced.mem_active {p p' : Playback T H K C} {log : List (Call T)} {ends : Bool}
    (hadv : Advanced p log ends p') {i : Nat} :
    ((∀ call ∈ log, call.asksExit = false) → i ∈ p.active → i ∈ p'.active) ∧
      (i < p.cursor → i ∈ p'.active → i ∈ p.active) := by
  have hpassed : ∀ {log reached cursor active},
      TriggerPass p.currentTime p.pending p.cursor p.active log reached cursor active →
      (i ∈ p.active → i ∈ active) ∧ (i < p.cursor → i ∈ active → i ∈ p.active) := by
    intro log reached cursor active hpass
    obtain ⟨-, -, started, rfl, -, hstarted⟩ := hpass.active_eq
    refine ⟨fun hi => List.mem_append_left _ hi, fun hlt hi => ?_⟩
    rcases List.mem_append.1 hi with hi | hi
    · exact hi
    · have := hstarted i hi
      omega
  cases hadv with
  | future hpass => exact ⟨fun _ => (hpassed hpass).1, (hpassed hpass).2⟩
  | busy hpass _ => exact ⟨fun _ => (hpassed hpass).1, (hpassed hpass).2⟩
  | finished hpass => exact ⟨fun _ => (hpassed hpass).1, fun _ hi => nomatch hi⟩
  | @exited log cursor active hpass =>
    refine ⟨fun hnone => ?_, fun _ hi => nomatch hi⟩
    obtain ⟨before, hlog, -⟩ := hpass.asksExit.2 rfl
    have hasks := hnone (.event cursor (.trigger .exit)) (by simp [hlog])
    cases hasks

/-- A step that finds something due leaves everything ongoing, unless an exit is asked for. -/
theorem Stepped.mem_active_of_due {p p' : Playback T H K C} {log : List (Call T)} {ends : Bool}
    (hstep : Stepped p log ends p') (hdue : p.NextDue p.currentTime) {i : Nat}
    (hi : i ∈ p.active) (hnone : ∀ call ∈ log, call.asksExit = false) : i ∈ p'.active := by
  have hwaiting := isWaiting_iff (List.ne_nil_of_mem hi)
  cases hstep with
  | exited hwait _ => exact absurd hdue (hwaiting.1 hwait)
  | updated hwait _ _ => exact absurd hdue (hwaiting.1 hwait)
  | due _ hadv => exact hadv.mem_active.1 hnone hi

/-- A step that finds nothing due leaves no event ongoing whose time is up. -/
theorem not_mem_active_proceed [Builder K H C] {p : Playback T H K C} (hp : p.Sound)
    (hwait : p.isWaiting = true) {i : Nat} {e : Event T H} (hi : i < p.cursor)
    (he : p.timeline.events[i]? = some e)
    (hover : ∀ h, (e.update p.currentTime h).1 = .finished) (h : H) :
    i ∉ (p.proceed h).2.1.active := by
  have hout := not_mem_updateOngoing he hover p.active h
  have hsub := updateOngoing_sublist p.timeline.events p.currentTime p.active h
  unfold proceed
  rw [if_pos hwait]
  rcases hupd : updateOngoing p.timeline.events p.currentTime p.active h with
    ⟨exited, still, h'⟩
  rw [hupd] at hout hsub
  cases exited with
  | true =>
    dsimp only
    rw [active_finish]
    exact List.not_mem_nil
  | false =>
    obtain ⟨log, -, hadv⟩ := advance_recorded (id : Call T → Call T)
      (p := { p with active := still }) hp.cursor_le
      (fun j hj => hp.active_lt j (hsub.subset hj)) ⟨h', []⟩
    exact fun hmem => hout rfl (hadv.mem_active.2 hi hmem)

/-- An event whose time is up is over after a step exactly if nothing was due in it, or an exit
was asked for. -/
theorem not_mem_active_iff [Builder K H C] {p : Playback T H K C} (hp : p.Sound)
    (hrun : p.phase = .running) {h : H} {log : List (Call T)} {ends : Bool}
    (hstep : Stepped p log ends (p.proceed h).2.1) {i : Nat} {e : Event T H} (hi : i ∈ p.active)
    (he : p.timeline.events[i]? = some e)
    (hover : ∀ h, (e.update p.currentTime h).1 = .finished) :
    i ∉ (p.proceed h).2.1.active ↔
      ¬ p.NextDue p.currentTime ∨ ∃ call ∈ log, call.asksExit = true := by
  have hwaiting := isWaiting_iff (List.ne_nil_of_mem hi)
  constructor
  · intro hout
    by_contra hneither
    obtain ⟨hdue, hnone⟩ := not_or.1 hneither
    have hnone : ∀ call ∈ log, call.asksExit = false := by simpa using hnone
    exact hout (hstep.mem_active_of_due (not_not.1 hdue) hi hnone)
  · rintro (hdue | ⟨call, hmem, hasks⟩)
    · exact not_mem_active_proceed hp (hwaiting.2 hdue) (hp.active_lt i hi) he hover h
    · rcases hstep.exit_or hp hrun with hnone | ⟨-, -, hended⟩
      · rw [hnone call hmem] at hasks
        cases hasks
      · rw [hended]
        exact List.not_mem_nil

/-! ## Along a run -/

variable [Host H T] [Builder K H C]

/-- Along every run, a step of a playback that runs: if the next event is due, none of the
ongoing events is updated; if not, each of them is updated once, unless one before it asks to
exit. An ongoing event that is over when its time is up, as spans and events without an update
of their own are, is over after the step exactly if its time is up and nothing was due, or an
exit was asked for. -/
theorem updates_unless_due (t : Timeline T H) (target : Option (Target K C))
    (moves : List (Move H)) (h : H) :
    let played := play moves (opening t target) h
    let noted := play (moves.map Move.journaled) ((opening t target).recorded id)
      (⟨h, []⟩ : Journaled (Call T) H)
    let now := played.1.currentTime + Host.deltaTime played.2
    let plain := played.1.step played.2
    let next := noted.1.step noted.2
    let ongoing := Call.ongoing noted.2.journal
    (next.1 = plain.1 ∧ next.2.1 = plain.2.1.recorded id ∧ next.2.2.host = plain.2.2) ∧
    (played.1.phase = .running → ∃ log, next.2.2.journal = noted.2.journal ++ log ∧
      (played.1.NextDue now → ∀ i ∈ ongoing, Call.updates i log = 0) ∧
      (¬ played.1.NextDue now → ∀ i ∈ ongoing,
        (Call.updates i log = 1 ∧ ∀ j < i, ¬ Call.UpdateExits j log) ∨
          (Call.updates i log = 0 ∧ ∃ j < i, Call.UpdateExits j log)) ∧
      ∀ i ∈ ongoing, ∀ e, t.events[i]? = some e →
        (∀ elapsed duration h, (e.action.update elapsed duration h).1 = .until elapsed duration) →
        e.duration ≤ now - e.time →
        (i ∉ Call.ongoing next.2.2.journal ↔
          ¬ played.1.NextDue now ∨ ∃ call ∈ log, call.asksExit = true)) := by
  intro played noted now plain next ongoing
  obtain ⟨calls, log, hnoted, hrec, hsound, hfollows, -, hstep⟩ :=
    step_ongoing t target moves h
  have hnoted : noted = (played.1.recorded id, ⟨played.2, calls⟩) := hnoted
  have hnext : next = (plain.1, plain.2.1.recorded id, ⟨plain.2.2, calls ++ log⟩) := by
    show noted.1.step noted.2 = _
    rw [hnoted]
    exact hrec
  have hongoing : ongoing = played.1.active := by
    show Call.ongoing noted.2.journal = _
    rw [hnoted]
    exact hfollows.ongoing
  rw [hnext, hnoted, hongoing]
  refine ⟨⟨rfl, rfl, rfl⟩, fun hphase => ?_⟩
  have hrun : played.1.phase.isTerminal = false := by
    rw [hphase]
    rfl
  have hsound : (played.1.atTime now).Sound := hsound.atTime now
  have hproceed : plain = (played.1.atTime now).proceed played.2 := step_eq_proceed hrun _
  have hstep : Stepped (played.1.atTime now) log plain.1.isDone plain.2.1 := hstep hrun
  have hnextongoing : Call.ongoing (calls ++ log) = plain.2.1.active := by
    rw [Call.ongoing_append, hfollows.ongoing]
    exact Stepped.follow (p := played.1.atTime now) hsound hstep
  refine ⟨log, rfl, fun hdue i hi => ?_, fun hdue i hi => ?_, fun i hi e he hdefault hup => ?_⟩
  · have hnone := (hstep.updated_or hsound (List.ne_nil_of_mem hi)).1 hdue
    exact hnone.updates_eq_zero i
  · have hupdated := (hstep.updated_or hsound (List.ne_nil_of_mem hi)).2 hdue
    exact hupdated.once i hi
  · have hover : ∀ h, (e.update now h).1 = .finished := by
      intro h
      show (e.action.update (now - e.time) e.duration h).1 = _
      rw [hdefault]
      exact EventStatus.until_eq_finished_iff.2 hup
    rw [hnextongoing, hproceed]
    rw [hproceed] at hstep
    rw [← hfollows.timeline] at he
    exact not_mem_active_iff hsound rfl hstep hi he hover

/-- A span without duration at the start, and a call after one second and after five: in the
step that reaches the first call, the span is ongoing, is not called, and stays ongoing. -/
theorem starved_by_due_events :
    let w := World.ofSeed none
    let events : List (Event Float32 World) :=
      [.span 0 0 fun _ w => w, .call 1 id, .call 5 id]
    let p : Playback Float32 World Empty Unit := opening ⟨"dense", events⟩ none
    let moves : List (Move World) := [.step, .outside (·.beginTick 1)]
    let played := play moves p w
    let noted := play (moves.map Move.journaled) (p.recorded id)
      (⟨w, []⟩ : Journaled (Call Float32) World)
    let next := noted.1.step noted.2
    Timeline.ofEvents "dense" events = .ok ⟨"dense", events⟩ ∧ played.1.phase = .running ∧
    0 ∈ Call.ongoing noted.2.journal ∧
    next.2.2.journal = noted.2.journal ++ [.event 1 (.trigger .finished)] ∧
    0 ∈ Call.ongoing next.2.2.journal := by
  refine ⟨rfl, rfl, ?_, ?_, ?_⟩ <;> decide

end Playback

end Cueflow
