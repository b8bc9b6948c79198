import Cueflow.Proofs.Schedule.Ongoing
import Cueflow.Proofs.Schedule.Punctuality
/-!
# The shape of a playback

A playback keeps a cursor into its timeline and the indices of the ongoing events beside it.
The passes look indices up and skip one that the timeline does not have; nothing in their types
says that they never meet one.

> `representation`: after any run the lists fit the timeline and the phase. Every index that a
> step or an abort looks up is in range, so look-ups that may fail give the same answers
> (`step?`, `abort?`); and the two counts are what the calls so far tell: the events not yet
> triggered, and the events that went ongoing less those that were closed.

The part about the lists alone is `Sound`, which every step keeps already. What is added here
relates them to the calls. A pass leaves as many events ongoing as there were, and one more for
each call that begins an event, and one less for each that closes one (`Balanced`); the
relations of the passes have one case for each kind of call, and so do the proofs.
-/

namespace Cueflow

variable {T H K C : Type}

/-! ## Look-ups that may fail -/

namespace Playback

section Checked

variable [Scalar T]

/-- `updateOngoing`, if every index that it looks up is one of an event. -/
def updateOngoing? (events : List (Event T H)) (now : T) :
    List Nat → H → Option (Bool × List Nat × H)
  | [], h => some (false, [], h)
  | i :: rest, h =>
    match events[i]? with
    | none => none
    | some e =>
      match e.update now h with
      | (.ongoing, h) =>
        (updateOngoing? events now rest h).map fun
          | (exited, still, h) => (exited, i :: still, h)
      | (.finished, h) => updateOngoing? events now rest (e.close h)
      | (.exit, h) => some (true, i :: rest, h)

/-- `closeAll`, if every index that it looks up is one of an event. -/
def closeAll? (events : List (Event T H)) : List Nat → H → Option H
  | [], h => some h
  | i :: rest, h =>
    match events[i]? with
    | none => none
    | some e => closeAll? events rest (e.close h)

/-- `finish`, with the closing checked. -/
def finish? [Builder K H C] (p : Playback T H K C) (phase : PlayPhase) (active : List Nat)
    (h : H) : Option (StepResult C × Playback T H K C × H) :=
  (closeAll? p.timeline.events active h).map fun h => p.finish phase [] h

/-- `advance`, with the closing checked. -/
def advance? [Builder K H C] (p : Playback T H K C) (h : H) :
    Option (StepResult C × Playback T H K C × H) :=
  match triggerDue p.currentTime p.pending p.cursor p.active h with
  | (.future, cursor, active, h) => some (.suspend, { p with cursor, active }, h)
  | (.exit, cursor, active, h) => finish? { p with cursor, active } .exited active h
  | (.all, cursor, active, h) =>
    if active.isEmpty then finish? { p with cursor, active } .finished [] h
    else some (.suspend, { p with cursor, active }, h)

/-- `proceed`, with the updates and the closings checked. -/
def proceed? [Builder K H C] (p : Playback T H K C) (h : H) :
    Option (StepResult C × Playback T H K C × H) :=
  if p.isWaiting then
    (updateOngoing? p.timeline.events p.currentTime p.active h).bind fun
      | (true, active, h) => finish? p .exited active h
      | (false, active, h) => advance? { p with active } h
  else advance? p h

/-- `step`, with the updates and the closings checked. -/
def step? [Host H T] [Builder K H C] (p : Playback T H K C) (h : H) :
    Option (StepResult C × Playback T H K C × H) :=
  if p.phase.isTerminal then some (.done none, p, h)
  else (p.atTime (p.currentTime + Host.deltaTime h)).proceed? h

/-- `abort`, with the closing checked. -/
def abort? (p : Playback T H K C) (h : H) : Option (Playback T H K C × H) :=
  if p.phase.isTerminal then some (p, h)
  else (closeAll? p.timeline.events p.active h).map fun h => (p.aborted, h)

theorem updateOngoing?_eq {events : List (Event T H)} {now : T} {active : List Nat}
    (hactive : ∀ i ∈ active, i < events.length) (h : H) :
    updateOngoing? events now active h = some (updateOngoing events now active h) := by
  induction active generalizing h with
  | nil => rfl
  | cons i rest ih =>
    have hi : i < events.length := hactive i List.mem_cons_self
    have hrest : ∀ j ∈ rest, j < events.length := fun j hj => hactive j (List.mem_cons_of_mem _ hj)
    simp only [updateOngoing?, updateOngoing, List.getElem?_eq_getElem hi]
    rcases events[i].update now h with ⟨answer, h'⟩
    cases answer with
    | ongoing => exact congrArg (Option.map _) (ih hrest h')
    | finished => exact ih hrest _
    | exit => rfl

omit [Scalar T] in
theorem closeAll?_eq {events : List (Event T H)} {active : List Nat}
    (hactive : ∀ i ∈ active, i < events.length) (h : H) :
    closeAll? events active h = some (closeAll events active h) := by
  induction active generalizing h with
  | nil => rfl
  | cons i rest ih =>
    simp only [closeAll?, closeAll, List.getElem?_eq_getElem (hactive i List.mem_cons_self)]
    exact ih (fun j hj => hactive j (List.mem_cons_of_mem _ hj)) _

omit [Scalar T] in
theorem finish?_eq [Builder K H C] {p : Playback T H K C} {active : List Nat}
    (hactive : ∀ i ∈ active, i < p.timeline.size) (phase : PlayPhase) (h : H) :
    p.finish? phase active h = some (p.finish phase active h) := by
  unfold finish?
  rw [closeAll?_eq hactive]
  rfl

/-- What is ongoing after the triggers of a step is part of the timeline. -/
theorem triggerDue_lt_size {p : Playback T H K C} (hcursor : p.cursor ≤ p.timeline.size)
    (hactive : ∀ i ∈ p.active, i < p.cursor) (h : H) :
    ∀ i ∈ (triggerDue p.currentTime p.pending p.cursor p.active h).2.2.1,
      i < p.timeline.size := by
  obtain ⟨log, -, hpass⟩ := triggerDue_recorded (id : Call T → Call T) p.currentTime p.pending
    p.cursor p.active ⟨h, []⟩
  exact hpass.lt_size hcursor hactive

theorem advance?_eq [Builder K H C] {p : Playback T H K C}
    (hcursor : p.cursor ≤ p.timeline.size) (hactive : ∀ i ∈ p.active, i < p.cursor) (h : H) :
    p.advance? h = some (p.advance h) := by
  have hrange := triggerDue_lt_size hcursor hactive h
  unfold advance? advance
  rcases htrig : triggerDue p.currentTime p.pending p.cursor p.active h with
    ⟨reached, cursor, active, h'⟩
  rw [htrig] at hrange
  cases reached with
  | future => rfl
  | exit => exact finish?_eq (p := { p with cursor, active }) hrange .exited h'
  | all =>
    dsimp only
    split
    · exact finish?_eq (p := { p with cursor, active }) (List.forall_mem_nil _) .finished h'
    · rfl

theorem Sound.proceed?_eq [Builder K H C] {p : Playback T H K C} (hp : p.Sound) (h : H) :
    p.proceed? h = some (p.proceed h) := by
  have hsub := updateOngoing_sublist p.timeline.events p.currentTime p.active h
  unfold proceed? proceed
  rw [updateOngoing?_eq hp.active_lt_size, Option.bind_some]
  by_cases hwait : p.isWaiting = true
  · rw [if_pos hwait, if_pos hwait]
    revert hsub
    rcases updateOngoing p.timeline.events p.currentTime p.active h with ⟨exited, still, h'⟩
    intro hsub
    -- updating leaves only events that were ongoing, with indices in range as before
    cases exited with
    | true => exact finish?_eq (fun i hi => hp.active_lt_size i (hsub.subset hi)) .exited h'
    | false =>
      exact advance?_eq (p := { p with active := still }) hp.cursor_le
        (fun i hi => hp.active_lt i (hsub.subset hi)) h'
  · rw [if_neg hwait, if_neg hwait]
    exact advance?_eq hp.cursor_le hp.active_lt h

/-- A step of a playback in shape looks up no index outside the timeline. -/
theorem Sound.step?_eq [Host H T] [Builder K H C] {p : Playback T H K C} (hp : p.Sound) (h : H) :
    p.step? h = some (p.step h) := by
  unfold step?
  by_cases hover : p.phase.isTerminal = true
  · rw [if_pos hover, step_of_isTerminal hover]
  · rw [if_neg hover, step_eq_proceed (by simpa using hover)]
    exact (hp.atTime _).proceed?_eq h

omit [Scalar T] in
/-- Neither does an abort. -/
theorem Sound.abort?_eq {p : Playback T H K C} (hp : p.Sound) (h : H) :
    p.abort? h = some (p.abort h) := by
  unfold abort? Playback.abort
  split
  · rfl
  · rw [closeAll?_eq hp.active_lt_size]
    rfl

end Checked

end Playback

/-! ## Beginnings and closings -/

namespace Call

/-- The trigger of an event that went ongoing. -/
def isBeginning : Call T → Bool
  | .event _ (.trigger .ongoing) => true
  | .event _ (.trigger .finished) | .event _ (.trigger .exit) | .event _ (.update _ _)
  | .event _ .close | .condition _ _ _ | .logic _ _ | .resolve => false

/-- The closing of an event. -/
def isClosing : Call T → Bool
  | .event _ .close => true
  | .event _ (.trigger _) | .event _ (.update _ _) | .condition _ _ _ | .logic _ _
  | .resolve => false

end Call

/-- With `before` events ongoing at first, these calls leave `after` of them. -/
def Balanced (before : Nat) (calls : List (Call T)) (after : Nat) : Prop :=
  before + calls.countP Call.isBeginning = after + calls.countP Call.isClosing

namespace Balanced

theorem nil (n : Nat) : Balanced n ([] : List (Call T)) n := rfl

/-- Calls one after the other. -/
theorem append {before middle after : Nat} {calls calls' : List (Call T)}
    (h : Balanced before calls middle) (h' : Balanced middle calls' after) :
    Balanced before (calls ++ calls') after := by
  unfold Balanced at *
  rw [List.countP_append, List.countP_append]
  omega

/-- One event more that is ongoing all along. -/
theorem succ {before after : Nat} {calls : List (Call T)} (h : Balanced before calls after) :
    Balanced (before + 1) calls (after + 1) := by
  unfold Balanced at *
  omega

theorem beginning {before after i : Nat} {calls : List (Call T)}
    (h : Balanced (before + 1) calls after) :
    Balanced before (.event i (.trigger .ongoing) :: calls) after :=
  append (show Balanced before [.event i (.trigger .ongoing)] (before + 1) from rfl) h

theorem closing {before after i : Nat} {calls : List (Call T)} (h : Balanced before calls after) :
    Balanced (before + 1) (.event i .close :: calls) after :=
  append (show Balanced (before + 1) [.event i .close] before from rfl) h

/-- A call that neither begins nor closes an event does not count. -/
theorem other {before after : Nat} {call : Call T} {calls : List (Call T)}
    (h : Balanced before calls after) (hbeginning : call.isBeginning = false)
    (hclosing : call.isClosing = false) : Balanced before (call :: calls) after := by
  unfold Balanced at *
  rw [List.countP_cons_of_neg (by simp [hbeginning]), List.countP_cons_of_neg (by simp [hclosing])]
  exact h

end Balanced

namespace Playback

/-- Closing leaves nothing ongoing. -/
theorem balanced_closes (active : List Nat) :
    Balanced active.length (closes active : List (Call T)) 0 := by
  induction active with
  | nil => exact .nil 0
  | cons i rest ih => exact ih.closing

theorem balanced_trail (p : Playback T H K C) (n : Nat) : Balanced n p.trail n := by
  rcases p.trail_cases with h | h <;> rw [h] <;> rfl

variable [Scalar T]

/-- Updating leaves fewer events ongoing by those that it closes. -/
theorem UpdatePass.balanced {events : List (Event T H)} {now : T} {active : List Nat}
    {log : List (Call T)} {exited : Bool} {still : List Nat}
    (hpass : UpdatePass events now active log exited still) :
    Balanced active.length log still.length := by
  induction hpass with
  | nil => exact .nil 0
  | ongoing _ _ ih => exact ih.succ.other rfl rfl
  | finished _ _ ih => exact ih.closing.other rfl rfl
  | exit _ => exact (Balanced.nil _).other rfl rfl

/-- Triggering leaves more events ongoing by those that begin. -/
theorem TriggerPass.balanced {now : T} {pending : List (Event T H)} {cursor : Nat}
    {active : List Nat} {log : List (Call T)} {reached : Reached} {cursor' : Nat}
    {active' : List Nat}
    (hpass : TriggerPass now pending cursor active log reached cursor' active') :
    Balanced active.length log active'.length := by
  induction hpass with
  | all => exact .nil _
  | future _ => exact .nil _
  | finished _ _ ih => exact ih.other rfl rfl
  | ongoing _ _ ih =>
    rw [List.length_append] at ih
    exact ih.beginning
  | exit _ => exact (Balanced.nil _).other rfl rfl

/-- If an event lies ahead, something is still scheduled. -/
theorem TriggerPass.lt_of_future {now : T} {pending : List (Event T H)} {cursor : Nat}
    {active : List Nat} {log : List (Call T)} {reached : Reached} {cursor' : Nat}
    {active' : List Nat}
    (hpass : TriggerPass now pending cursor active log reached cursor' active')
    (hfuture : reached = .future) : cursor' < cursor + pending.length := by
  induction hpass with
  | all => cases hfuture
  | exit _ => cases hfuture
  | future _ => simp
  | finished _ _ ih =>
    have := ih hfuture
    simp only [List.length_cons]
    omega
  | ongoing _ _ ih =>
    have := ih hfuture
    simp only [List.length_cons]
    omega

/-- What a step does beyond keeping the shape: it balances the calls that begin events with those
that close them, and it suspends only with something scheduled or ongoing. -/
structure Weighed (p : Playback T H K C) (log : List (Call T)) (ends : Bool)
    (p' : Playback T H K C) : Prop where
  balanced : Balanced p.active.length log p'.active.length
  busy : ends = false → p'.cursor < p.timeline.size ∨ p'.active ≠ []

theorem Advanced.weighed {p p' : Playback T H K C} {log : List (Call T)} {ends : Bool}
    (hcursor : p.cursor ≤ p.timeline.size) (hadv : Advanced p log ends p') :
    Weighed p log ends p' := by
  cases hadv with
  | future hpass =>
    refine ⟨hpass.balanced, fun _ => Or.inl ?_⟩
    rw [← cursor_add_pending hcursor]
    exact hpass.lt_of_future rfl
  | busy hpass hactive => exact ⟨hpass.balanced, fun _ => Or.inr hactive⟩
  | finished hpass =>
    exact ⟨hpass.balanced.append (balanced_trail p 0), fun hends => nomatch hends⟩
  | @exited _ _ active hpass =>
    exact ⟨(hpass.balanced.append (balanced_closes active)).append (balanced_trail p 0),
      fun hends => nomatch hends⟩

theorem Stepped.weighed {p p' : Playback T H K C} {log : List (Call T)} {ends : Bool}
    (hcursor : p.cursor ≤ p.timeline.size) (hstep : Stepped p log ends p') :
    Weighed p log ends p' := by
  cases hstep with
  | @exited _ still _ hpass =>
    exact ⟨(hpass.balanced.append (balanced_closes still)).append (balanced_trail p 0),
      fun hends => nomatch hends⟩
  | @updated _ _ still _ _ _ hpass hadv =>
    have hnext := Advanced.weighed (p := { p with active := still }) hcursor hadv
    exact ⟨hpass.balanced.append hnext.balanced, hnext.busy⟩
  | due _ hadv => exact hadv.weighed hcursor

/-! ## Along a run -/

/-- The calls so far and the lists of the playback agree, and the phase says what is left. -/
structure Tallied (t : Timeline T H) (p : Playback T H K C) (calls : List (Call T)) : Prop where
  follows : Follows t p calls
  clock : p.phase = .notStarted → p.currentTime = 0
  busy : p.phase = .running → p.cursor < t.size ∨ p.active ≠ []
  initial : ∃ k ≤ t.size, Call.triggered calls = List.range k
  passed : p.phase.isTerminal = false → Call.triggered calls = List.range p.cursor
  balanced : Balanced 0 calls p.active.length

namespace Tallied

variable {t : Timeline T H} {p p' : Playback T H K C} {calls log : List (Call T)} {ends : Bool}
  {now : T}

theorem opening (t : Timeline T H) (target : Option (Target K C)) :
    Tallied t (opening t target) [] where
  follows := .opening t target
  clock _ := rfl
  busy hrun := nomatch hrun
  initial := ⟨0, Nat.zero_le _, rfl⟩
  passed _ := rfl
  balanced := .nil 0

theorem stepped (h : Tallied t p calls) (hp : p.Sound) (hrun : p.phase.isTerminal = false)
    (hstep : Stepped (p.atTime now) log ends p') : Tallied t p' (calls ++ log) := by
  obtain ⟨n, hreach⟩ := hstep.reach
  have hweighed := hstep.weighed (hp.atTime now).cursor_le
  have htriggered : Call.triggered (calls ++ log) = List.range (p.cursor + n) := by
    rw [Call.triggered_append, h.passed hrun, hreach.triggered]
    exact range_append p.cursor n
  have hsize : p.cursor + p.pending.length = t.size := by
    rw [cursor_add_pending hp.cursor_le, h.follows.timeline]
  have hle : n ≤ p.pending.length := hreach.le
  refine ⟨h.follows.stepped hp hstep, fun hun => ?_, fun hrun' => ?_, ⟨_, by omega, htriggered⟩,
    fun hrun' => ?_, h.balanced.append hweighed.balanced⟩
  · -- a step that suspends leaves the phase of a playback that runs
    cases ends with
    | true =>
      have hover := hreach.terminal rfl
      rw [hun] at hover
      cases hover
    | false =>
      have hphase : p'.phase = .running := (hreach.suspended rfl).2.1
      rw [hun] at hphase
      cases hphase
  · cases ends with
    | true =>
      have hover := hreach.terminal rfl
      rw [hrun'] at hover
      cases hover
    | false =>
      have hbusy : p'.cursor < p.timeline.size ∨ p'.active ≠ [] := hweighed.busy rfl
      rw [h.follows.timeline] at hbusy
      exact hbusy
  · rw [htriggered, (hreach.running hrun').1]
    rfl

theorem aborted (h : Tallied t p calls) : Tallied t p.aborted (calls ++ closes p.active) where
  follows := h.follows.aborted
  clock hun := nomatch hun
  busy hrun := nomatch hrun
  initial := by
    rw [Call.triggered_append, triggered_closes, List.append_nil]
    exact h.initial
  passed hrun := nomatch hrun
  balanced := h.balanced.append (balanced_closes p.active)

end Tallied

omit [Scalar T] in
/-- Of `k + m` events, `m` are not among the first `k`. -/
theorem length_filter_not_range (k m : Nat) :
    ((List.range (k + m)).filter fun i => i ∉ List.range k).length = m := by
  have hfirst : (List.range k).filter (fun i => i ∉ List.range k) = [] :=
    List.filter_eq_nil_iff.2 fun i hi => by simp [List.mem_range.1 hi]
  have hrest : (List.range' k m).filter (fun i => i ∉ List.range k) = List.range' k m :=
    List.filter_eq_self.2 fun i hi => by simp [(List.mem_range'_1.1 hi).1]
  rw [← range_append, List.filter_append, hfirst, hrest, List.nil_append, List.length_range']

/-- After any run of steps and aborts, with ticks of any length and events that answer anything:
the cursor does not pass the end, so the count of the pending events is an exact difference; the
ongoing events are listed in the order of the timeline, which is that of their triggers, each
before the cursor, and they are the ones that the calls so far leave ongoing; no step and no abort
looks up an index outside the timeline. A playback that never stepped has its cursor and its clock
at 0 and nothing ongoing; one that is over has its cursor at the end and nothing ongoing; one that
runs has something pending or ongoing. Until it is over, the pending events are those not
triggered, and the ongoing ones are as many as went ongoing less those that were closed. Keeping
the journal changes nothing of the run. -/
theorem representation [Host H T] [Builder K H C] (t : Timeline T H)
    (target : Option (Target K C)) (moves : List (Move H)) (h : H) :
    let played := play moves (opening t target) h
    let p := played.1
    let noted := play (moves.map Move.journaled) ((opening t target).recorded id)
      (⟨h, []⟩ : Journaled (Call T) H)
    let calls := noted.2.journal
    (noted.1 = p.recorded id ∧ noted.2.host = played.2) ∧
    p.timeline = t ∧
    (p.cursor ≤ t.size ∧ p.cursor + p.pendingCount = t.size) ∧
    (p.active.Pairwise (· < ·) ∧ (∀ i ∈ p.active, i < p.cursor) ∧
      p.active = Call.ongoing calls ∧ ∃ k ≤ t.size, Call.triggered calls = List.range k) ∧
    (∀ h, p.step? h = some (p.step h) ∧ p.abort? h = some (p.abort h)) ∧
    (p.phase = .notStarted → p.cursor = 0 ∧ p.active = [] ∧ p.currentTime = 0) ∧
    (p.phase.isTerminal = true → p.cursor = t.size ∧ p.active = []) ∧
    (p.phase = .running → 0 < p.pendingCount ∨ 0 < p.activeCount) ∧
    (p.phase.isTerminal = false →
      p.pendingCount =
        ((List.range t.size).filter fun i => i ∉ Call.triggered calls).length ∧
      p.activeCount = calls.countP Call.isBeginning - calls.countP Call.isClosing ∧
      calls.countP Call.isClosing ≤ calls.countP Call.isBeginning) := by
  intro played p noted calls
  obtain ⟨log, hnoted, hsound, htallied⟩ := play_recorded (id : Call T → Call T)
    (D := fun _ => True) (I := Tallied t) (fun hp hrun h _ hstep => h.stepped hp hrun hstep)
    (fun _ _ h => h.aborted) moves (sound_opening t target) (Tallied.opening t target)
    (⟨h, []⟩ : Journaled (Call T) H) (Move.paced_true _ _ _ _)
  rw [List.nil_append] at htallied
  have hcalls : calls = log := by
    show (play (moves.map Move.journaled) ((opening t target).recorded id) ⟨h, []⟩).2.journal = _
    rw [hnoted, List.nil_append, List.map_id]
  rw [← hcalls] at htallied
  have hp : p.Sound := hsound
  have htimeline : p.timeline = t := htallied.follows.timeline
  have hcursor : p.cursor ≤ t.size := htimeline ▸ hp.cursor_le
  have hpending : p.cursor + p.pendingCount = t.size := by
    unfold pendingCount
    rw [htimeline]
    exact Nat.add_sub_of_le hcursor
  refine ⟨⟨congrArg Prod.fst hnoted, congrArg (fun x => x.2.host) hnoted⟩, htimeline,
    ⟨hcursor, hpending⟩,
    ⟨hp.sorted, hp.active_lt, htallied.follows.ongoing.symm, htallied.initial⟩,
    fun h => ⟨hp.step?_eq h, hp.abort?_eq h⟩, fun hun => ?_, fun hover => ?_, fun hrun => ?_,
    fun hrun => ?_⟩
  · exact ⟨(hp.unopened hun).1, (hp.unopened hun).2, htallied.clock hun⟩
  · exact htimeline ▸ hp.terminal hover
  · have hbusy : p.cursor < t.size ∨ p.active ≠ [] := htallied.busy hrun
    rcases hbusy with hlt | hactive
    · exact Or.inl (by omega)
    · exact Or.inr (List.length_pos_of_ne_nil hactive)
  · have hbalanced : 0 + calls.countP Call.isBeginning =
        p.activeCount + calls.countP Call.isClosing := htallied.balanced
    refine ⟨?_, by omega, by omega⟩
    rw [htallied.passed hrun, ← hpending]
    exact (length_filter_not_range p.cursor p.pendingCount).symm

end Playback

end Cueflow
