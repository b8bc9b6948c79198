import Cueflow.World.Basic
import Cueflow.Proofs.Number.BinaryClock
import Cueflow.Proofs.Schedule.Recording
/-!
# Punctuality

A timeline that was accepted is in order, and a clock that is never turned back passes its
events one after the other.

> `triggers_on_time`: the events triggered so far are the first ones of the timeline, in
> order and once each; none was triggered before its time; and a playback that is suspended
> has triggered just those whose time has come, `Timeline.dueBy` of its clock. So which
> events have been triggered depends on the time reached and not on the steps in between.

A step triggers a `Stretch` of events that starts at the cursor (`Reach`). That the stretch
ends at the right place is decided by the event after it alone; the order of the timeline
makes that one event speak for all that follow, and the clock laws let the events passed in
earlier steps stay in the past.
-/

namespace Cueflow

variable {T H K C : Type}

/-- The stretch after an initial segment completes a longer one. -/
theorem range_append (k n : Nat) : List.range k ++ List.range' k n = List.range (k + n) := by
  have happend := List.range'_append_1 (s := 0) (m := k) (n := n)
  rw [Nat.zero_add] at happend
  rw [List.range_eq_range', List.range_eq_range', happend]

/-! ## Timelines in order -/

namespace Timeline

variable [Scalar T]

/-- Every event can be placed, and none starts before one that precedes it. -/
structure Ordered (t : Timeline T H) : Prop where
  defined : ∀ e ∈ t.events, e.time ≤ e.time
  sorted : t.events.Pairwise fun e e' => e.time ≤ e'.time

/-- The indices of the events that are due when the clock shows `now`. -/
def dueBy (t : Timeline T H) (now : T) : List Nat :=
  (List.range t.size).filter fun i => t.events[i]?.all fun e => !decide (now < e.time)

/-- Every event of an accepted timeline has a time and a duration that can be placed. -/
theorem placeable_of_checkFrom {index : Nat} {previous : T} {events : List (Event T H)}
    (hcheck : checkFrom index previous events = .ok ()) :
    ∀ e ∈ events, placeable e.time = true ∧ placeable e.duration = true := by
  induction events generalizing index previous with
  | nil => exact fun e he => nomatch he
  | cons e rest ih =>
    unfold checkFrom at hcheck
    split at hcheck
    · exact nomatch hcheck
    next htime =>
    split at hcheck
    · exact nomatch hcheck
    next hduration =>
    split at hcheck
    · exact nomatch hcheck
    intro e' he'
    rcases List.mem_cons.1 he' with rfl | he'
    · exact ⟨by simpa using htime, by simpa using hduration⟩
    · exact ih hcheck e' he'

/-- Every event of an accepted timeline has a finite time and a finite duration. -/
theorem isFinite_of_ofEvents {name : String} {events : List (Event T H)} {t : Timeline T H}
    (ht : ofEvents name events = .ok t) :
    ∀ e ∈ t.events, Scalar.isFinite e.time = true ∧ Scalar.isFinite e.duration = true := by
  rw [eq_of_ofEvents ht]
  unfold ofEvents at ht
  cases hcheck : checkFrom 0 0 events with
  | error e => simp [hcheck, Except.map] at ht
  | ok u =>
    intro e he
    obtain ⟨htime, hduration⟩ := placeable_of_checkFrom hcheck e he
    exact ⟨(Bool.and_eq_true_iff.1 htime).1, (Bool.and_eq_true_iff.1 hduration).1⟩

variable [ClockLaws T]

/-- Events that pass the check from `previous` on start no earlier, one after the other. -/
theorem ordered_of_checkFrom {index : Nat} {previous : T} {events : List (Event T H)}
    (hprevious : previous ≤ previous) (hcheck : checkFrom index previous events = .ok ()) :
    (∀ e ∈ events, previous ≤ e.time) ∧ events.Pairwise fun e e' => e.time ≤ e'.time := by
  induction events generalizing index previous with
  | nil => exact ⟨fun e he => (nomatch he), .nil⟩
  | cons e rest ih =>
    -- a check that succeeds has passed every test on the first event
    unfold checkFrom at hcheck
    split at hcheck
    · exact nomatch hcheck
    next htime =>
    split at hcheck
    · exact nomatch hcheck
    split at hcheck
    · exact nomatch hcheck
    next horder =>
    have hfinite : Scalar.isFinite e.time = true := by
      simp [placeable] at htime
      exact htime.1
    have htime : e.time ≤ e.time := ClockLaws.le_self_of_isFinite hfinite
    have hle : previous ≤ e.time := ClockLaws.le_of_not_lt htime hprevious horder
    obtain ⟨hrest, hsorted⟩ := ih htime hcheck
    refine ⟨fun e' he' => ?_, hsorted.cons hrest⟩
    rcases List.mem_cons.1 he' with rfl | he'
    · exact hle
    · exact ClockLaws.le_trans hle (hrest e' he')

/-- An accepted timeline is in order. -/
theorem ordered_of_ofEvents {name : String} {events : List (Event T H)} {t : Timeline T H}
    (h : ofEvents name events = .ok t) : t.Ordered := by
  have ht := eq_of_ofEvents h
  unfold ofEvents at h
  cases hcheck : checkFrom 0 0 events with
  | error e => simp [hcheck, Except.map] at h
  | ok u =>
    obtain ⟨hle, hsorted⟩ := ordered_of_checkFrom ClockLaws.zero_le_zero hcheck
    subst ht
    exact ⟨fun e he => ClockLaws.le_self_of_le (hle e he), hsorted⟩

/-- If the first `k` events are not after `now` and the next one is, the first `k` are
those due. -/
theorem dueBy_eq_range {t : Timeline T H} (ht : t.Ordered) {now : T} (hnow : now ≤ now)
    {k : Nat} (hk : k ≤ t.size)
    (hpast : ∀ i < k, ∀ e, t.events[i]? = some e → ¬ now < e.time)
    (hnext : ∀ e, t.events[k]? = some e → now < e.time) : t.dueBy now = List.range k := by
  have hsplit : List.range t.size = List.range k ++ List.range' k (t.size - k) := by
    rw [range_append, Nat.add_sub_cancel' hk]
  unfold dueBy
  rw [hsplit, List.filter_append, List.filter_eq_self.2, List.filter_eq_nil_iff.2,
    List.append_nil]
  · intro i hi
    obtain ⟨hki, hik⟩ := List.mem_range'_1.1 hi
    have hisize : i < t.events.length := by
      have : k + (t.size - k) = t.events.length := Nat.add_sub_cancel' hk
      omega
    -- the order makes the event at `k` speak for the one at `i`
    have hlt : now < t.events[i].time := by
      have hksize : k < t.events.length := by omega
      have hk := hnext _ (List.getElem?_eq_getElem hksize)
      rcases Nat.lt_or_eq_of_le hki with hlt | rfl
      · have hle := List.pairwise_iff_getElem.1 ht.sorted k i hksize hisize hlt
        exact ClockLaws.lt_of_lt_of_le hnow (ht.defined _ (List.getElem_mem hisize)) hk hle
      · exact hk
    simp [List.getElem?_eq_getElem hisize, hlt]
  · intro i hi
    have hlt : i < k := List.mem_range.1 hi
    have hisize : i < t.events.length := Nat.lt_of_lt_of_le hlt hk
    have hdue := hpast i hlt _ (List.getElem?_eq_getElem hisize)
    simp [List.getElem?_eq_getElem hisize, hdue]

end Timeline

/-! ## What a step triggers -/

/-- The events triggered, in order. -/
def Call.triggered (calls : List (Call T)) : List Nat :=
  calls.filterMap fun
    | .event i (.trigger _) => some i
    | _ => none

theorem Call.triggered_append (xs ys : List (Call T)) :
    triggered (xs ++ ys) = triggered xs ++ triggered ys := List.filterMap_append

namespace Playback

theorem triggered_closes (active : List Nat) :
    Call.triggered (closes active : List (Call T)) = [] := by
  simp [Call.triggered, closes]

theorem triggered_trail (p : Playback T H K C) : Call.triggered p.trail = [] := by
  rcases p.trail_cases with h | h <;> rw [h] <;> rfl

variable [Scalar T]

/-- Updating triggers nothing. -/
theorem UpdatePass.triggered {events : List (Event T H)} {now : T} {active : List Nat}
    {log : List (Call T)} {exited : Bool} {still : List Nat}
    (hpass : UpdatePass events now active log exited still) : Call.triggered log = [] := by
  induction hpass with
  | nil => rfl
  | ongoing _ _ ih => exact ih
  | finished _ _ ih => exact ih
  | exit _ => rfl

omit [Scalar T] in
/-- The first scheduled event is the one at the cursor, the others those after it. -/
theorem eq_drop_succ {events rest : List (Event T H)} {e : Event T H} {cursor : Nat}
    (h : e :: rest = events.drop cursor) :
    events[cursor]? = some e ∧ rest = events.drop (cursor + 1) := by
  constructor
  · rw [← List.head?_drop, ← h, List.head?_cons]
  · rw [← List.tail_drop, ← h, List.tail_cons]

/-- A run through the scheduled events triggers the `n` of them at the cursor, all of them
due. Unless one asks to exit, it stops right after those, at the end or at one that lies
ahead. -/
structure Stretch (events : List (Event T H)) (now : T) (pending : List (Event T H))
    (cursor : Nat) (log : List (Call T)) (reached : Reached) (cursor' n : Nat) : Prop where
  le : n ≤ pending.length
  triggered : Call.triggered log = List.range' cursor n
  due : ∀ i, cursor ≤ i → i < cursor + n → ∀ e, events[i]? = some e → ¬ now < e.time
  next : reached ≠ .exit → cursor' = cursor + n ∧ ∀ e, events[cursor']? = some e → now < e.time
  all : reached = .all → n = pending.length

namespace Stretch

variable {events pending rest : List (Event T H)} {now : T} {e : Event T H} {cursor cursor' : Nat}
  {log : List (Call T)} {reached : Reached} {n : Nat}

/-- Nothing is triggered if nothing is scheduled, or if the next event lies ahead. -/
theorem nothing (hnext : ∀ e, events[cursor]? = some e → now < e.time)
    (hall : reached = .all → pending = []) :
    Stretch events now pending cursor [] reached cursor 0 where
  le := Nat.zero_le _
  triggered := rfl
  due i hi hlt := by omega
  next _ := ⟨rfl, hnext⟩
  all h := by
    rw [hall h]
    rfl

/-- The event at the cursor alone, if it asks to exit. -/
theorem exit (hhere : events[cursor]? = some e) (hdue : ¬ now < e.time) :
    Stretch events now (e :: rest) cursor [.event cursor (.trigger .exit)] .exit cursor 1 where
  le := Nat.succ_le_succ (Nat.zero_le _)
  triggered := rfl
  due i hi hlt e' he' := by
    obtain rfl : i = cursor := by omega
    rw [hhere] at he'
    cases he'
    exact hdue
  next hexit := absurd rfl hexit
  all hall := nomatch hall

/-- One more event that is due, in front of a stretch of them. -/
theorem succ (h : Stretch events now rest (cursor + 1) log reached cursor' n)
    (hhere : events[cursor]? = some e) (hdue : ¬ now < e.time) (answer : EventStatus) :
    Stretch events now (e :: rest) cursor (.event cursor (.trigger answer) :: log) reached
      cursor' (n + 1) where
  le := Nat.succ_le_succ h.le
  triggered := by
    rw [List.range'_succ]
    exact congrArg (cursor :: ·) h.triggered
  due i hi hin e' he' := by
    rcases Nat.lt_or_eq_of_le hi with hlt | rfl
    · exact h.due i hlt (by omega) e' he'
    · rw [hhere] at he'
      cases he'
      exact hdue
  next hexit := by
    obtain ⟨hcursor, hahead⟩ := h.next hexit
    exact ⟨by omega, hahead⟩
  all hall := congrArg (· + 1) (h.all hall)

end Stretch

/-- The scheduled events that are due are triggered one after the other, up to one that
lies ahead, unless one of them asks to exit. -/
theorem TriggerPass.stretch {events pending : List (Event T H)} {now : T} {cursor : Nat}
    {active : List Nat} {log : List (Call T)} {reached : Reached} {cursor' : Nat}
    {active' : List Nat}
    (hpass : TriggerPass now pending cursor active log reached cursor' active')
    (hpending : pending = events.drop cursor) :
    ∃ n, Stretch events now pending cursor log reached cursor' n := by
  -- the events still scheduled start at the cursor, and so does the stretch
  induction hpass with
  | @all cursor active =>
    have hlen : events.length ≤ cursor := List.drop_eq_nil_iff.1 hpending.symm
    refine ⟨0, .nothing (fun e he => ?_) fun _ => rfl⟩
    rw [List.getElem?_eq_none hlen] at he
    exact nomatch he
  | future hahead =>
    refine ⟨0, .nothing (fun e he => ?_) fun hall => nomatch hall⟩
    rw [(eq_drop_succ hpending).1] at he
    cases he
    exact hahead
  | finished hdue _ ih =>
    obtain ⟨hhere, hrest⟩ := eq_drop_succ hpending
    obtain ⟨n, h⟩ := ih hrest
    exact ⟨n + 1, h.succ hhere hdue .finished⟩
  | ongoing hdue _ ih =>
    obtain ⟨hhere, hrest⟩ := eq_drop_succ hpending
    obtain ⟨n, h⟩ := ih hrest
    exact ⟨n + 1, h.succ hhere hdue .ongoing⟩
  | exit hdue => exact ⟨1, .exit (eq_drop_succ hpending).1 hdue⟩

/-- What a step does to the schedule: it triggers the `n` events at the cursor, all of them
due, and if it leaves the playback running, the event after them is not. -/
structure Reach (p : Playback T H K C) (log : List (Call T)) (ends : Bool)
    (p' : Playback T H K C) (n : Nat) : Prop where
  le : n ≤ p.pending.length
  triggered : Call.triggered log = List.range' p.cursor n
  due : ∀ i, p.cursor ≤ i → i < p.cursor + n →
    ∀ e, p.timeline.events[i]? = some e → ¬ p.currentTime < e.time
  timeline : p'.timeline = p.timeline
  currentTime : p'.currentTime = p.currentTime
  suspended : ends = false → p'.cursor = p.cursor + n ∧ p'.phase = p.phase ∧
    ∀ e, p.timeline.events[p'.cursor]? = some e → p.currentTime < e.time
  terminal : ends = true → p'.phase.isTerminal = true
  finished : p'.phase = .finished → p.phase = .running → n = p.pending.length

/-- A stretch after which the playback runs on. -/
theorem Stretch.reach {p : Playback T H K C} {log : List (Call T)} {reached : Reached}
    {cursor n : Nat} (h : Stretch p.timeline.events p.currentTime p.pending p.cursor log reached
      cursor n) (hreached : reached ≠ .exit) (active : List Nat) :
    Reach p log false { p with cursor, active } n where
  le := h.le
  triggered := h.triggered
  due := h.due
  timeline := rfl
  currentTime := rfl
  suspended _ := ⟨(h.next hreached).1, rfl, (h.next hreached).2⟩
  terminal hends := nomatch hends
  finished hfin hrun := nomatch hrun.symm.trans hfin

/-- The part of a step after the updates triggers a stretch of events. -/
theorem Advanced.reach {p p' : Playback T H K C} {log : List (Call T)} {ends : Bool}
    (hadv : Advanced p log ends p') : ∃ n, Reach p log ends p' n := by
  cases hadv with
  | future hpass =>
    obtain ⟨n, h⟩ := hpass.stretch rfl
    exact ⟨n, h.reach Reached.noConfusion _⟩
  | busy hpass _ =>
    obtain ⟨n, h⟩ := hpass.stretch rfl
    exact ⟨n, h.reach Reached.noConfusion _⟩
  | finished hpass =>
    obtain ⟨n, h⟩ := hpass.stretch rfl
    refine ⟨n, h.le, ?_, h.due, rfl, rfl, fun hends => (nomatch hends), fun _ => rfl,
      fun _ _ => h.all rfl⟩
    rw [Call.triggered_append, triggered_trail, List.append_nil]
    exact h.triggered
  | exited hpass =>
    obtain ⟨n, h⟩ := hpass.stretch rfl
    refine ⟨n, h.le, ?_, h.due, rfl, rfl, fun hends => (nomatch hends), fun _ => rfl,
      fun hfin => nomatch hfin⟩
    rw [Call.triggered_append, Call.triggered_append, triggered_trail, triggered_closes,
      List.append_nil, List.append_nil]
    exact h.triggered

theorem Stepped.reach {p p' : Playback T H K C} {log : List (Call T)} {ends : Bool}
    (hstep : Stepped p log ends p') : ∃ n, Reach p log ends p' n := by
  cases hstep with
  | exited _ hpass =>
    refine ⟨0, Nat.zero_le _, ?_, fun i _ _ => by omega, rfl, rfl, fun h => (nomatch h),
      fun _ => rfl, fun h => nomatch h⟩
    rw [Call.triggered_append, Call.triggered_append, triggered_trail, triggered_closes,
      hpass.triggered]
    rfl
  | updated _ hpass hadv =>
    obtain ⟨n, hreach⟩ := hadv.reach
    refine ⟨n, hreach.le, ?_, hreach.due, hreach.timeline, hreach.currentTime, hreach.suspended,
      hreach.terminal, hreach.finished⟩
    rw [Call.triggered_append, hpass.triggered]
    exact hreach.triggered
  | due _ hadv => exact hadv.reach

/-- A step that leaves the playback running moves the cursor past what it triggers, and the event
there lies ahead. -/
theorem Reach.running {p p' : Playback T H K C} {log : List (Call T)} {ends : Bool} {n : Nat}
    (h : Reach p log ends p' n) (hrun : p'.phase.isTerminal = false) :
    p'.cursor = p.cursor + n ∧
      ∀ e, p'.timeline.events[p'.cursor]? = some e → p'.currentTime < e.time := by
  cases ends with
  | true => exact absurd (h.terminal rfl) (by simp [hrun])
  | false =>
    obtain ⟨hcursor, -, hahead⟩ := h.suspended rfl
    rw [h.timeline, h.currentTime]
    exact ⟨hcursor, hahead⟩

/-! ## Along a run -/

/-- The events triggered so far are the first ones of the timeline; while the playback runs
they are those before the cursor, all of them in the past, and when it has finished they are
all events. -/
structure Punctual (t : Timeline T H) (p : Playback T H K C) (calls : List (Call T)) :
    Prop where
  timeline : p.timeline = t
  clock : 0 ≤ p.currentTime
  initial : ∃ k, Call.triggered calls = List.range k
  running : p.phase.isTerminal = false → Call.triggered calls = List.range p.cursor ∧
    ∀ i < p.cursor, ∀ e, t.events[i]? = some e → e.time ≤ p.currentTime
  finished : p.phase = .finished → Call.triggered calls = List.range t.size

namespace Punctual

variable [ClockLaws T] {t : Timeline T H} {p p' : Playback T H K C} {calls log : List (Call T)}
  {ends : Bool} {d : T}

theorem opening (t : Timeline T H) (target : Option (Target K C)) :
    Punctual t (opening t target) [] where
  timeline := rfl
  clock := ClockLaws.zero_le_zero
  initial := ⟨0, rfl⟩
  running _ := ⟨rfl, fun _ hi => nomatch hi⟩
  finished hfin := nomatch hfin

/-- A step by what is not below 0 keeps a playback punctual. -/
theorem stepped (ht : t.Ordered) (h : Punctual t p calls) (hp : p.Sound)
    (hrun : p.phase.isTerminal = false) (hd : 0 ≤ d)
    (hstep : Stepped (p.atTime (p.currentTime + d)) log ends p') :
    Punctual t p' (calls ++ log) := by
  obtain ⟨n, hreach⟩ := hstep.reach
  obtain ⟨hcalls, hpast⟩ := h.running hrun
  have htriggered : Call.triggered (calls ++ log) = List.range (p.cursor + n) := by
    rw [Call.triggered_append, hcalls, hreach.triggered]
    exact range_append p.cursor n
  have hclock : 0 ≤ p.currentTime + d := ClockLaws.zero_le_add h.clock hd
  refine ⟨hreach.timeline.trans h.timeline, ?_, ⟨_, htriggered⟩, fun hrun' => ?_, fun hfin => ?_⟩
  · rw [hreach.currentTime]
    exact hclock
  · have hcursor : p'.cursor = p.cursor + n := (hreach.running hrun').1
    rw [hcursor, hreach.currentTime]
    show _ ∧ ∀ i < p.cursor + n, ∀ e, t.events[i]? = some e → e.time ≤ p.currentTime + d
    refine ⟨htriggered, fun i hi e he => ?_⟩
    -- passed in an earlier step, or in this one
    by_cases hearlier : i < p.cursor
    · exact ClockLaws.le_trans (hpast i hearlier e he) (ClockLaws.le_add h.clock hd)
    · have hmem : e ∈ t.events := List.mem_of_getElem? he
      rw [← h.timeline] at he
      have hdue := hreach.due i (Nat.le_of_not_lt hearlier) hi e he
      exact ClockLaws.le_of_not_lt (ClockLaws.le_self_of_le hclock) (ht.defined e hmem) hdue
  · rw [htriggered, hreach.finished hfin rfl]
    have hsize := cursor_add_pending hp.cursor_le
    rw [h.timeline] at hsize
    exact congrArg List.range hsize

omit [ClockLaws T] in
/-- A step triggers no event that lies ahead of the time that it moves the clock to. -/
theorem not_early (h : Punctual t p calls)
    (hstep : Stepped (p.atTime (p.currentTime + d)) log ends p') :
    ∀ i ∈ Call.triggered log, ∀ e, t.events[i]? = some e → ¬ p'.currentTime < e.time := by
  obtain ⟨n, hreach⟩ := hstep.reach
  intro i hi e he
  rw [hreach.triggered] at hi
  obtain ⟨hle, hlt⟩ := List.mem_range'_1.1 hi
  rw [hreach.currentTime]
  rw [← h.timeline] at he
  exact hreach.due i hle hlt e he

/-- A step that leaves the playback running has triggered whatever is due by then. -/
theorem suspended (ht : t.Ordered) (h : Punctual t p calls) (hp : p.Sound)
    (hrun : p.phase.isTerminal = false) (hd : 0 ≤ d)
    (hstep : Stepped (p.atTime (p.currentTime + d)) log false p') :
    Call.triggered (calls ++ log) = t.dueBy p'.currentTime := by
  have hnext := h.stepped ht hp hrun hd hstep
  obtain ⟨n, hreach⟩ := hstep.reach
  have hrun' : p'.phase.isTerminal = false := by
    rw [(hreach.suspended rfl).2.1]
    rfl
  obtain ⟨hcalls, hpast⟩ := hnext.running hrun'
  obtain ⟨-, hahead⟩ := hreach.running hrun'
  have hsound : p'.Sound := (hp.atTime _).stepped rfl hstep
  have hsize : p'.cursor ≤ p'.timeline.size := hsound.cursor_le
  rw [hnext.timeline] at hsize hahead
  rw [hcalls]
  exact (Timeline.dueBy_eq_range ht (ClockLaws.le_self_of_le hnext.clock) hsize
    (fun i hi e he => ClockLaws.not_lt_of_le (hpast i hi e he)) hahead).symm

omit [ClockLaws T] in
theorem aborted (h : Punctual t p calls) :
    Punctual t p.aborted (calls ++ closes p.active) where
  timeline := h.timeline
  clock := h.clock
  initial := by
    rw [Call.triggered_append, triggered_closes, List.append_nil]
    exact h.initial
  running hrun' := nomatch hrun'
  finished hfin := nomatch hfin

end Punctual

/-- Along every run of a timeline that was accepted, in steps of lengths that are not below
0, after each further such step: the events triggered so far are the first `k`, in order and
once each; the step triggered none before its time; if it left the playback running, the
events triggered are just those due at the time reached; and if the playback has finished,
they are all. Keeping the journal changes nothing of the run. -/
theorem triggers_on_time [ClockLaws T] [Host H T] [Builder K H C] {name : String}
    {events : List (Event T H)} {t : Timeline T H}
    (ht : Timeline.ofEvents name events = .ok t) (target : Option (Target K C))
    (moves : List (Move H)) (h : H)
    (hpaced : Paced (fun d => 0 ≤ d) moves (opening t target) h)
    (hdelta : 0 ≤ Host.deltaTime (play moves (opening t target) h).2) :
    let played := play moves (opening t target) h
    let plain := played.1.step played.2
    let noted := play (moves.map Move.journaled) ((opening t target).recorded id)
      (⟨h, []⟩ : Journaled (Call T) H)
    let next := noted.1.step noted.2
    let calls := next.2.2.journal
    (next.1 = plain.1 ∧ next.2.1 = plain.2.1.recorded id ∧ next.2.2.host = plain.2.2) ∧
    (∃ k, Call.triggered calls = List.range k) ∧
    (∃ log, calls = noted.2.journal ++ log ∧ ∀ i ∈ Call.triggered log,
      ∀ e, t.events[i]? = some e → ¬ plain.2.1.currentTime < e.time) ∧
    (plain.1.isSuspend = true → Call.triggered calls = t.dueBy plain.2.1.currentTime) ∧
    (plain.2.1.phase = .finished → Call.triggered calls = List.range t.size) := by
  intro played plain noted next calls
  have hordered := Timeline.ordered_of_ofEvents ht
  obtain ⟨log, hnoted, hsound, hpunctual⟩ := play_recorded (id : Call T → Call T)
    (D := fun d => 0 ≤ d) (I := Punctual t)
    (fun hp hrun h hd hstep => h.stepped hordered hp hrun hd hstep)
    (fun _ _ h => h.aborted) moves (sound_opening t target)
    (Punctual.opening t target) (⟨h, []⟩ : Journaled (Call T) H) hpaced
  have hnoted : noted = (played.1.recorded id, ⟨played.2, log⟩) := by
    rw [List.nil_append, List.map_id] at hnoted
    exact hnoted
  rw [List.nil_append] at hpunctual
  have hnext : next = (played.1.recorded id).step ⟨played.2, log⟩ := by
    show noted.1.step noted.2 = _
    rw [hnoted]
  by_cases hrun : played.1.phase.isTerminal = true
  · -- the step finds the playback over and does nothing
    have hplain : plain = (.done none, played.1, played.2) := step_of_isTerminal hrun _
    have hnext : next = (.done none, played.1.recorded id, ⟨played.2, log⟩) := by
      rw [hnext]
      exact step_of_isTerminal (p := played.1.recorded id) hrun _
    have hcalls : calls = log := by
      show next.2.2.journal = log
      rw [hnext]
    rw [hnext, hplain, hcalls, hnoted]
    exact ⟨⟨rfl, rfl, rfl⟩, hpunctual.initial, ⟨[], by simp, fun i hi => (nomatch hi)⟩,
      fun hsuspend => (nomatch hsuspend), hpunctual.finished⟩
  · have hrun : played.1.phase.isTerminal = false := by simpa using hrun
    obtain ⟨log', hrec, hstep⟩ := step_recorded (id : Call T → Call T) hsound hrun
      ⟨played.2, log⟩
    rw [List.map_id] at hrec
    have hnext : next = (plain.1, plain.2.1.recorded id, ⟨plain.2.2, log ++ log'⟩) :=
      hnext.trans hrec
    have hcalls : calls = log ++ log' := by
      show next.2.2.journal = _
      rw [hnext]
    have hpunctual' := hpunctual.stepped hordered hsound hrun hdelta hstep
    rw [hnext, hcalls, hnoted]
    refine ⟨⟨rfl, rfl, rfl⟩, hpunctual'.initial, ⟨log', rfl, hpunctual.not_early hstep⟩,
      fun hsuspend => ?_, hpunctual'.finished⟩
    -- a step that suspends leaves the playback running
    have hover : plain.1.isDone = false := by
      rw [StepResult.isDone_eq_not_isSuspend, hsuspend]
      rfl
    have hstep : Stepped _ log' plain.1.isDone plain.2.1 := hstep
    rw [hover] at hstep
    exact hpunctual.suspended hordered hsound hrun hdelta hstep

/-- Two seconds into a watch of three, a call at the start and a span after one second have
been triggered, and the call after five seconds has not. -/
theorem triggers_on_time_at_two :
    let w := (World.ofSeed none).beginTick 1
    let events : List (Event Float32 World) :=
      [.call 0 id, .span 1 2 fun _ w => w, .call 5 id]
    let p : Playback Float32 World Empty Unit := opening ⟨"watch", events⟩ none
    let played := play [.step] p w
    let noted := play [Move.step] (p.recorded id) (⟨w, []⟩ : Journaled (Call Float32) World)
    Timeline.ofEvents "watch" events = .ok ⟨"watch", events⟩ ∧
    Paced (fun d => 0 ≤ d) [.step] p w ∧ (0 : Float32) ≤ Host.deltaTime played.2 ∧
    (played.1.step played.2).1.isSuspend = true ∧
    Call.triggered (noted.1.step noted.2).2.2.journal = [0, 1] := by
  intro w events p played noted
  have ht : Timeline.ofEvents "watch" events = .ok ⟨"watch", events⟩ := by rfl
  have hpaced : Paced (fun d => 0 ≤ d) [.step] p w := ⟨by decide, trivial⟩
  have hdelta : (0 : Float32) ≤ Host.deltaTime played.2 := by decide
  have hsuspend : (played.1.step played.2).1.isSuspend = true := by decide
  refine ⟨ht, hpaced, hdelta, hsuspend, ?_⟩
  exact ((triggers_on_time ht none [.step] w hpaced hdelta).2.2.2.1 hsuspend).trans (by decide)

end Playback

end Cueflow
