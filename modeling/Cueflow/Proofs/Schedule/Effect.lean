import Cueflow.Proofs.Schedule.Updates
import Cueflow.Proofs.Schedule.Punctuality
/-!
# The effect of a step

All that a step of a playback calls, and when it is the last one.

> `step_effect`: a step that finds the next event due triggers the longest run of scheduled
> events that are, and updates nothing; any other step updates what is ongoing, each event that
> reports its end being closed at once, and triggers nothing. The first event that asks to exit
> cuts either short. The step is done exactly when there was one, or nothing is left.

`Asked` says who was called when a list was gone through until somebody asked to exit. The calls
of a pass are written down from the list and the answers alone, so that they can be compared with
the passes of `UpdatePass` and `TriggerPass`, which follow the code.
-/

namespace Cueflow

variable {T H K C : Type}

/-- These members of a list were asked one after the other, with these answers: all of them, or
those up to the first that asked to exit. -/
structure Asked (whole : List Nat) (asked : List (Nat × EventStatus)) : Prop where
  inOrder : asked.map Prod.fst <+: whole
  complete : (∀ x ∈ asked, x.2 ≠ .exit) → asked.map Prod.fst = whole
  cut : ∀ before x after, asked = before ++ x :: after → x.2 = .exit → after = []

namespace Asked

variable {whole rest : List Nat} {asked : List (Nat × EventStatus)}

theorem nobody : Asked [] [] where
  inOrder := List.prefix_refl []
  complete _ := rfl
  cut before x after hsplit _ := by
    cases before <;> cases hsplit

/-- One more in front that lets the others go on. -/
theorem cons (h : Asked rest asked) (i : Nat) {answer : EventStatus} (hanswer : answer ≠ .exit) :
    Asked (i :: rest) ((i, answer) :: asked) where
  inOrder := List.cons_prefix_cons.2 ⟨rfl, h.inOrder⟩
  complete hnone := by
    obtain ⟨-, hrest⟩ := List.forall_mem_cons.1 hnone
    exact congrArg (i :: ·) (h.complete hrest)
  cut before x after hsplit hexit := by
    cases before with
    | nil =>
      injection hsplit with hx hafter
      rw [← hx] at hexit
      exact absurd hexit hanswer
    | cons y before =>
      injection hsplit with hy hsplit
      exact h.cut before x after hsplit hexit

/-- One that asks to exit is the last to be asked. -/
theorem exit (i : Nat) (rest : List Nat) : Asked (i :: rest) [(i, .exit)] where
  inOrder := List.cons_prefix_cons.2 ⟨rfl, List.nil_prefix⟩
  complete hnone := absurd rfl (hnone (i, .exit) List.mem_cons_self)
  cut before x after hsplit _ := by
    cases before with
    | nil =>
      injection hsplit with hx hafter
      exact hafter.symm
    | cons y before =>
      injection hsplit with hy hsplit
      cases before <;> cases hsplit

/-- Where nobody is, nobody is asked. -/
theorem eq_nil (h : Asked [] asked) : asked = [] :=
  List.map_eq_nil_iff.1 (List.prefix_nil.1 h.inOrder)

end Asked

namespace Playback

variable [Scalar T]

/-! ## The calls of a pass -/

/-- The scheduled events that are due at `now`, up to the first that is not. -/
def dueFirst (now : T) (pending : List (Event T H)) : List (Event T H) :=
  pending.takeWhile fun e => !decide (now < e.time)

/-- The call that triggers an event. -/
def triggering (x : Nat × EventStatus) : Call T := .event x.1 (.trigger x.2)

/-- The calls that update an ongoing event, and close it if it reports its end. -/
def updating (events : List (Event T H)) (now : T) (x : Nat × EventStatus) : List (Call T) :=
  match events[x.1]? with
  | none => []
  | some e =>
    .event x.1 (.update (now - e.time) x.2) ::
      if x.2 = .finished then [.event x.1 .close] else []

omit [Scalar T] in
theorem triggered_map_triggering (asked : List (Nat × EventStatus)) :
    Call.triggered (asked.map triggering : List (Call T)) = asked.map Prod.fst := by
  induction asked with
  | nil => rfl
  | cons x rest ih => exact congrArg (x.1 :: ·) ih

theorem dueFirst_of_lt {now : T} {e : Event T H} (hahead : now < e.time)
    (rest : List (Event T H)) : dueFirst now (e :: rest) = [] := by
  simp [dueFirst, hahead]

theorem dueFirst_of_not_lt {now : T} {e : Event T H} (hdue : ¬ now < e.time)
    (rest : List (Event T H)) : dueFirst now (e :: rest) = e :: dueFirst now rest := by
  simp [dueFirst, hdue]

/-- A pass over the ongoing events asks them in order, up to the first that asks to exit. -/
theorem UpdatePass.asked {events : List (Event T H)} {now : T} {active : List Nat}
    {log : List (Call T)} {exited : Bool} {still : List Nat}
    (hpass : UpdatePass events now active log exited still) :
    ∃ asked, Asked active asked ∧ log = asked.flatMap (updating events now) ∧
      (exited = true ↔ ∃ x ∈ asked, x.2 = .exit) := by
  induction hpass with
  | nil => exact ⟨[], .nobody, rfl, by simp⟩
  | @ongoing i e rest log exited still he _ ih =>
    obtain ⟨asked, hasked, hlog, hexit⟩ := ih
    refine ⟨(i, .ongoing) :: asked, hasked.cons i EventStatus.noConfusion, ?_, ?_⟩
    · rw [List.flatMap_cons, ← hlog, updating, he]
      rfl
    · simp [hexit]
  | @finished i e rest log exited still he _ ih =>
    obtain ⟨asked, hasked, hlog, hexit⟩ := ih
    refine ⟨(i, .finished) :: asked, hasked.cons i EventStatus.noConfusion, ?_, ?_⟩
    · rw [List.flatMap_cons, ← hlog, updating, he]
      rfl
    · simp [hexit]
  | @exit i e rest he =>
    refine ⟨[(i, .exit)], .exit i rest, ?_, by simp⟩
    rw [List.flatMap_cons, List.flatMap_nil, updating, he]
    rfl

/-- A run through the scheduled events asked those that are due in order, up to the first that
asked to exit. Unless one did, it came to an event that lies ahead, or to the end. -/
structure DueRun (now : T) (pending : List (Event T H)) (cursor : Nat) (reached : Reached)
    (cursor' : Nat) (asked : List (Nat × EventStatus)) : Prop where
  due : Asked (List.range' cursor (dueFirst now pending).length) asked
  exit : reached = .exit ↔ ∃ x ∈ asked, x.2 = .exit
  cursor : reached ≠ .exit → cursor' = cursor + asked.length
  future : reached = .future → asked.length < pending.length
  all : reached = .all → asked.length = pending.length

/-- One more event that is due in front. -/
theorem DueRun.cons {now : T} {rest : List (Event T H)} {cursor cursor' : Nat} {reached : Reached}
    {asked : List (Nat × EventStatus)} (h : DueRun now rest (cursor + 1) reached cursor' asked)
    {e : Event T H} (hdue : ¬ now < e.time) {answer : EventStatus} (hanswer : answer ≠ .exit) :
    DueRun now (e :: rest) cursor reached cursor' ((cursor, answer) :: asked) where
  due := by
    rw [dueFirst_of_not_lt hdue, List.length_cons, List.range'_succ]
    exact h.due.cons cursor hanswer
  exit := by
    rw [h.exit]
    simp [hanswer]
  cursor hstays := by
    have hcursor := h.cursor hstays
    rw [List.length_cons]
    omega
  future hfuture := Nat.succ_lt_succ (h.future hfuture)
  all hall := congrArg (· + 1) (h.all hall)

/-- A run through the scheduled events triggers those that are due. -/
theorem TriggerPass.dueRun {now : T} {pending : List (Event T H)} {cursor : Nat}
    {active : List Nat} {log : List (Call T)} {reached : Reached} {cursor' : Nat}
    {active' : List Nat}
    (hpass : TriggerPass now pending cursor active log reached cursor' active') :
    ∃ asked, DueRun now pending cursor reached cursor' asked ∧ log = asked.map triggering := by
  induction hpass with
  | all =>
    refine ⟨[], ⟨.nobody, by simp, fun _ => rfl, fun hfuture => ?_, fun _ => rfl⟩, rfl⟩
    cases hfuture
  | @future e rest cursor active hahead =>
    refine ⟨[], ⟨?_, by simp, fun _ => rfl, fun _ => Nat.succ_pos _, fun hall => ?_⟩, rfl⟩
    · rw [dueFirst_of_lt hahead]
      exact .nobody
    · cases hall
  | @finished e rest cursor active log reached cursor' active' hdue _ ih =>
    obtain ⟨asked, hrun, hlog⟩ := ih
    refine ⟨(cursor, .finished) :: asked, hrun.cons hdue EventStatus.noConfusion, ?_⟩
    rw [hlog]
    rfl
  | @ongoing e rest cursor active log reached cursor' active' hdue _ ih =>
    obtain ⟨asked, hrun, hlog⟩ := ih
    refine ⟨(cursor, .ongoing) :: asked, hrun.cons hdue EventStatus.noConfusion, ?_⟩
    rw [hlog]
    rfl
  | @exit e rest cursor active hdue =>
    refine ⟨[(cursor, .exit)], ⟨?_, by simp, fun hstays => absurd rfl hstays, fun hfuture => ?_,
      fun hall => ?_⟩, rfl⟩
    · rw [dueFirst_of_not_lt hdue, List.length_cons, List.range'_succ]
      exact .exit cursor _
    · cases hfuture
    · cases hall

/-! ## The calls of a step -/

/-- What a step calls when `visits` are the calls of its pass: if it is the last, what these
leave ongoing is closed, and the target is resolved. -/
def wholeLog (p : Playback T H K C) (visits : List (Call T)) (ends : Bool) : List (Call T) :=
  visits ++ if ends then closes (visits.foldl Call.follow p.active) ++ p.trail else []

/-- A step is the last when somebody asked to exit, or when nothing is left after the calls of
its pass. -/
def LastIf (p : Playback T H K C) (visits : List (Call T)) (asked : List (Nat × EventStatus)) :
    Prop :=
  (∃ x ∈ asked, x.2 = .exit) ∨
    ((Call.triggered visits).length = p.pending.length ∧ visits.foldl Call.follow p.active = [])

/-- The part of a step after the updates triggers what is due. -/
theorem Advanced.effect {p p' : Playback T H K C} {log : List (Call T)} {ends : Bool}
    (hadv : Advanced p log ends p') :
    ∃ asked, Asked (List.range' p.cursor (dueFirst p.currentTime p.pending).length) asked ∧
      log = p.wholeLog (asked.map triggering) ends ∧
      (ends = true ↔ p.LastIf (asked.map triggering) asked) := by
  have hcount : ∀ asked : List (Nat × EventStatus),
      (Call.triggered (asked.map triggering : List (Call T))).length = asked.length := by
    intro asked
    rw [triggered_map_triggering, List.length_map]
  cases hadv with
  | future hpass =>
    obtain ⟨asked, hrun, rfl⟩ := hpass.dueRun
    refine ⟨asked, hrun.due, (List.append_nil _).symm, ?_⟩
    rw [LastIf, ← hrun.exit, hcount]
    have hfewer := hrun.future rfl
    constructor
    · intro hends
      cases hends
    · rintro (hexit | ⟨hall, -⟩)
      · cases hexit
      · omega
  | busy hpass hbusy =>
    have hafter := hpass.follow
    obtain ⟨asked, hrun, rfl⟩ := hpass.dueRun
    refine ⟨asked, hrun.due, (List.append_nil _).symm, ?_⟩
    rw [LastIf, ← hrun.exit, hafter]
    constructor
    · intro hends
      cases hends
    · rintro (hexit | ⟨-, hnone⟩)
      · cases hexit
      · exact absurd hnone hbusy
  | finished hpass =>
    have hafter := hpass.follow
    obtain ⟨asked, hrun, rfl⟩ := hpass.dueRun
    refine ⟨asked, hrun.due, ?_, fun _ => Or.inr ⟨?_, hafter⟩, fun _ => rfl⟩
    · rw [wholeLog, hafter]
      rfl
    · rw [hcount]
      exact hrun.all rfl
  | exited hpass =>
    have hafter := hpass.follow
    obtain ⟨asked, hrun, rfl⟩ := hpass.dueRun
    refine ⟨asked, hrun.due, ?_, fun _ => Or.inl (hrun.exit.1 rfl), fun _ => rfl⟩
    rw [wholeLog, hafter, List.append_assoc]
    rfl

/-- When nothing is due, nobody is asked to begin. -/
theorem dueFirst_of_not_nextDue {p : Playback T H K C} (hdue : ¬ p.NextDue p.currentTime) :
    dueFirst p.currentTime p.pending = [] := by
  cases hpending : p.pending with
  | nil => rfl
  | cons e rest =>
    have hnext : p.timeline.events[p.cursor]? = some e := (eq_drop_succ hpending.symm).1
    by_cases hahead : p.currentTime < e.time
    · exact dueFirst_of_lt hahead rest
    · exact absurd ⟨e, hnext, hahead⟩ hdue

/-- A playback that waits has nothing due. -/
theorem not_nextDue_of_isWaiting {p : Playback T H K C} (hwait : p.isWaiting = true) :
    ¬ p.NextDue p.currentTime := by
  rintro ⟨e, hnext, hdue⟩
  unfold isWaiting at hwait
  rw [hnext] at hwait
  exact hdue (of_decide_eq_true hwait)

/-- A playback that does not wait although nothing is due has nothing left. -/
theorem nothing_left_of_not_isWaiting {p : Playback T H K C} (hwait : p.isWaiting = false)
    (hdue : ¬ p.NextDue p.currentTime) : p.active = [] := by
  by_contra hactive
  rw [(isWaiting_iff hactive).2 hdue] at hwait
  cases hwait

/-- What a step calls, and when it is the last: if something is due, triggers of what is, and
otherwise updates of what is ongoing. -/
structure Effect (p : Playback T H K C) (log : List (Call T)) (ends : Bool)
    (asked : List (Nat × EventStatus)) (visits : List (Call T)) : Prop where
  waiting : ¬ p.NextDue p.currentTime →
    Asked p.active asked ∧ visits = asked.flatMap (updating p.timeline.events p.currentTime)
  due : p.NextDue p.currentTime →
    Asked (List.range' p.cursor (dueFirst p.currentTime p.pending).length) asked ∧
      visits = asked.map triggering
  log_eq : log = p.wholeLog visits ends
  last : ends = true ↔ p.LastIf visits asked

/-- The calls of a step are those of the one pass that it makes. -/
theorem Stepped.effect {p p' : Playback T H K C} {log : List (Call T)} {ends : Bool}
    (hp : p.Sound) (hstep : Stepped p log ends p') :
    ∃ asked visits, Effect p log ends asked visits := by
  cases hstep with
  | exited hwait hpass =>
    have hstill := hpass.follow [] hp.nodup
    rw [List.nil_append, List.nil_append] at hstill
    have hnone := not_nextDue_of_isWaiting hwait
    obtain ⟨asked, hasked, hlog, hexit⟩ := hpass.asked
    refine ⟨asked, _, fun _ => ⟨hasked, hlog⟩, fun hdue => absurd hdue hnone, ?_,
      fun _ => Or.inl (hexit.1 rfl), fun _ => rfl⟩
    rw [wholeLog, hstill, List.append_assoc]
    rfl
  | @updated log log' still ends _ hwait hpass hadv =>
    have hstill := hpass.follow [] hp.nodup
    rw [List.nil_append, List.nil_append] at hstill
    have hnone := not_nextDue_of_isWaiting hwait
    obtain ⟨asked, hasked, hlog, hexit⟩ := hpass.asked
    -- nothing is due after the updates either, so that nothing more is called
    obtain ⟨begun, hbegun, hlog', hends⟩ := hadv.effect
    have hempty : dueFirst p.currentTime p.pending = [] := dueFirst_of_not_nextDue hnone
    have hbegun : Asked (List.range' p.cursor (dueFirst p.currentTime p.pending).length) begun :=
      hbegun
    rw [hempty] at hbegun
    rw [hbegun.eq_nil] at hlog' hends
    refine ⟨asked, log, fun _ => ⟨hasked, hlog⟩, fun hdue => absurd hdue hnone, ?_, ?_⟩
    · rw [hlog', wholeLog, wholeLog, hstill]
      rfl
    · have hstays : ¬ ∃ x ∈ asked, x.2 = .exit := fun hasks => nomatch hexit.2 hasks
      refine hends.trans (or_congr ?_ ?_)
      · exact ⟨fun ⟨x, hx, _⟩ => absurd hx List.not_mem_nil, fun hasks => absurd hasks hstays⟩
      · rw [hstill, hpass.triggered]
        exact Iff.rfl
  | due hwait hadv =>
    obtain ⟨asked, hasked, hlog, hends⟩ := hadv.effect
    refine ⟨asked, _, fun hnone => ?_, fun _ => ⟨hasked, rfl⟩, hlog, hends⟩
    rw [dueFirst_of_not_nextDue hnone] at hasked
    rw [nothing_left_of_not_isWaiting hwait hnone, hasked.eq_nil]
    exact ⟨.nobody, rfl⟩

/-! ## When a step is the last -/

/-- The part of a step after the updates leaves something, unless it is the last. -/
theorem Advanced.ends_iff {p p' : Playback T H K C} {log : List (Call T)} {ends : Bool}
    (hadv : Advanced p log ends p') :
    ends = true ↔ p'.pendingCount = 0 ∧ p'.activeCount = 0 := by
  cases hadv with
  | @future log cursor active hpass =>
    obtain ⟨asked, hrun, -⟩ := hpass.dueRun
    have hcursor := hrun.cursor Reached.noConfusion
    have hfewer := hrun.future rfl
    have hpending : p.pending.length = p.timeline.events.length - p.cursor := List.length_drop
    refine ⟨fun hends => (nomatch hends), fun ⟨hcount, _⟩ => ?_⟩
    have hcount : p.timeline.events.length - cursor = 0 := hcount
    omega
  | busy hpass hbusy =>
    refine ⟨fun hends => (nomatch hends), fun ⟨_, hcount⟩ => ?_⟩
    exact absurd (List.eq_nil_of_length_eq_zero hcount) hbusy
  | finished _ => exact ⟨fun _ => (counts_ended p .finished).symm, fun _ => rfl⟩
  | exited _ => exact ⟨fun _ => (counts_ended p .exited).symm, fun _ => rfl⟩

/-- A step leaves something scheduled or ongoing, unless it is the last. -/
theorem Stepped.ends_iff {p p' : Playback T H K C} {log : List (Call T)} {ends : Bool}
    (hstep : Stepped p log ends p') :
    ends = true ↔ p'.pendingCount = 0 ∧ p'.activeCount = 0 := by
  cases hstep with
  | exited _ _ => exact ⟨fun _ => (counts_ended p .exited).symm, fun _ => rfl⟩
  | updated _ _ hadv => exact hadv.ends_iff
  | due _ hadv => exact hadv.ends_iff

/-! ## Along a run -/

/-- As long as the playback is not over, the events before its cursor are those that were
triggered. -/
def Begun (p : Playback T H K C) (calls : List (Call T)) : Prop :=
  p.phase.isTerminal = false → Call.triggered calls = List.range p.cursor

theorem Begun.opening (t : Timeline T H) (target : Option (Target K C)) :
    Begun (opening t target) [] := fun _ => rfl

theorem Begun.stepped {p p' : Playback T H K C} {calls log : List (Call T)} {ends : Bool} {now : T}
    (h : Begun p calls) (hrun : p.phase.isTerminal = false)
    (hstep : Stepped (p.atTime now) log ends p') : Begun p' (calls ++ log) := by
  intro hrun'
  obtain ⟨n, hreach⟩ := hstep.reach
  have hstays : ends = false := by
    by_contra hends
    have hover := hreach.terminal (by simpa using hends)
    rw [hrun'] at hover
    cases hover
  obtain ⟨hcursor, -, -⟩ := hreach.suspended hstays
  rw [Call.triggered_append, h hrun, hreach.triggered, hcursor]
  exact range_append p.cursor n

variable [Host H T] [Builder K H C]

/-- Along every run, a step of a playback that is not over. The time that it reads once is `now`.
If the next event is due then, the step triggers the longest run of scheduled events that are,
in order, and nothing else; if not, it updates what is ongoing, in the order of the triggers and
each with the time since its start, and closes an event right after an update that reports its
end. Either is cut short by the first event that asks to exit. After that, the last step closes
what is still ongoing and resolves the target, if there is one; and a step is the last exactly
if an event asked to exit, or if every event has been triggered and none is ongoing, which is to
say that it leaves nothing scheduled and nothing ongoing. -/
theorem step_effect (t : Timeline T H) (target : Option (Target K C)) (moves : List (Move H))
    (h : H) :
    let played := play moves (opening t target) h
    let noted := play (moves.map Move.journaled) ((opening t target).recorded id)
      (⟨h, []⟩ : Journaled (Call T) H)
    let plain := played.1.step played.2
    let next := noted.1.step noted.2
    let now := played.1.currentTime + Host.deltaTime played.2
    let ongoing := Call.ongoing noted.2.journal
    let due := (dueFirst now played.1.pending).length
    (next.1 = plain.1 ∧ next.2.1 = plain.2.1.recorded id ∧ next.2.2.host = plain.2.2) ∧
    (played.1.phase.isTerminal = false →
      plain.2.1.currentTime = now ∧ played.1.timeline = t ∧
      Call.triggered noted.2.journal = List.range played.1.cursor ∧
      played.1.cursor ≤ t.size ∧ (∀ i ∈ ongoing, i < played.1.cursor) ∧ ongoing.Nodup ∧
      ∃ asked visits,
        let left := Call.ongoing (noted.2.journal ++ visits)
        (¬ played.1.NextDue now →
          Asked ongoing asked ∧ visits = asked.flatMap (updating t.events now)) ∧
        (played.1.NextDue now →
          Asked (List.range' played.1.cursor due) asked ∧ visits = asked.map triggering) ∧
        next.2.2.journal = noted.2.journal ++ visits ++
          (if plain.1.isDone then closes left ++ played.1.trail else []) ∧
        (plain.1.isDone = true ↔ (∃ x ∈ asked, x.2 = .exit) ∨
          ((Call.triggered (noted.2.journal ++ visits)).length = t.size ∧ left = [])) ∧
        (plain.1.isDone = true ↔ (∃ x ∈ asked, x.2 = .exit) ∨
          (plain.2.1.pendingCount = 0 ∧ plain.2.1.activeCount = 0))) := by
  intro played noted plain next now ongoing due
  obtain ⟨calls, log, hnoted, hrec, hsound, hfollows, -, hstep⟩ :=
    step_ongoing t target moves h
  obtain ⟨calls', hnoted', -, hbegun⟩ := play_recorded (id : Call T → Call T) (D := fun _ => True)
    (I := Begun) (fun _ hrun h _ hstep => h.stepped hrun hstep) (fun _ _ _ hrun => nomatch hrun)
    moves (sound_opening t target) (Begun.opening t target) (⟨h, []⟩ : Journaled (Call T) H)
    (Move.paced_true _ _ _ _)
  have hcalls : calls' = calls := by
    have hsame := congrArg (fun x => x.2.journal) (hnoted'.symm.trans hnoted)
    simpa using hsame
  rw [List.nil_append, hcalls] at hbegun
  have hnoted : noted = (played.1.recorded id, ⟨played.2, calls⟩) := hnoted
  have hnext : next = (plain.1, plain.2.1.recorded id, ⟨plain.2.2, calls ++ log⟩) := by
    show noted.1.step noted.2 = _
    rw [hnoted]
    exact hrec
  have hongoing : ongoing = played.1.active := by
    show Call.ongoing noted.2.journal = _
    rw [hnoted]
    exact hfollows.ongoing
  rw [hnext, hnoted, hongoing]
  refine ⟨⟨rfl, rfl, rfl⟩, fun hrun => ?_⟩
  have htriggered : Call.triggered calls = List.range played.1.cursor := hbegun hrun
  have hstep : Stepped (played.1.atTime now) log plain.1.isDone plain.2.1 := hstep hrun
  obtain ⟨n, hreach⟩ := hstep.reach
  obtain ⟨asked, visits, heffect⟩ := hstep.effect (hsound.atTime now)
  have hleft : Call.ongoing (calls ++ visits) =
      visits.foldl Call.follow (played.1.atTime now).active := by
    rw [Call.ongoing_append, hfollows.ongoing]
    rfl
  have hsize : played.1.cursor + played.1.pending.length = t.size := by
    rw [← hfollows.timeline]
    exact cursor_add_pending hsound.cursor_le
  have hcounts := hstep.ends_iff
  refine ⟨hreach.currentTime, hfollows.timeline, htriggered, by omega, hsound.active_lt,
    hsound.nodup, asked, visits, fun hnone => ?_, heffect.due, ?_, ?_, ?_⟩
  · rw [← hfollows.timeline]
    exact heffect.waiting hnone
  · dsimp only
    rw [hleft, heffect.log_eq, List.append_assoc]
    rfl
  · dsimp only
    rw [heffect.last, LastIf, hleft, Call.triggered_append, htriggered, List.length_append,
      List.length_range, ← hsize, Nat.add_left_cancel_iff]
    rfl
  · constructor
    · intro hends
      exact Or.inr (hcounts.1 hends)
    · rintro (hasks | hnone)
      · exact heffect.last.2 (Or.inl hasks)
      · exact hcounts.2 hnone

/-- Two seconds after a span of five has begun, and one after a span of one: both are asked, and
nothing else is called. -/
theorem step_effect_of_spans :
    let events : List (Event Float32 World) :=
      [.span 0 5 fun _ w => w, .span 1 1 fun _ w => w, .call 5 id]
    let p : Playback Float32 World Empty Unit := opening ⟨"spans", events⟩ none
    let w := World.ofSeed none
    let moves : List (Move World) := [.step, .outside (·.beginTick 1), .step]
    let played := play moves p w
    let noted := play (moves.map Move.journaled) (p.recorded id)
      (⟨w, []⟩ : Journaled (Call Float32) World)
    played.1.phase.isTerminal = false ∧ ¬ played.1.NextDue 2 ∧
    Call.ongoing noted.2.journal = [0, 1] ∧
    ∃ asked, Asked [0, 1] asked ∧ (noted.1.step noted.2).2.2.journal =
      noted.2.journal ++ asked.flatMap (updating events 2) := by
  intro events p w moves played noted
  have hrun : played.1.phase.isTerminal = false := by decide
  have hnow : played.1.currentTime + Host.deltaTime played.2 = 2 := by decide
  have hongoing : Call.ongoing noted.2.journal = [0, 1] := by decide
  have hstays : (played.1.step played.2).1.isDone = false := by decide
  have hcursor : played.1.cursor = 2 := by decide
  obtain ⟨-, hstep⟩ := step_effect ⟨"spans", events⟩ (none : Option (Target Empty Unit)) moves w
  obtain ⟨-, htimeline, -, -, -, -, asked, visits, hwaiting, -, hjournal, -⟩ := hstep hrun
  have htimeline : played.1.timeline = ⟨"spans", events⟩ := htimeline
  have hnone : ¬ played.1.NextDue 2 := by
    rintro ⟨e, hnext, hdue⟩
    rw [htimeline, hcursor] at hnext
    cases hnext
    exact hdue (by decide)
  rw [hnow] at hwaiting
  obtain ⟨hasked, hvisits⟩ := hwaiting hnone
  refine ⟨hrun, hnone, hongoing, asked, ?_, ?_⟩
  · rw [← hongoing]
    exact hasked
  · rw [← hvisits]
    refine hjournal.trans ?_
    rw [hstays]
    exact List.append_nil _

end Playback

end Cueflow
