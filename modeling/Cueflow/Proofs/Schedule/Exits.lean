import Mathlib.Data.List.Basic
import Cueflow.World.Basic
import Cueflow.Proofs.Schedule.Ongoing
/-!
# Exit and abort

The two ways to stop a playback before everything in it has been played.

> `exit_closes_ongoing`: the first event that asks to exit is the last to be triggered or
> updated in the whole run. After it come the closings of what is ongoing at that moment, in
> the order of the triggers, and then at most the resolution of the target.

> `abort_closes_ongoing`: so it is with an abort, which resolves nothing.

In both cases the playback is over and keeps still, whatever is done to it. An event that
asks to exit when it is triggered never goes ongoing, one that asks to exit in an update is
still ongoing; so the former has no closing and the latter has one. `Exit` holds what the
calls of a step look like in which an event asks to exit; it is found in the two passes of a
step, and `Stepped.exit_or` puts them together.
-/

namespace Cueflow

variable {T H K C : Type}

namespace Playback

/-! ## Calls that ask to exit -/

theorem asksExit_closes (active : List Nat) :
    ∀ call ∈ (closes active : List (Call T)), call.asksExit = false := by
  intro call hcall
  obtain ⟨i, -, rfl⟩ := List.mem_map.1 hcall
  rfl

theorem asksExit_trail (p : Playback T H K C) : ∀ call ∈ p.trail, call.asksExit = false := by
  intro call hcall
  rcases p.trail_cases with h | h
  · rw [h] at hcall
    cases hcall
  · rw [h] at hcall
    rw [List.mem_singleton.1 hcall]
    rfl

theorem asksExit_ending (p : Playback T H K C) (left : List Nat) :
    ∀ call ∈ closes left ++ p.trail, call.asksExit = false :=
  List.forall_mem_append.2 ⟨asksExit_closes left, asksExit_trail p⟩

/-- Calls of which only one asks to exit are cut there by any call that asks. -/
theorem eq_of_split_asking {before before' after after' : List (Call T)} {call call' : Call T}
    (hbefore : ∀ c ∈ before, c.asksExit = false) (hafter : ∀ c ∈ after, c.asksExit = false)
    (hsplit : before ++ call :: after = before' ++ call' :: after')
    (hasks : call'.asksExit = true) : before' = before ∧ call' = call ∧ after' = after := by
  have hout : ∀ {calls : List (Call T)}, (∀ c ∈ calls, c.asksExit = false) → call' ∉ calls := by
    intro calls hnone hmem
    have := hnone call' hmem
    rw [hasks] at this
    cases this
  obtain ⟨hbefore', hcall, hafter'⟩ :=
    (List.append_cons_inj_of_notMem (hout hbefore) (hout hafter)).1 hsplit
  exact ⟨hbefore'.symm, hcall.symm, hafter'.symm⟩

variable [Scalar T]

/-- An update that asks to exit is the last call of its pass. -/
theorem UpdatePass.asksExit {events : List (Event T H)} {now : T} {active : List Nat}
    {log : List (Call T)} {exited : Bool} {still : List Nat}
    (hpass : UpdatePass events now active log exited still) :
    (exited = false → ∀ call ∈ log, call.asksExit = false) ∧
      (exited = true → ∃ before i x, log = before ++ [.event i (.update x .exit)] ∧
        (∀ call ∈ before, call.asksExit = false) ∧ i ∈ still) := by
  induction hpass with
  | nil => exact ⟨fun _ call hcall => (nomatch hcall), fun hexit => nomatch hexit⟩
  | ongoing _ _ ih =>
    refine ⟨fun hstays => List.forall_mem_cons.2 ⟨rfl, ih.1 hstays⟩, fun hexit => ?_⟩
    obtain ⟨before, i, x, rfl, hbefore, hi⟩ := ih.2 hexit
    exact ⟨_ :: before, i, x, rfl, List.forall_mem_cons.2 ⟨rfl, hbefore⟩,
      List.mem_cons_of_mem _ hi⟩
  | finished _ _ ih =>
    refine ⟨fun hstays => ?_, fun hexit => ?_⟩
    · exact List.forall_mem_cons.2 ⟨rfl, List.forall_mem_cons.2 ⟨rfl, ih.1 hstays⟩⟩
    · obtain ⟨before, i, x, rfl, hbefore, hi⟩ := ih.2 hexit
      exact ⟨_ :: _ :: before, i, x, rfl,
        List.forall_mem_cons.2 ⟨rfl, List.forall_mem_cons.2 ⟨rfl, hbefore⟩⟩, hi⟩
  | @exit i e rest _ =>
    refine ⟨fun hstays => (nomatch hstays), fun _ => ?_⟩
    exact ⟨[], i, now - e.time, rfl, fun call hcall => (nomatch hcall), List.mem_cons_self⟩

/-- A trigger that asks to exit is the last call of its pass. -/
theorem TriggerPass.asksExit {now : T} {pending : List (Event T H)} {cursor : Nat}
    {active : List Nat} {log : List (Call T)} {reached : Reached} {cursor' : Nat}
    {active' : List Nat}
    (hpass : TriggerPass now pending cursor active log reached cursor' active') :
    (reached ≠ .exit → ∀ call ∈ log, call.asksExit = false) ∧
      (reached = .exit → ∃ before, log = before ++ [.event cursor' (.trigger .exit)] ∧
        ∀ call ∈ before, call.asksExit = false) := by
  induction hpass with
  | all => exact ⟨fun _ call hcall => (nomatch hcall), fun hexit => nomatch hexit⟩
  | future _ => exact ⟨fun _ call hcall => (nomatch hcall), fun hexit => nomatch hexit⟩
  | finished _ _ ih =>
    refine ⟨fun hstays => List.forall_mem_cons.2 ⟨rfl, ih.1 hstays⟩, fun hexit => ?_⟩
    obtain ⟨before, rfl, hbefore⟩ := ih.2 hexit
    exact ⟨_ :: before, rfl, List.forall_mem_cons.2 ⟨rfl, hbefore⟩⟩
  | ongoing _ _ ih =>
    refine ⟨fun hstays => List.forall_mem_cons.2 ⟨rfl, ih.1 hstays⟩, fun hexit => ?_⟩
    obtain ⟨before, rfl, hbefore⟩ := ih.2 hexit
    exact ⟨_ :: before, rfl, List.forall_mem_cons.2 ⟨rfl, hbefore⟩⟩
  | exit _ =>
    exact ⟨fun hstays => absurd rfl hstays,
      fun _ => ⟨[], rfl, fun call hcall => nomatch hcall⟩⟩

/-! ## Steps with an exit -/

/-- The calls of a step in which `call` asks to exit while `left` is ongoing. -/
structure Exit (p : Playback T H K C) (log before : List (Call T)) (call : Call T)
    (left : List Nat) : Prop where
  log_eq : log = before ++ call :: (closes left ++ p.trail)
  asks : call.asksExit = true
  first : ∀ c ∈ before, c.asksExit = false
  ongoing : (before ++ [call]).foldl Call.follow p.active = left
  nodup : left.Nodup
  updated : ∀ i x, call = .event i (.update x .exit) → i ∈ left
  triggered : ∀ i, call = .event i (.trigger .exit) → i ∉ left

omit [Scalar T] in
/-- Calls in front, none of which asks to exit. -/
theorem Exit.append_left {p : Playback T H K C} {log before log' : List (Call T)} {call : Call T}
    {left still : List Nat} (h : Exit { p with active := still } log before call left)
    (hlog' : ∀ c ∈ log', c.asksExit = false) (hfollow : log'.foldl Call.follow p.active = still) :
    Exit p (log' ++ log) (log' ++ before) call left where
  log_eq := by
    rw [h.log_eq, List.append_assoc]
    rfl
  asks := h.asks
  first := List.forall_mem_append.2 ⟨hlog', h.first⟩
  ongoing := by
    rw [List.append_assoc, List.foldl_append, hfollow]
    exact h.ongoing
  nodup := h.nodup
  updated := h.updated
  triggered := h.triggered

/-- The part of a step after the updates has an exit in it, or leaves none. -/
theorem Advanced.exit_or {p p' : Playback T H K C} {log : List (Call T)} {ends : Bool}
    (hp : p.Sound) (hrun : p.phase = .running) (hadv : Advanced p log ends p') :
    (∀ call ∈ log, call.asksExit = false) ∨
      (∃ before call left, Exit p log before call left) ∧ ends = true ∧
        p' = p.ended .exited := by
  cases hadv with
  | future hpass => exact Or.inl (hpass.asksExit.1 Reached.noConfusion)
  | busy hpass _ => exact Or.inl (hpass.asksExit.1 Reached.noConfusion)
  | finished hpass =>
    exact Or.inl (List.forall_mem_append.2
      ⟨hpass.asksExit.1 Reached.noConfusion, asksExit_trail p⟩)
  | @exited log cursor active hpass =>
    obtain ⟨before, hlog, hbefore⟩ := hpass.asksExit.2 rfl
    have hsound := hp.triggerPass hrun hpass
    refine Or.inr ⟨⟨before, .event cursor (.trigger .exit), active, ?_⟩, rfl, rfl⟩
    refine ⟨?_, rfl, hbefore, ?_, hsound.nodup, fun i x heq => (nomatch heq), ?_⟩
    · rw [hlog, List.append_assoc, List.append_assoc]
      rfl
    · rw [← hlog]
      exact hpass.follow
    · -- what is ongoing was triggered before the event at the cursor
      intro i heq hi
      injection heq with hcursor
      have hlt : i < cursor := hsound.active_lt i hi
      omega

/-- A step has an exit in it, which ends the playback, or has none. -/
theorem Stepped.exit_or {p p' : Playback T H K C} {log : List (Call T)} {ends : Bool}
    (hp : p.Sound) (hrun : p.phase = .running) (hstep : Stepped p log ends p') :
    (∀ call ∈ log, call.asksExit = false) ∨
      (∃ before call left, Exit p log before call left) ∧ ends = true ∧
        p' = p.ended .exited := by
  cases hstep with
  | @exited log still _ hpass =>
    obtain ⟨before, i, x, hlog, hbefore, hi⟩ := hpass.asksExit.2 rfl
    have hstill := hpass.follow [] hp.nodup
    refine Or.inr ⟨⟨before, .event i (.update x .exit), still, ?_⟩, rfl, rfl⟩
    refine ⟨?_, rfl, hbefore, ?_, hp.nodup.sublist hpass.sublist, ?_, fun i heq => nomatch heq⟩
    · rw [hlog, List.append_assoc, List.append_assoc]
      rfl
    · rw [← hlog]
      exact hstill
    · intro j y heq
      injection heq with hij
      rwa [← hij]
  | @updated log log' still _ _ _ hpass hadv =>
    have hnone := hpass.asksExit.1 rfl
    have hstill := hpass.follow [] hp.nodup
    rcases hadv.exit_or (hp.updatePass hrun hpass) hrun with
      hnone' | ⟨⟨before, call, left, h⟩, hend⟩
    · exact Or.inl (List.forall_mem_append.2 ⟨hnone, hnone'⟩)
    · exact Or.inr ⟨⟨_, call, left, h.append_left hnone hstill⟩, hend⟩
  | due _ hadv => exact hadv.exit_or hp hrun

omit [Scalar T] in
/-- However such a step is cut at a call that asks to exit, it is cut at the same place. -/
theorem Exit.eq_of_split {p : Playback T H K C} {log before before' after : List (Call T)}
    {call call' : Call T} {left : List Nat} (h : Exit p log before call left)
    (hsplit : log = before' ++ call' :: after) (hasks : call'.asksExit = true) :
    before' = before ∧ call' = call ∧ after = closes left ++ p.trail :=
  eq_of_split_asking h.first (asksExit_ending p left) (h.log_eq ▸ hsplit) hasks

omit [Scalar T] in
/-- What follows the call that asks to exit. -/
theorem Exit.after_cases {p : Playback T H K C} {log before after : List (Call T)} {call : Call T}
    {left : List Nat} (h : Exit p log before call left) (hlog : log = before ++ call :: after) :
    after = closes left ∨ after = closes left ++ [.resolve] := by
  obtain ⟨-, -, hafter⟩ := h.eq_of_split hlog h.asks
  rw [hafter]
  rcases p.trail_cases with htrail | htrail
  · rw [htrail, List.append_nil]
    exact Or.inl rfl
  · rw [htrail]
    exact Or.inr rfl

/-- A step that calls something that asks to exit is cut there. -/
theorem Stepped.exit_of_split {p p' : Playback T H K C} {log before after : List (Call T)}
    {call : Call T} {ends : Bool} (hp : p.Sound) (hrun : p.phase = .running)
    (hstep : Stepped p log ends p') (hlog : log = before ++ call :: after)
    (hasks : call.asksExit = true) :
    ∃ left, Exit p log before call left ∧ ends = true ∧ p' = p.ended .exited := by
  rcases hstep.exit_or hp hrun with hnone | ⟨⟨before', call', left, hexit⟩, hends, hended⟩
  · have hmem : call ∈ log := by
      rw [hlog]
      exact List.mem_append_right _ List.mem_cons_self
    rw [hnone call hmem] at hasks
    cases hasks
  · obtain ⟨rfl, rfl, -⟩ := hexit.eq_of_split hlog hasks
    exact ⟨left, hexit, hends, hended⟩

/-! ## A playback that is over -/

omit [Scalar T] in
/-- A playback that ended by itself has nothing ongoing and nothing scheduled. -/
theorem counts_ended (p : Playback T H K C) (phase : PlayPhase) :
    (p.ended phase).activeCount = 0 ∧ (p.ended phase).pendingCount = 0 :=
  ⟨rfl, Nat.sub_self _⟩

omit [Scalar T] in
/-- Neither has one that was aborted. -/
theorem counts_aborted (p : Playback T H K C) :
    p.aborted.activeCount = 0 ∧ p.aborted.pendingCount = 0 :=
  ⟨rfl, Nat.sub_self _⟩

variable [Host H T] [Builder K H C]

/-- A playback that is over keeps still, whatever is done to it. -/
theorem play_of_isTerminal {p : Playback T H K C} (hp : p.phase.isTerminal = true)
    (moves : List (Move H)) (h : H) : play moves p h = (p, Move.drift moves h) :=
  Move.run_of_idle (fun h => congrArg Prod.snd (step_of_isTerminal hp h))
    (abort_of_isTerminal hp) moves h

/-- Whatever is done to the playback from now on, nothing is called and it stays as it is; and
so does its host, unless something else happens to it. -/
def Still (p : Playback T H K C) (h : H) (calls : List (Call T)) : Prop :=
  ∀ more : List (Move H),
    play (more.map Move.journaled) (p.recorded id) (⟨h, calls⟩ : Journaled (Call T) H) =
      (p.recorded id, ⟨Move.drift more h, calls⟩) ∧
    ((∀ f, .outside f ∉ more) → play more p h = (p, h))

theorem still_of_isTerminal {p : Playback T H K C} (hp : p.phase.isTerminal = true) (h : H)
    (calls : List (Call T)) : p.Still h calls := by
  intro more
  constructor
  · rw [play_of_isTerminal (p := p.recorded id) hp, Move.drift_journaled]
  · intro hmore
    rw [play_of_isTerminal hp, Move.drift_of_no_outside hmore]

/-- Along every run, a step in which an event asks to exit: after the call that asks come the
closings of the events ongoing at that moment, one each and in the order of the triggers, and
at most the resolution of the target. The event that asks is among them if it was updated,
and is not if it was triggered. The step ends the playback with nothing ongoing and nothing
scheduled, and from then on nothing is called and nothing changes. An abort of a playback that
is not over comes to the same, with the closings as its only calls. -/
theorem exit_and_abort_close_ongoing (t : Timeline T H) (target : Option (Target K C))
    (moves : List (Move H)) (h : H) :
    let played := play moves (opening t target) h
    let noted := play (moves.map Move.journaled) ((opening t target).recorded id)
      (⟨h, []⟩ : Journaled (Call T) H)
    let plain := played.1.step played.2
    let next := noted.1.step noted.2
    let stopped := played.1.abort played.2
    let halted := noted.1.abort noted.2
    (next.1 = plain.1 ∧ next.2.1 = plain.2.1.recorded id ∧ next.2.2.host = plain.2.2) ∧
    (∀ before call after, next.2.2.journal = noted.2.journal ++ before ++ call :: after →
      call.asksExit = true →
      let left := Call.ongoing (noted.2.journal ++ before ++ [call])
      (after = closes left ∨ after = closes left ++ [.resolve]) ∧ left.Nodup ∧
      (∀ i x, call = .event i (.update x .exit) → i ∈ left) ∧
      (∀ i, call = .event i (.trigger .exit) → i ∉ left) ∧
      plain.1.isDone = true ∧ plain.2.1.phase = .exited ∧
      plain.2.1.activeCount = 0 ∧ plain.2.1.pendingCount = 0 ∧
      plain.2.1.Still plain.2.2 next.2.2.journal) ∧
    (played.1.phase.isTerminal = false →
      let left := Call.ongoing noted.2.journal
      halted = (stopped.1.recorded id, ⟨stopped.2, noted.2.journal ++ closes left⟩) ∧
      left.Nodup ∧ stopped.1.phase = .aborted ∧
      stopped.1.activeCount = 0 ∧ stopped.1.pendingCount = 0 ∧
      stopped.1.Still stopped.2 halted.2.journal) := by
  intro played noted plain next stopped halted
  obtain ⟨calls, log, hnoted, hrec, hsound, hfollows, hidle, hstep⟩ :=
    step_ongoing t target moves h
  have hnoted : noted = (played.1.recorded id, ⟨played.2, calls⟩) := hnoted
  have hnext : next = (plain.1, plain.2.1.recorded id, ⟨plain.2.2, calls ++ log⟩) := by
    show noted.1.step noted.2 = _
    rw [hnoted]
    exact hrec
  rw [hnext, hnoted]
  refine ⟨⟨rfl, rfl, rfl⟩, fun before call after hsplit hasks => ?_, fun hrun => ?_⟩
  · have hlog : log = before ++ call :: after := by
      rw [List.append_assoc] at hsplit
      exact List.append_cancel_left hsplit
    -- a step that calls something found the playback running
    have hrun : played.1.phase.isTerminal = false := by
      by_contra hover
      rw [hidle (by simpa using hover)] at hlog
      simp at hlog
    obtain ⟨left, hexit, hends, hended⟩ :=
      (hstep hrun).exit_of_split (hsound.atTime _) rfl hlog hasks
    have hleft : Call.ongoing (calls ++ before ++ [call]) = left := by
      rw [List.append_assoc, Call.ongoing_append, hfollows.ongoing]
      exact hexit.ongoing
    have hended : plain.2.1 = (played.1.atTime _).ended .exited := hended
    obtain ⟨hactive, hpending⟩ := counts_ended (played.1.atTime _) .exited
    rw [← hended] at hactive hpending
    have hover : plain.2.1.phase = .exited := by
      rw [hended]
      rfl
    have hterminal : plain.2.1.phase.isTerminal = true := by
      rw [hover]
      rfl
    dsimp only
    rw [hleft]
    exact ⟨hexit.after_cases hlog, hexit.nodup, hexit.updated, hexit.triggered, hends, hover,
      hactive, hpending, still_of_isTerminal hterminal _ _⟩
  · obtain ⟨hplain, hhalted⟩ := abort_recorded (id : Call T → Call T) hsound hrun
      ⟨played.2, calls⟩
    have hplain : stopped = (played.1.aborted, stopped.2) := hplain
    have hhalted : halted =
        (stopped.1.recorded id, ⟨stopped.2, calls ++ closes played.1.active⟩) := by
      show noted.1.abort noted.2 = _
      rw [hnoted, hplain]
      rw [List.map_id] at hhalted
      exact hhalted
    obtain ⟨hactive, hpending⟩ := counts_aborted played.1
    have hover : stopped.1.phase = .aborted := by
      rw [hplain]
      rfl
    have hterminal : stopped.1.phase.isTerminal = true := by
      rw [hover]
      rfl
    dsimp only
    rw [hhalted, hfollows.ongoing]
    refine ⟨rfl, hsound.nodup, hover, ?_, ?_, still_of_isTerminal hterminal _ _⟩
    · rw [hplain, hactive]
    · rw [hplain, hpending]

/-- An exit after one second cuts a span of five. -/
example :
    let w := (World.ofSeed none).beginTick 1
    let events : List (Event Float32 World) := [.span 0 5 fun _ w => w, .exitState 1, .call 2 id]
    let p : Playback Float32 World Empty Unit := opening ⟨"cut", events⟩ none
    (play [.step, .step] (p.recorded id) (⟨w, []⟩ : Journaled (Call Float32) World)).2.journal =
      [.event 0 (.trigger .ongoing), .event 1 (.trigger .exit), .event 0 .close] := by
  decide

end Playback

end Cueflow
