import Cueflow.World.Basic
import Cueflow.Proofs.Number.BinaryClock
import Cueflow.Proofs.Schedule.Progress
import Cueflow.Proofs.Schedule.Punctuality
import Cueflow.Proofs.Schedule.Tapping
import Cueflow.Proofs.Schedule.Updates
/-!
# Spans along a run

What the callback of a span is handed from its trigger on.

> `span_progress`: 0 at the trigger, then one value with every update, all in `[0, 1]` and none
> below the one before; the last is 1 if the span ended by itself; and nothing more is handed over
> after an exit or an abort.

The values are those that the tapped playback notes. They are told from the calls, so the proof is
about calls: the times that updates are made with are those since the start of the event, and the
clock does not go back (`Elapsed`); a span that reported its end was updated with a time that is
not below its duration; and after a call that asks to exit there are closings only (`Heeds`).
-/

namespace Cueflow

variable {T H K C : Type}

/-! ## The times of updates -/

/-- The time that an update is made with. -/
def EventCall.elapsed? : EventCall T → Option T
  | .update elapsed _ => some elapsed
  | .trigger _ | .close => none

namespace Call

/-- The times that an event is updated with, in order. -/
def elapsed (i : Nat) (calls : List (Call T)) : List T :=
  (ofEvent i calls).filterMap EventCall.elapsed?

theorem elapsed_append (i : Nat) (xs ys : List (Call T)) :
    elapsed i (xs ++ ys) = elapsed i xs ++ elapsed i ys := by
  unfold elapsed
  rw [ofEvent_append, List.filterMap_append]

theorem exists_of_mem_elapsed {i : Nat} {calls : List (Call T)} {x : T}
    (hx : x ∈ elapsed i calls) : ∃ answer, .event i (.update x answer) ∈ calls := by
  obtain ⟨call, hcall, hsome⟩ := List.mem_filterMap.1 hx
  cases call with
  | trigger _ => exact nomatch hsome
  | close => exact nomatch hsome
  | update y answer =>
    obtain rfl : y = x := Option.some.inj hsome
    exact ⟨answer, mem_of_mem_ofEvent hcall⟩

theorem mem_ofEvent {i : Nat} {calls : List (Call T)} {call : EventCall T}
    (h : .event i call ∈ calls) : call ∈ ofEvent i calls :=
  List.mem_filterMap.2 ⟨_, h, if_pos rfl⟩

theorem length_elapsed (i : Nat) (calls : List (Call T)) :
    (elapsed i calls).length = updates i calls := by
  unfold elapsed updates
  rw [List.length_filterMap_eq_countP]
  congr 1
  funext call
  cases call <;> rfl

end Call

/-! ## The life of a span -/

namespace Lived

variable {stage : Stage} {calls : List (EventCall T)} {d x : T}

/-- An event that is called at all is triggered first; what a span is handed is 0 then, and after
that the progress at each update. -/
theorem handed_eq [Scalar T] (h : Lived stage calls) (d : T) :
    calls = [] ∨ (∃ answer, .trigger answer ∈ calls) ∧ calls.filterMap (EventCall.handed d) =
      0 :: (calls.filterMap EventCall.elapsed?).map fun x => EventAction.progress x d := by
  rcases h.shape with rfl | ⟨answer, rfl⟩ | ⟨updates, ends, rfl, hupdates, hends⟩
  · exact Or.inl rfl
  · exact Or.inr ⟨⟨answer, List.mem_cons_self⟩, rfl⟩
  · refine Or.inr ⟨⟨_, List.mem_cons_self⟩, congrArg (0 :: ·) ?_⟩
    show (updates ++ ends).filterMap (EventCall.handed d) =
      ((updates ++ ends).filterMap EventCall.elapsed?).map fun x => EventAction.progress x d
    rw [List.filterMap_append, List.filterMap_append, List.map_append, List.map_filterMap]
    congr 1
    · refine List.filterMap_congr fun u hu => ?_
      obtain ⟨x, answer, rfl⟩ := hupdates u hu
      rfl
    · rcases hends with rfl | rfl <;> rfl

/-- The update that reported the end is the last, and those before did not report it. -/
theorem elapsed_of_finished (h : Lived stage calls) (hx : .update x .finished ∈ calls) :
    ∃ times, calls.filterMap EventCall.elapsed? = times ++ [x] ∧
      ∀ y ∈ times, .update y .ongoing ∈ calls := by
  have hlive : ∀ times : List T, .update x .finished ∉ livingCalls times := by
    intro times hmem
    simp [livingCalls] at hmem
  cases h with
  | scheduled => cases hx
  | instant _ => cases List.mem_singleton.1 hx
  | ongoing times => exact absurd hx (hlive times)
  | exiting times y => simp [livingCalls] at hx
  | cut times => simp [livingCalls] at hx
  | exited times y => simp [livingCalls] at hx
  | ended times y =>
    obtain rfl : x = y := by simpa [livingCalls] using hx
    refine ⟨times, ?_, fun y hy => List.mem_append_left _ ?_⟩
    · have htimes : (times.map fun y => EventCall.update y .ongoing).filterMap
          EventCall.elapsed? = times := by
        rw [List.filterMap_map]
        exact List.filterMap_some
      show (times.map (fun y => EventCall.update y .ongoing) ++
        [EventCall.update x .finished, .close]).filterMap EventCall.elapsed? = times ++ [x]
      rw [List.filterMap_append, htimes]
      rfl
    · exact List.mem_cons_of_mem _ (List.mem_map_of_mem hy)

variable [Scalar T] [SpanLaws T]

/-- Progress is handed in `[0, 1]`. -/
theorem handed_mem (h : Lived stage calls) (hd : Scalar.isFinite d = true)
    (hnonneg : ∀ x ∈ calls.filterMap EventCall.elapsed?, 0 ≤ x) :
    ∀ y ∈ calls.filterMap (EventCall.handed d), 0 ≤ y ∧ y ≤ 1 := by
  rcases h.handed_eq d with rfl | ⟨-, hhanded⟩
  · exact fun y hy => nomatch hy
  · rw [hhanded]
    refine List.forall_mem_cons.2 ⟨⟨ClockLaws.zero_le_zero, SpanLaws.zero_le_one⟩, fun y hy => ?_⟩
    obtain ⟨x, hx, rfl⟩ := List.mem_map.1 hy
    exact EventAction.progress_mem hd (hnonneg x hx)

/-- Progress that is handed does not go back. -/
theorem handed_sorted (h : Lived stage calls) (hd : Scalar.isFinite d = true)
    (hnonneg : ∀ x ∈ calls.filterMap EventCall.elapsed?, 0 ≤ x)
    (hsorted : (calls.filterMap EventCall.elapsed?).Pairwise (· ≤ ·)) :
    (calls.filterMap (EventCall.handed d)).Pairwise (· ≤ ·) := by
  rcases h.handed_eq d with rfl | ⟨-, hhanded⟩
  · exact .nil
  · rw [hhanded, List.pairwise_cons, List.pairwise_map]
    refine ⟨fun y hy => ?_, hsorted.imp_of_mem fun hx _ hxy => ?_⟩
    · obtain ⟨x, hx, rfl⟩ := List.mem_map.1 hy
      exact (EventAction.progress_mem hd (hnonneg x hx)).1
    · exact EventAction.progress_mono hd (hnonneg _ hx) hxy

/-- A span that reported its end was handed 1 last, and nothing but 0 before if it has no
duration. -/
theorem handed_of_finished (h : Lived stage calls) (hd : Scalar.isFinite d = true)
    (hnonneg : ∀ x ∈ calls.filterMap EventCall.elapsed?, 0 ≤ x)
    (hanswered : ∀ call ∈ calls, call.OfSpan d) (hx : .update x .finished ∈ calls) :
    (calls.filterMap (EventCall.handed d)).getLast? = some 1 ∧
      (¬ 0 < d → calls.filterMap (EventCall.handed d) = [0, 1]) := by
  obtain ⟨times, helapsed, htimes⟩ := h.elapsed_of_finished hx
  have hover : d ≤ x := EventStatus.until_eq_finished_iff.1 (hanswered _ hx).symm
  have hone : EventAction.progress x d = 1 := EventAction.progress_eq_one hd hover
  rcases h.handed_eq d with rfl | ⟨-, hhanded⟩
  · exact nomatch hx
  rw [helapsed, List.map_append, List.map_singleton, hone] at hhanded
  rw [hhanded]
  refine ⟨by rw [← List.cons_append, List.getLast?_concat], fun hzero => ?_⟩
  -- an earlier update would have found the duration passed
  have hnil : times = [] := by
    refine List.eq_nil_iff_forall_not_mem.2 fun y hy => ?_
    have hanswer : EventStatus.ongoing = .until y d := hanswered _ (htimes y hy)
    have hnonneg : 0 ≤ y := by
      refine hnonneg y ?_
      rw [helapsed]
      exact List.mem_append_left _ hy
    have hle : d ≤ 0 :=
      ClockLaws.le_of_not_lt ClockLaws.zero_le_zero (ClockLaws.le_self_of_isFinite hd) hzero
    rw [EventStatus.until_eq_finished_iff.2 (ClockLaws.le_trans hle hnonneg)] at hanswer
    exact nomatch hanswer
  rw [hnil]
  rfl

end Lived

namespace Playback

variable [Scalar T]

/-! ## Updates of a step -/

/-- An update is made to an ongoing event, with the time since its start. -/
theorem UpdatePass.mem_update {events : List (Event T H)} {now : T} {active : List Nat}
    {log : List (Call T)} {exited : Bool} {still : List Nat}
    (hpass : UpdatePass events now active log exited still) {i : Nat} {x : T}
    {answer : EventStatus} (hmem : .event i (.update x answer) ∈ log) :
    i ∈ active ∧ ∃ e, events[i]? = some e ∧ x = now - e.time := by
  induction hpass with
  | nil => exact nomatch hmem
  | ongoing he _ ih =>
    rcases List.mem_cons.1 hmem with heq | hmem
    · cases heq
      exact ⟨List.mem_cons_self, _, he, rfl⟩
    · exact ⟨List.mem_cons_of_mem _ (ih hmem).1, (ih hmem).2⟩
  | finished he _ ih =>
    rcases List.mem_cons.1 hmem with heq | hmem
    · cases heq
      exact ⟨List.mem_cons_self, _, he, rfl⟩
    · rcases List.mem_cons.1 hmem with heq | hmem
      · exact nomatch heq
      · exact ⟨List.mem_cons_of_mem _ (ih hmem).1, (ih hmem).2⟩
  | exit he =>
    cases List.mem_singleton.1 hmem
    exact ⟨List.mem_cons_self, _, he, rfl⟩

theorem Stepped.mem_update {p p' : Playback T H K C} {log : List (Call T)} {ends : Bool}
    (hstep : Stepped p log ends p') {i : Nat} {x : T} {answer : EventStatus}
    (hmem : .event i (.update x answer) ∈ log) :
    i ∈ p.active ∧ ∃ e, p.timeline.events[i]? = some e ∧ x = p.currentTime - e.time := by
  cases hstep with
  | @exited log still _ hpass =>
    rcases List.mem_append.1 hmem with hmem | hmem
    · rcases List.mem_append.1 hmem with hmem | hmem
      · exact hpass.mem_update hmem
      · exact absurd hmem (updateless_closes still i x answer)
    · exact absurd hmem (updateless_trail p i x answer)
  | updated _ hpass hadv =>
    rcases List.mem_append.1 hmem with hmem | hmem
    · exact hpass.mem_update hmem
    · exact absurd hmem (hadv.updateless i x answer)
  | due _ hadv => exact absurd hmem (hadv.updateless i x answer)

/-! ## Along a run -/

/-- The event was updated with times that are not below 0 and do not become less, the latest not
after the time that has passed since its start. -/
structure Elapsed (i : Nat) (e : Event T H) (p : Playback T H K C) (calls : List (Call T)) :
    Prop where
  sorted : (Call.elapsed i calls).Pairwise (· ≤ ·)
  bounded : ∀ x ∈ Call.elapsed i calls,
    0 ≤ x ∧ e.time ≤ p.currentTime ∧ x ≤ p.currentTime - e.time

namespace Elapsed

variable {i : Nat} {e : Event T H} {p p' : Playback T H K C} {calls log : List (Call T)}
  {ends : Bool} {d : T}

theorem opening (i : Nat) (e : Event T H) (p : Playback T H K C) : Elapsed i e p [] where
  sorted := .nil
  bounded _ hx := nomatch hx

theorem stepped [SpanLaws T] {t : Timeline T H} (h : Elapsed i e p calls)
    (he : t.events[i]? = some e) (hfinite : Scalar.isFinite e.time = true)
    (hpunctual : Punctual t p calls) (hp : p.Sound) (hrun : p.phase.isTerminal = false)
    (hd : 0 ≤ d) (hstep : Stepped (p.atTime (p.currentTime + d)) log ends p') :
    Elapsed i e p' (calls ++ log) := by
  obtain ⟨n, hreach⟩ := hstep.reach
  have hnow : p'.currentTime = p.currentTime + d := hreach.currentTime
  have hle : p.currentTime ≤ p.currentTime + d := ClockLaws.le_add hpunctual.clock hd
  -- what the step notes is the time that has passed by now
  have hnew : ∀ x ∈ Call.elapsed i log,
      e.time ≤ p.currentTime ∧ x = p.currentTime + d - e.time := by
    intro x hx
    obtain ⟨answer, hmem⟩ := Call.exists_of_mem_elapsed hx
    obtain ⟨hactive, e', he', hx⟩ := hstep.mem_update hmem
    have he' : p.timeline.events[i]? = some e' := he'
    rw [hpunctual.timeline, he] at he'
    obtain rfl : e = e' := Option.some.inj he'
    exact ⟨(hpunctual.running hrun).2 i (hp.active_lt i hactive) e he, hx⟩
  have hold : ∀ x ∈ Call.elapsed i calls, x ≤ p.currentTime + d - e.time := by
    intro x hx
    obtain ⟨-, hstarted, hx⟩ := h.bounded x hx
    exact ClockLaws.le_trans hx (SpanLaws.sub_le_sub hfinite hstarted hle)
  have hself : e.time ≤ p.currentTime →
      p.currentTime + d - e.time ≤ p.currentTime + d - e.time := fun hstarted =>
    SpanLaws.sub_le_sub hfinite (ClockLaws.le_trans hstarted hle) (ClockLaws.le_self_of_le hle)
  rw [← hnow] at hold hself hnew hle
  refine ⟨?_, fun x hx => ?_⟩
  · rw [Call.elapsed_append, List.pairwise_append]
    refine ⟨h.sorted, List.pairwise_of_forall_mem_list fun x hx y hy => ?_, fun x hx y hy => ?_⟩
    · rw [(hnew x hx).2, (hnew y hy).2]
      exact hself (hnew x hx).1
    · rw [(hnew y hy).2]
      exact hold x hx
  · rw [Call.elapsed_append] at hx
    rcases List.mem_append.1 hx with hx | hx
    · obtain ⟨hnonneg, hstarted, -⟩ := h.bounded x hx
      exact ⟨hnonneg, ClockLaws.le_trans hstarted hle, hold x hx⟩
    · obtain ⟨hstarted, hx⟩ := hnew x hx
      have hstarted' := ClockLaws.le_trans hstarted hle
      rw [hx]
      exact ⟨SpanLaws.sub_nonneg hfinite hstarted', hstarted', hself hstarted⟩

theorem aborted (h : Elapsed i e p calls) : Elapsed i e p.aborted (calls ++ closes p.active) := by
  have hnone : Call.elapsed i (closes p.active : List (Call T)) = [] := by
    refine List.eq_nil_iff_forall_not_mem.2 fun x hx => ?_
    obtain ⟨answer, hmem⟩ := Call.exists_of_mem_elapsed hx
    exact updateless_closes p.active i x answer hmem
  refine ⟨?_, ?_⟩
  · rw [Call.elapsed_append, hnone, List.append_nil]
    exact h.sorted
  · rw [Call.elapsed_append, hnone, List.append_nil]
    exact h.bounded

end Elapsed

omit [Scalar T] in
theorem eq_close_of_mem_closes {active : List Nat} {i : Nat} {call : EventCall T}
    (hmem : .event i call ∈ (closes active : List (Call T))) : call = .close := by
  obtain ⟨j, -, heq⟩ := List.mem_map.1 hmem
  cases heq
  rfl

omit [Scalar T] in
theorem eq_close_of_mem_ending {p : Playback T H K C} {left : List Nat} {i : Nat}
    {call : EventCall T} (hmem : .event i call ∈ closes left ++ p.trail) : call = .close := by
  rcases List.mem_append.1 hmem with hmem | hmem
  · exact eq_close_of_mem_closes hmem
  · rcases p.trail_cases with htrail | htrail <;> rw [htrail] at hmem
    · cases hmem
    · cases List.mem_singleton.1 hmem

/-- While the playback runs, nothing has asked to exit; and after a call that did, events are
closed and nothing else is done to them. -/
structure Heeds (p : Playback T H K C) (calls : List (Call T)) : Prop where
  running : p.phase.isTerminal = false → ∀ call ∈ calls, call.asksExit = false
  last : ∀ before call after, calls = before ++ call :: after → call.asksExit = true →
    ∀ i c, .event i c ∈ after → c = .close

namespace Heeds

variable {p p' : Playback T H K C} {calls log : List (Call T)} {ends : Bool} {now : T}

omit [Scalar T] in
/-- If nothing asks to exit, nothing follows a call that does. -/
theorem of_none (hnone : ∀ call ∈ calls, call.asksExit = false) : Heeds p calls where
  running _ := hnone
  last before call after hsplit hasks := by
    have hmem : call ∈ calls := by
      rw [hsplit]
      exact List.mem_append_right _ List.mem_cons_self
    rw [hnone call hmem] at hasks
    exact nomatch hasks

theorem stepped (h : Heeds p calls) (hp : p.Sound) (hrun : p.phase.isTerminal = false)
    (hstep : Stepped (p.atTime now) log ends p') : Heeds p' (calls ++ log) := by
  have hcalls := h.running hrun
  rcases hstep.exit_or (hp.atTime now) rfl with hnone | ⟨⟨before, call, left, hexit⟩, -, hended⟩
  · exact .of_none (List.forall_mem_append.2 ⟨hcalls, hnone⟩)
  · refine ⟨fun hrun' => ?_, fun before' call' after hsplit hasks => ?_⟩
    · rw [hended] at hrun'
      exact nomatch hrun'
    · -- the calls can be cut at one place only
      rw [hexit.log_eq, ← List.append_assoc] at hsplit
      obtain ⟨-, -, hrest⟩ := eq_of_split_asking (List.forall_mem_append.2 ⟨hcalls, hexit.first⟩)
        (asksExit_ending (p.atTime now) left) hsplit hasks
      intro i c hmem
      exact eq_close_of_mem_ending (hrest ▸ hmem)

omit [Scalar T] in
theorem aborted (h : Heeds p calls) (hrun : p.phase.isTerminal = false) :
    Heeds p.aborted (calls ++ closes p.active) :=
  .of_none (List.forall_mem_append.2 ⟨h.running hrun, asksExit_closes p.active⟩)

end Heeds

/-- Closings hand over nothing. -/
theorem handed_closes (i : Nat) (d : T) (active : List Nat) :
    (Call.ofEvent i (closes active : List (Call T))).filterMap (EventCall.handed d) = [] := by
  refine List.filterMap_eq_nil_iff.2 fun call hcall => ?_
  rw [eq_close_of_mem_closes (Call.mem_of_mem_ofEvent hcall)]
  rfl

/-- All that is kept along a run of a timeline with a span in it. -/
structure SpanRun (t : Timeline T H) (i : Nat) (e : Event T H) (p : Playback T H K C)
    (calls : List (Call T)) : Prop where
  punctual : Punctual t p calls
  accounts : Accounts p calls
  elapsed : Elapsed i e p calls
  heeds : Heeds p calls

section Runs

variable [Host H T] [Builder K H C] {t : Timeline T H} {i : Nat} {e : Event T H} {f : T → H → H}

/-- However a timeline is played, the tap hears what the span is handed in the calls. -/
theorem heard_play (he : t.events[i]? = some e) (hspan : e.action = .span f)
    (target : Option (Target K C)) (moves : List (Move H)) (h : H) :
    let noted := play (moves.map Move.journaled) ((opening t target).recorded id)
      (⟨h, []⟩ : Journaled (Call T) H)
    let tapped := play (moves.map Move.journaled) ((opening t target).tapped i)
      (⟨h, []⟩ : Journaled T H)
    tapped.1.phase = noted.1.phase ∧ Heard i e.duration noted.2 tapped.2 := by
  intro noted tapped
  have hmoves : List.Forall₂ (Move.Simulates (Heard i e.duration))
      (moves.map Move.journaled) (moves.map Move.journaled) := by
    rw [List.forall₂_map_left_iff, List.forall₂_map_right_iff, List.forall₂_same]
    intro move _
    cases move with
    | step => exact .step
    | abort => exact .abort
    | outside f => exact .outside fun hs => hs.act f
  have hopening : Simulates (Heard i e.duration) ((opening t target).recorded id)
      ((opening t target).tapped i) := by
    refine simulates_tapped fun e' he' => ?_
    have he' : t.events[i]? = some e' := he'
    rw [he] at he'
    obtain rfl : e = e' := Option.some.inj he'
    exact ⟨f, hspan, rfl⟩
  have hdelta : ∀ {s : Journaled (Call T) H} {s' : Journaled T H}, Heard i e.duration s s' →
      (Host.deltaTime s' : T) = Host.deltaTime s := fun hs => congrArg Host.deltaTime hs.host
  obtain ⟨hsimulates, hheard⟩ := hopening.play hdelta hmoves (Heard.nothing i e.duration h)
  exact ⟨hsimulates.phase, hheard⟩

omit [Builder K H C] in
/-- To play moves is to play the first ones and then the others. -/
theorem play_append {S : Type} [Host S T] [Builder K S C] (xs ys : List (Move S))
    (p : Playback T S K C) (s : S) :
    play (xs ++ ys) p s = play ys (play xs p s).1 (play xs p s).2 := by
  unfold play Move.run
  rw [List.foldl_append]

/-- Nothing but closings is noted once a playback is over, or from an abort on. -/
theorem journal_after_end {p : Playback T H K C} (hp : p.Sound) (h : H) (calls : List (Call T))
    (more : List (Move H))
    (hmore : p.phase.isTerminal = true ∨ ∃ rest, more = .abort :: rest) :
    ∃ active, (play (more.map Move.journaled) (p.recorded id)
      (⟨h, calls⟩ : Journaled (Call T) H)).2.journal = calls ++ closes active := by
  by_cases hover : p.phase.isTerminal = true
  · refine ⟨[], ?_⟩
    rw [(still_of_isTerminal hover h calls more).1]
    exact (List.append_nil calls).symm
  · obtain ⟨rest, rfl⟩ := hmore.resolve_left hover
    obtain ⟨-, haborted⟩ := abort_recorded (id : Call T → Call T) hp (by simpa using hover)
      ⟨h, calls⟩
    refine ⟨p.active, ?_⟩
    show (play (rest.map Move.journaled) ((p.recorded id).abort ⟨h, calls⟩).1
      ((p.recorded id).abort ⟨h, calls⟩).2).2.journal = _
    rw [haborted, List.map_id, (still_of_isTerminal (p := p.aborted) rfl _ _ rest).1]

/-- So the tap hears nothing more then. -/
theorem tapped_after_end (he : t.events[i]? = some e) (hspan : e.action = .span f)
    (target : Option (Target K C)) {moves : List (Move H)} {h : H} {p : Playback T H K C} {h' : H}
    {calls : List (Call T)} (hp : p.Sound)
    (hnoted : play (moves.map Move.journaled) ((opening t target).recorded id)
      (⟨h, []⟩ : Journaled (Call T) H) = (p.recorded id, ⟨h', calls⟩)) (more : List (Move H))
    (hmore : p.phase.isTerminal = true ∨ ∃ rest, more = .abort :: rest) :
    (play ((moves ++ more).map Move.journaled) ((opening t target).tapped i)
      (⟨h, []⟩ : Journaled T H)).2.journal =
    (play (moves.map Move.journaled) ((opening t target).tapped i)
      (⟨h, []⟩ : Journaled T H)).2.journal := by
  obtain ⟨active, hclosed⟩ := journal_after_end hp h' calls more hmore
  have hmoved : play ((moves ++ more).map Move.journaled) ((opening t target).recorded id)
      (⟨h, []⟩ : Journaled (Call T) H) =
      play (more.map Move.journaled) (p.recorded id) ⟨h', calls⟩ := by
    rw [List.map_append, play_append, hnoted]
  -- what the tap notes is told from the calls, and those to come are closings
  rw [(heard_play he hspan target (moves ++ more) h).2.journal,
    (heard_play he hspan target moves h).2.journal, hmoved, hclosed, Call.ofEvent_append,
    List.filterMap_append, handed_closes, List.append_nil, hnoted]

end Runs

/-- Along every run of an accepted timeline, in steps of lengths that are not below 0, the callback
of a span is handed 0 when the span is triggered, if it is, and one value more with every update.
All of them are in `[0, 1]`, and none is below the one before. If the span reported its end, the
last one is 1; without a duration the span is handed 0 and 1 then. After a call that asks to exit
nothing is done to the span but to close it, and once the playback is over, or from an abort on,
nothing more is handed over. Neither journal changes anything of the run. -/
theorem span_progress [SpanLaws T] [Host H T] [Builder K H C] {name : String}
    {events : List (Event T H)} {t : Timeline T H}
    (ht : Timeline.ofEvents name events = .ok t) {i : Nat} {e : Event T H}
    (he : t.events[i]? = some e) {f : T → H → H} (hspan : e.action = .span f)
    (target : Option (Target K C)) (moves : List (Move H)) (h : H)
    (hpaced : Paced (fun d => 0 ≤ d) moves (opening t target) h) :
    let played := play moves (opening t target) h
    let noted := play (moves.map Move.journaled) ((opening t target).recorded id)
      (⟨h, []⟩ : Journaled (Call T) H)
    let tapped := play (moves.map Move.journaled) ((opening t target).tapped i)
      (⟨h, []⟩ : Journaled T H)
    let calls := noted.2.journal
    let values := tapped.2.journal
    (noted.1 = played.1.recorded id ∧ noted.2.host = played.2 ∧
      tapped.1.phase = played.1.phase ∧ tapped.2.host = played.2) ∧
    (values = [] ∧ Call.ofEvent i calls = [] ∨
      ∃ later, values = 0 :: later ∧ .event i (.trigger .ongoing) ∈ calls ∧
        later.length = Call.updates i calls) ∧
    (∀ x ∈ values, 0 ≤ x ∧ x ≤ 1) ∧ values.Pairwise (· ≤ ·) ∧
    ((∃ x, .event i (.update x .finished) ∈ calls) →
      values.getLast? = some 1 ∧ (¬ 0 < e.duration → values = [0, 1])) ∧
    (∀ before call after, calls = before ++ call :: after → call.asksExit = true →
      ∀ c, .event i c ∈ after → c = .close) ∧
    (∀ more, played.1.phase.isTerminal = true ∨ (∃ rest, more = .abort :: rest) →
      (play ((moves ++ more).map Move.journaled) ((opening t target).tapped i)
        (⟨h, []⟩ : Journaled T H)).2.journal = values) := by
  intro played noted tapped calls values
  have hordered := Timeline.ordered_of_ofEvents ht
  have hmem : e ∈ t.events := List.mem_of_getElem? he
  obtain ⟨htime, hduration⟩ := Timeline.isFinite_of_ofEvents ht e hmem
  obtain ⟨log, hnoted, hsound, hrun⟩ := play_recorded (id : Call T → Call T)
    (D := fun d => 0 ≤ d) (I := SpanRun t i e)
    (fun hp hrun h hd hstep => ⟨h.punctual.stepped hordered hp hrun hd hstep,
      h.accounts.stepped hp hrun hstep, h.elapsed.stepped he htime h.punctual hp hrun hd hstep,
      h.heeds.stepped hp hrun hstep⟩)
    (fun hp hrun h => ⟨h.punctual.aborted, h.accounts.aborted hp hrun, h.elapsed.aborted,
      h.heeds.aborted hrun⟩)
    moves (sound_opening t target)
    ⟨.opening t target, .opening t target, .opening i e _, .of_none fun _ hcall => nomatch hcall⟩
    (⟨h, []⟩ : Journaled (Call T) H) hpaced
  rw [List.nil_append, List.map_id] at hnoted
  have hnoted : noted = (played.1.recorded id, ⟨played.2, log⟩) := hnoted
  have hcalls : calls = log := congrArg (fun x => x.2.journal) hnoted
  rw [List.nil_append, ← hcalls] at hrun
  obtain ⟨hphase, hheard⟩ := heard_play he hspan target moves h
  obtain ⟨stage, hlived, -⟩ := hrun.accounts.lived i
  have hvalues : values = (Call.ofEvent i calls).filterMap (EventCall.handed e.duration) :=
    hheard.journal
  have hanswered : ∀ call ∈ Call.ofEvent i calls, call.OfSpan e.duration := hheard.answered
  have hnonneg : ∀ x ∈ Call.elapsed i calls, 0 ≤ x := fun x hx => (hrun.elapsed.bounded x hx).1
  refine ⟨⟨congrArg Prod.fst hnoted, congrArg (fun x => x.2.host) hnoted, ?_, ?_⟩, ?_, ?_, ?_, ?_,
    fun before call after hsplit hasks => hrun.heeds.last before call after hsplit hasks i,
    fun more hmore => tapped_after_end he hspan target hsound hnoted more hmore⟩
  · rw [hphase]
    exact congrArg (fun x => x.1.phase) hnoted
  · exact hheard.host.trans (congrArg (fun x => x.2.host) hnoted)
  · rw [hvalues]
    rcases hlived.handed_eq e.duration with hnil | ⟨⟨answer, hanswer⟩, hhanded⟩
    · rw [hnil]
      exact Or.inl ⟨rfl, rfl⟩
    · obtain rfl : answer = .ongoing := hanswered _ hanswer
      refine Or.inr ⟨_, hhanded, Call.mem_of_mem_ofEvent hanswer, ?_⟩
      rw [List.length_map]
      exact Call.length_elapsed i calls
  · rw [hvalues]
    exact hlived.handed_mem hduration hnonneg
  · rw [hvalues]
    exact hlived.handed_sorted hduration hnonneg hrun.elapsed.sorted
  · rintro ⟨x, hx⟩
    rw [hvalues]
    exact hlived.handed_of_finished hduration hnonneg hanswered (Call.mem_ofEvent hx)

/-- A span from 0.5 to 1.5 is reached a quarter of a second late. It is handed 0 and then what has
passed since 0.5, kept down to 1 when it is over; an abort after that adds nothing. -/
theorem span_progress_to_the_end :
    let w := (World.ofSeed none).beginTick 0.75
    let events : List (Event Float32 World) := [.span 0.5 1 fun _ w => w, .call 5 id]
    let p : Playback Float32 World Empty Unit := opening ⟨"fade", events⟩ none
    let moves : List (Move World) := [.step, .outside (·.beginTick 0.125), .step,
      .outside (·.beginTick 1), .step]
    let noted := play (moves.map Move.journaled) (p.recorded id)
      (⟨w, []⟩ : Journaled (Call Float32) World)
    let tapped := play (moves.map Move.journaled) (p.tapped 0) (⟨w, []⟩ : Journaled Float32 World)
    Timeline.ofEvents "fade" events = .ok ⟨"fade", events⟩ ∧ Paced (fun d => 0 ≤ d) moves p w ∧
    .event 0 (.update 1.375 .finished) ∈ noted.2.journal ∧
    tapped.2.journal = [0, 0.375, 1] ∧ tapped.2.journal.getLast? = some 1 ∧
    (play ((moves ++ [Move.abort, Move.step]).map Move.journaled) (p.tapped 0)
      (⟨w, []⟩ : Journaled Float32 World)).2.journal = tapped.2.journal := by
  intro w events p moves noted tapped
  have ht : Timeline.ofEvents "fade" events = .ok ⟨"fade", events⟩ := by rfl
  have hpaced : Paced (fun d => 0 ≤ d) moves p w := by
    refine ⟨?_, ?_, ?_, trivial⟩ <;> decide +kernel
  have hfinished : .event 0 (.update 1.375 .finished) ∈ noted.2.journal := by decide +kernel
  obtain ⟨-, -, -, -, hends, -, hmore⟩ :=
    span_progress ht (i := 0) rfl rfl none moves w hpaced
  exact ⟨ht, hpaced, hfinished, by decide +kernel, (hends ⟨_, hfinished⟩).1,
    hmore _ (Or.inr ⟨_, rfl⟩)⟩

end Playback

end Cueflow
