import Cueflow.Proofs.Schedule.Recording
/-!
# Which events are ongoing

Which events are ongoing can be read off the calls alone, and so can what a call leaves of
them: a trigger that is answered with `ongoing` adds an event at the end, a closing takes one
out, and no other call matters (`Call.ongoing`).

> `play_ongoing`: the events that the calls so far tell to be ongoing are those that the
> playback has listed, in the same order.

A statement about the events that are ongoing at some moment of a step can therefore name the
calls up to that moment, and needs no look into the playback between two steps.
-/

namespace Cueflow

variable {T H K C : Type}

namespace Call

/-- What a call leaves of the ongoing events. -/
def follow (ongoing : List Nat) : Call T → List Nat
  | .event i (.trigger .ongoing) => ongoing ++ [i]
  | .event i .close => ongoing.erase i
  | .event _ (.trigger .finished) | .event _ (.trigger .exit) | .event _ (.update _ _)
  | .condition _ _ _ | .logic _ _ | .resolve => ongoing

/-- The events that are ongoing after these calls, in the order of their triggers. -/
def ongoing (calls : List (Call T)) : List Nat := calls.foldl follow []

theorem ongoing_append (calls log : List (Call T)) :
    ongoing (calls ++ log) = log.foldl follow (ongoing calls) := List.foldl_append

/-- The call is to an event, and was answered with a wish to exit. -/
def asksExit : Call T → Bool
  | .event _ (.trigger .exit) | .event _ (.update _ .exit) => true
  | .event _ (.trigger .ongoing) | .event _ (.trigger .finished)
  | .event _ (.update _ .ongoing) | .event _ (.update _ .finished) | .event _ .close
  | .condition _ _ _ | .logic _ _ | .resolve => false

end Call

namespace Playback

/-! ## What passes leave ongoing -/

/-- Resolving a target leaves the ongoing events as they are. -/
theorem follow_trail (p : Playback T H K C) (ongoing : List Nat) :
    p.trail.foldl Call.follow ongoing = ongoing := by
  rcases p.trail_cases with h | h <;> rw [h] <;> rfl

/-- After their closings no event is ongoing. -/
theorem follow_closes (active : List Nat) :
    (closes active : List (Call T)).foldl Call.follow active = [] := by
  induction active with
  | nil => rfl
  | cons i rest ih =>
    show (closes rest).foldl Call.follow ((i :: rest).erase i) = []
    rw [List.erase_cons_head]
    exact ih

variable [Scalar T]

/-- Updating takes out just the events that were closed. -/
theorem UpdatePass.follow {events : List (Event T H)} {now : T} {active : List Nat}
    {log : List (Call T)} {exited : Bool} {still : List Nat}
    (hpass : UpdatePass events now active log exited still) (before : List Nat)
    (hnodup : (before ++ active).Nodup) :
    log.foldl Call.follow (before ++ active) = before ++ still := by
  -- events that stay move over to `before`, so that the list is always the whole one
  induction hpass generalizing before with
  | nil => rfl
  | @ongoing i e rest log exited still _ _ ih =>
    rw [List.append_cons] at hnodup
    rw [List.append_cons before i rest, List.append_cons before i still]
    exact ih (before ++ [i]) hnodup
  | @finished i e rest log exited still _ _ ih =>
    have hperm : (before ++ i :: rest).Perm (i :: (before ++ rest)) := List.perm_middle
    obtain ⟨hout, hrest⟩ := List.nodup_cons.1 (hperm.nodup_iff.1 hnodup)
    have herase : (before ++ i :: rest).erase i = before ++ rest := by
      rw [List.erase_append_right _ fun hi => hout (List.mem_append_left _ hi),
        List.erase_cons_head]
    show log.foldl Call.follow ((before ++ i :: rest).erase i) = before ++ still
    rw [herase]
    exact ih before hrest
  | exit _ => rfl

/-- Triggering adds just the events that went ongoing. -/
theorem TriggerPass.follow {now : T} {pending : List (Event T H)} {cursor : Nat}
    {active : List Nat} {log : List (Call T)} {reached : Reached} {cursor' : Nat}
    {active' : List Nat}
    (hpass : TriggerPass now pending cursor active log reached cursor' active') :
    log.foldl Call.follow active = active' := by
  induction hpass with
  | all => rfl
  | future _ => rfl
  | finished _ _ ih => exact ih
  | ongoing _ _ ih => exact ih
  | exit _ => rfl

theorem Advanced.follow {p p' : Playback T H K C} {log : List (Call T)} {ends : Bool}
    (hadv : Advanced p log ends p') : log.foldl Call.follow p.active = p'.active := by
  cases hadv with
  | future hpass => exact hpass.follow
  | busy hpass _ => exact hpass.follow
  | finished hpass =>
    rw [List.foldl_append, hpass.follow]
    exact follow_trail p []
  | exited hpass =>
    rw [List.foldl_append, List.foldl_append, hpass.follow, follow_closes]
    exact follow_trail p []

/-- The calls of a step tell what it leaves ongoing. -/
theorem Stepped.follow {p p' : Playback T H K C} {log : List (Call T)} {ends : Bool}
    (hp : p.Sound) (hstep : Stepped p log ends p') :
    log.foldl Call.follow p.active = p'.active := by
  cases hstep with
  | exited _ hpass =>
    have hstill := hpass.follow [] hp.nodup
    rw [List.nil_append, List.nil_append] at hstill
    rw [List.foldl_append, List.foldl_append, hstill, follow_closes]
    exact follow_trail p []
  | updated _ hpass hadv =>
    have hstill := hpass.follow [] hp.nodup
    rw [List.nil_append, List.nil_append] at hstill
    rw [List.foldl_append, hstill]
    exact hadv.follow
  | due _ hadv => exact hadv.follow

/-! ## Along a run -/

theorem Advanced.timeline {p p' : Playback T H K C} {log : List (Call T)} {ends : Bool}
    (hadv : Advanced p log ends p') : p'.timeline = p.timeline := by
  cases hadv <;> rfl

/-- A step plays the same timeline on. -/
theorem Stepped.timeline {p p' : Playback T H K C} {log : List (Call T)} {ends : Bool}
    (hstep : Stepped p log ends p') : p'.timeline = p.timeline := by
  cases hstep with
  | exited _ _ => rfl
  | updated _ _ hadv => exact hadv.timeline
  | due _ hadv => exact hadv.timeline

/-- The playback plays `t`, and the calls so far tell what it has ongoing. -/
structure Follows (t : Timeline T H) (p : Playback T H K C) (calls : List (Call T)) : Prop where
  timeline : p.timeline = t
  ongoing : Call.ongoing calls = p.active

theorem Follows.opening (t : Timeline T H) (target : Option (Target K C)) :
    Follows t (opening t target) [] where
  timeline := rfl
  ongoing := rfl

theorem Follows.stepped {t : Timeline T H} {p p' : Playback T H K C} {calls log : List (Call T)}
    {ends : Bool} {now : T} (h : Follows t p calls) (hp : p.Sound)
    (hstep : Stepped (p.atTime now) log ends p') : Follows t p' (calls ++ log) where
  timeline := hstep.timeline.trans h.timeline
  ongoing := by
    rw [Call.ongoing_append, h.ongoing]
    exact Stepped.follow (p := p.atTime now) (hp.atTime now) hstep

omit [Scalar T] in
theorem Follows.aborted {t : Timeline T H} {p : Playback T H K C} {calls : List (Call T)}
    (h : Follows t p calls) : Follows t p.aborted (calls ++ closes p.active) where
  timeline := h.timeline
  ongoing := by
    rw [Call.ongoing_append, h.ongoing]
    exact follow_closes p.active

variable [Host H T] [Builder K H C]

/-- The calls of a run tell what it leaves ongoing. The recorded run is the plain one with
these calls. -/
theorem play_ongoing (t : Timeline T H) (target : Option (Target K C)) (moves : List (Move H))
    (h : H) :
    ∃ calls : List (Call T),
      play (moves.map Move.journaled) ((opening t target).recorded id) ⟨h, []⟩ =
        ((play moves (opening t target) h).1.recorded id,
          ⟨(play moves (opening t target) h).2, calls⟩) ∧
      (play moves (opening t target) h).1.Sound ∧
      Follows t (play moves (opening t target) h).1 calls := by
  obtain ⟨calls, hnoted, hsound, hfollows⟩ := play_recorded (id : Call T → Call T)
    (D := fun _ => True) (I := Follows t) (fun hp _ h _ hstep => h.stepped hp hstep)
    (fun _ _ h => h.aborted) moves (sound_opening t target) (Follows.opening t target)
    (⟨h, []⟩ : Journaled (Call T) H) (Move.paced_true _ _ _ _)
  rw [List.nil_append, List.map_id] at hnoted
  exact ⟨calls, hnoted, hsound, hfollows⟩

/-- A step after a run adds its calls to those of the run, and none if the playback is over. -/
theorem step_ongoing (t : Timeline T H) (target : Option (Target K C)) (moves : List (Move H))
    (h : H) :
    let played := play moves (opening t target) h
    let plain := played.1.step played.2
    ∃ calls log : List (Call T),
      play (moves.map Move.journaled) ((opening t target).recorded id) ⟨h, []⟩ =
        (played.1.recorded id, ⟨played.2, calls⟩) ∧
      (played.1.recorded id).step ⟨played.2, calls⟩ =
        (plain.1, plain.2.1.recorded id, ⟨plain.2.2, calls ++ log⟩) ∧
      played.1.Sound ∧ Follows t played.1 calls ∧
      (played.1.phase.isTerminal = true → log = []) ∧
      (played.1.phase.isTerminal = false →
        Stepped (played.1.atTime (played.1.currentTime + Host.deltaTime played.2)) log
          plain.1.isDone plain.2.1) := by
  intro played plain
  obtain ⟨calls, hnoted, hsound, hfollows⟩ := play_ongoing t target moves h
  by_cases hover : played.1.phase.isTerminal = true
  · have hplain : plain = (.done none, played.1, played.2) := step_of_isTerminal hover _
    refine ⟨calls, [], hnoted, ?_, hsound, hfollows, fun _ => rfl, fun hrun => ?_⟩
    · rw [hplain, List.append_nil]
      exact step_of_isTerminal (p := played.1.recorded id) hover _
    · rw [hover] at hrun
      cases hrun
  · have hrun : played.1.phase.isTerminal = false := by simpa using hover
    obtain ⟨log, hrec, hstep⟩ := step_recorded (id : Call T → Call T) hsound hrun
      ⟨played.2, calls⟩
    rw [List.map_id] at hrec
    exact ⟨calls, log, hnoted, hrec, hsound, hfollows, fun h => absurd h hover, fun _ => hstep⟩

end Playback

end Cueflow
