import Cueflow.Proofs.Schedule.Passes
/-!
# Recorded playbacks

What a playback's callbacks are, step by step and along a run.

> `step_recorded`: the recorded step is the plain step with a list of calls added to the
> journal, and that list is one of the few that `Stepped` allows.

`Stepped` says all that a step can do: which events it updates, closes and triggers, with
what answers and in which order, and what it leaves scheduled and ongoing. `Sound` is the
shape that every playback keeps from its opening on; it makes the indices of the passes valid
and different from one another. `play_recorded` packages the induction along a run: what the
opening has, and every step and every abort keep, holds of the playback and of everything
noted so far.
-/

namespace Cueflow

variable {T H K C E : Type} [Scalar T]

namespace Playback

/-! ## What a step can do -/

/-- What resolving the target notes. -/
def trail (p : Playback T H K C) : List (Call T) :=
  match p.target with
  | none => []
  | some target => target.trail .resolve

omit [Scalar T] in
/-- The trail of a playback is a resolution or nothing. -/
theorem trail_cases (p : Playback T H K C) :
    p.trail = [] ∨ p.trail = [(.resolve : Call T)] := by
  unfold trail
  split
  · exact Or.inl rfl
  · next target _ => exact target.trail_cases _

/-- The playback with its clock at `now`. -/
def atTime (p : Playback T H K C) (now : T) : Playback T H K C :=
  { p with phase := .running, currentTime := now }

/-- The playback when it is over by itself: nothing is scheduled, nothing ongoing, and the
target taken. -/
def ended (p : Playback T H K C) (phase : PlayPhase) : Playback T H K C :=
  { p with phase, target := none, cursor := p.timeline.size, active := [] }

/-- What the part of a step after the updates can do: it notes `log`, and leaves the playback
as it is then, with `ends` telling whether that is its end. -/
inductive Advanced (p : Playback T H K C) :
    (log : List (Call T)) → (ends : Bool) → Playback T H K C → Prop where
  | future {log cursor active} :
      TriggerPass p.currentTime p.pending p.cursor p.active log .future cursor active →
      Advanced p log false { p with cursor, active }
  | busy {log cursor active} :
      TriggerPass p.currentTime p.pending p.cursor p.active log .all cursor active →
      active ≠ [] → Advanced p log false { p with cursor, active }
  | finished {log cursor} :
      TriggerPass p.currentTime p.pending p.cursor p.active log .all cursor [] →
      Advanced p (log ++ p.trail) true (p.ended .finished)
  | exited {log cursor active} :
      TriggerPass p.currentTime p.pending p.cursor p.active log .exit cursor active →
      Advanced p (log ++ closes active ++ p.trail) true (p.ended .exited)

/-- What a step can do to a playback whose clock it has moved. -/
inductive Stepped (p : Playback T H K C) :
    (log : List (Call T)) → (ends : Bool) → Playback T H K C → Prop where
  | exited {log still} : p.isWaiting = true →
      UpdatePass p.timeline.events p.currentTime p.active log true still →
      Stepped p (log ++ closes still ++ p.trail) true (p.ended .exited)
  | updated {log log' still ends p'} : p.isWaiting = true →
      UpdatePass p.timeline.events p.currentTime p.active log false still →
      Advanced { p with active := still } log' ends p' →
      Stepped p (log ++ log') ends p'
  | due {log ends p'} : p.isWaiting = false → Advanced p log ends p' →
      Stepped p log ends p'

omit [Scalar T] in
/-- Finishing ends the playback, with some continuation. -/
theorem finish_eq_ended [Builder K H C] (p : Playback T H K C) (phase : PlayPhase)
    (active : List Nat) (h : H) :
    (p.finish phase active h).1.isDone = true ∧
      (p.finish phase active h).2.1 = p.ended phase := by
  unfold finish ended
  dsimp only
  split
  · next hp => exact ⟨rfl, by simp [hp]⟩
  · exact ⟨rfl, rfl⟩

/-- Recorded finishing is the plain one with the closings and the trail of the target
noted, in this order. -/
theorem finish_recorded [Builder K H C] (mark : Call T → E) (p : Playback T H K C)
    (phase : PlayPhase) (active : List Nat) (hactive : ∀ i ∈ active, i < p.timeline.size)
    (s : Journaled E H) :
    (p.recorded mark).finish phase active s =
      ((p.finish phase active s.host).1, (p.finish phase active s.host).2.1.recorded mark,
        ⟨(p.finish phase active s.host).2.2,
          s.journal ++ (closes active ++ p.trail).map mark⟩) := by
  have hclose : closeAll (p.recorded mark).timeline.events active s = _ :=
    closeAll_recorded mark p.timeline.events active hactive s
  have hsize : (p.recorded mark).timeline.size = p.timeline.size :=
    Timeline.size_recorded mark p.timeline
  unfold finish trail
  rw [hclose, hsize]
  cases htarget : p.target with
  | none => simp [recorded, htarget]
  | some target =>
    simp only [recorded, htarget, Option.map_some, Target.resolve_recorded, List.map_append,
      Target.map_trail, List.append_assoc, Option.map_none]

omit [Scalar T] in
/-- The events after the cursor are the scheduled ones. -/
theorem cursor_add_pending {p : Playback T H K C} (hp : p.cursor ≤ p.timeline.size) :
    p.cursor + p.pending.length = p.timeline.size := by
  show p.cursor + (p.timeline.events.drop p.cursor).length = p.timeline.events.length
  have : p.cursor ≤ p.timeline.events.length := hp
  rw [List.length_drop]
  omega

/-- What is ongoing after a run through the scheduled events is part of the timeline. -/
theorem TriggerPass.lt_size {p : Playback T H K C} {log : List (Call T)} {reached : Reached}
    {cursor : Nat} {active : List Nat}
    (hpass : TriggerPass p.currentTime p.pending p.cursor p.active log reached cursor active)
    (hcursor : p.cursor ≤ p.timeline.size) (hactive : ∀ i ∈ p.active, i < p.cursor) :
    ∀ i ∈ active, i < p.timeline.size := by
  obtain ⟨-, hlen, started, rfl, -, hmem⟩ := hpass.active_eq
  rw [cursor_add_pending hcursor] at hlen
  intro i hi
  rcases List.mem_append.1 hi with hi | hi
  · exact Nat.lt_of_lt_of_le (hactive i hi) hcursor
  · exact Nat.lt_of_lt_of_le (hmem i hi).2 hlen

/-- The recorded part of a step after the updates is the plain one with a log. -/
theorem advance_recorded [Builder K H C] (mark : Call T → E) {p : Playback T H K C}
    (hcursor : p.cursor ≤ p.timeline.size) (hactive : ∀ i ∈ p.active, i < p.cursor)
    (s : Journaled E H) :
    ∃ log,
      (p.recorded mark).advance s =
        ((p.advance s.host).1, (p.advance s.host).2.1.recorded mark,
          ⟨(p.advance s.host).2.2, s.journal ++ log.map mark⟩) ∧
      Advanced p log (p.advance s.host).1.isDone (p.advance s.host).2.1 := by
  obtain ⟨log, hlog, hpass⟩ :=
    triggerDue_recorded mark p.currentTime p.pending p.cursor p.active s
  rcases htrig : triggerDue p.currentTime p.pending p.cursor p.active s.host with
    ⟨reached, cursor, active, h⟩
  rw [htrig] at hlog hpass
  dsimp only at hlog hpass
  have hrec : triggerDue (p.recorded mark).currentTime (p.recorded mark).pending
      (p.recorded mark).cursor (p.recorded mark).active s =
      (reached, cursor, active, ⟨h, s.journal ++ log.map mark⟩) := by
    rw [pending_recorded]
    exact hlog
  have hrange := hpass.lt_size hcursor hactive
  unfold advance
  rw [hrec, htrig]
  cases reached with
  | future => exact ⟨log, rfl, .future hpass⟩
  | exit =>
    -- the triggers come first, then the closings, and the target is resolved last
    have hfin := finish_recorded mark { p with cursor, active } .exited active hrange
      ⟨h, s.journal ++ log.map mark⟩
    have hend := finish_eq_ended { p with cursor, active } .exited active h
    refine ⟨log ++ closes active ++ p.trail, ?_, ?_⟩
    · refine hfin.trans ?_
      simp only [List.map_append, List.append_assoc]
      rfl
    · rw [hend.1, hend.2]
      exact .exited hpass
  | all =>
    dsimp only
    by_cases hempty : active.isEmpty
    · have hnil : active = [] := List.isEmpty_iff.1 hempty
      subst hnil
      have hfin := finish_recorded mark { p with cursor, active := [] } .finished []
        (by simp) ⟨h, s.journal ++ log.map mark⟩
      have hend := finish_eq_ended { p with cursor, active := [] } .finished [] h
      refine ⟨log ++ p.trail, ?_, ?_⟩
      · rw [if_pos hempty, if_pos hempty]
        refine hfin.trans ?_
        simp only [closes, List.map_nil, List.nil_append, List.map_append, List.append_assoc]
        rfl
      · rw [if_pos hempty, hend.1, hend.2]
        exact .finished hpass
    · rw [if_neg hempty, if_neg hempty]
      exact ⟨log, rfl, .busy hpass (fun hnil => hempty (List.isEmpty_iff.2 hnil))⟩

/-! ## The shape that a playback keeps -/

/-- The shape of every playback that was opened and then stepped and aborted: ongoing events
were triggered, in the order of the timeline; nothing has happened before the first step, and
nothing is left when the playback is over. -/
structure Sound (p : Playback T H K C) : Prop where
  cursor_le : p.cursor ≤ p.timeline.size
  active_lt : ∀ i ∈ p.active, i < p.cursor
  sorted : p.active.Pairwise (· < ·)
  unopened : p.phase = .notStarted → p.cursor = 0 ∧ p.active = []
  terminal : p.phase.isTerminal = true → p.cursor = p.timeline.size ∧ p.active = []

/-- The playback when it was aborted. -/
def aborted (p : Playback T H K C) : Playback T H K C :=
  { p with phase := .aborted, cursor := p.timeline.size, active := [] }

/-- A playback of a timeline, with a target or without, that has not started. -/
def opening (t : Timeline T H) (target : Option (Target K C)) : Playback T H K C :=
  { (ofTimeline t : Playback T H K C) with target }

omit [Scalar T] in
/-- An ongoing event is one of the timeline. -/
theorem Sound.active_lt_size {p : Playback T H K C} (hp : p.Sound) :
    ∀ i ∈ p.active, i < p.timeline.size :=
  fun i hi => Nat.lt_of_lt_of_le (hp.active_lt i hi) hp.cursor_le

omit [Scalar T] in
/-- No event is ongoing twice. -/
theorem Sound.nodup {p : Playback T H K C} (hp : p.Sound) : p.active.Nodup :=
  hp.sorted.imp Nat.ne_of_lt

theorem sound_opening (t : Timeline T H) (target : Option (Target K C)) :
    (opening t target).Sound where
  cursor_le := Nat.zero_le _
  active_lt _ hi := nomatch hi
  sorted := .nil
  unopened _ := ⟨rfl, rfl⟩
  terminal hover := nomatch hover

omit [Scalar T] in
theorem Sound.ended (p : Playback T H K C) {phase : PlayPhase}
    (hphase : phase.isTerminal = true) : (p.ended phase).Sound where
  cursor_le := Nat.le_refl _
  active_lt _ hi := nomatch hi
  sorted := .nil
  unopened hun := by
    have hun : phase = .notStarted := hun
    rw [hun] at hphase
    exact nomatch hphase
  terminal _ := ⟨rfl, rfl⟩

omit [Scalar T] in
theorem sound_aborted (p : Playback T H K C) : p.aborted.Sound where
  cursor_le := Nat.le_refl _
  active_lt _ hi := nomatch hi
  sorted := .nil
  unopened hun := nomatch hun
  terminal _ := ⟨rfl, rfl⟩

omit [Scalar T] in
/-- Moving the clock keeps the shape. -/
theorem Sound.atTime {p : Playback T H K C} (hp : p.Sound) (now : T) :
    (p.atTime now).Sound where
  cursor_le := hp.cursor_le
  active_lt := hp.active_lt
  sorted := hp.sorted
  unopened hun := nomatch hun
  terminal hover := nomatch hover

/-- A run through the scheduled events keeps the shape of a running playback. -/
theorem Sound.triggerPass {p : Playback T H K C} (hp : p.Sound) (hrun : p.phase = .running)
    {log : List (Call T)} {reached : Reached} {cursor : Nat} {active : List Nat}
    (hpass : TriggerPass p.currentTime p.pending p.cursor p.active log reached cursor
      active) : Sound { p with cursor, active } := by
  obtain ⟨hle, hlen, started, rfl, hsorted, hmem⟩ := hpass.active_eq
  rw [cursor_add_pending hp.cursor_le] at hlen
  refine ⟨hlen, ?_, ?_, fun hun => ?_, fun hover => ?_⟩
  · intro i hi
    rcases List.mem_append.1 hi with hi | hi
    · exact Nat.lt_of_lt_of_le (hp.active_lt i hi) hle
    · exact (hmem i hi).2
  · refine List.pairwise_append.2 ⟨hp.sorted, hsorted, fun i hi j hj => ?_⟩
    exact Nat.lt_of_lt_of_le (hp.active_lt i hi) (hmem j hj).1
  · exact nomatch hrun.symm.trans hun
  · have hover : p.phase.isTerminal = true := hover
    rw [hrun] at hover
    exact nomatch hover

/-- Updating keeps the shape of a running playback. -/
theorem Sound.updatePass {p : Playback T H K C} (hp : p.Sound) (hrun : p.phase = .running)
    {log : List (Call T)} {exited : Bool} {still : List Nat}
    (hpass : UpdatePass p.timeline.events p.currentTime p.active log exited still) :
    Sound { p with active := still } := by
  have hsub := hpass.sublist
  refine ⟨hp.cursor_le, fun i hi => hp.active_lt i (hsub.subset hi),
    List.Pairwise.sublist hsub hp.sorted, fun hun => ?_, fun hover => ?_⟩
  · exact nomatch hrun.symm.trans hun
  · have hover : p.phase.isTerminal = true := hover
    rw [hrun] at hover
    exact nomatch hover

theorem Sound.advanced {p p' : Playback T H K C} (hp : p.Sound) (hrun : p.phase = .running)
    {log : List (Call T)} {ends : Bool} (hstep : Advanced p log ends p') : p'.Sound := by
  cases hstep with
  | future hpass => exact hp.triggerPass hrun hpass
  | busy hpass _ => exact hp.triggerPass hrun hpass
  | finished _ => exact Sound.ended p rfl
  | exited _ => exact Sound.ended p rfl

theorem Sound.stepped {p p' : Playback T H K C} (hp : p.Sound) (hrun : p.phase = .running)
    {log : List (Call T)} {ends : Bool} (hstep : Stepped p log ends p') : p'.Sound := by
  cases hstep with
  | exited _ _ => exact Sound.ended p rfl
  | updated _ hpass hadv => exact (hp.updatePass hrun hpass).advanced hrun hadv
  | due _ hadv => exact hp.advanced hrun hadv

/-! ## Recorded steps and aborts -/

variable [Builder K H C]

/-- What a step does once it has moved the clock. -/
def proceed (p : Playback T H K C) (h : H) : StepResult C × Playback T H K C × H :=
  if p.isWaiting then
    match updateOngoing p.timeline.events p.currentTime p.active h with
    | (true, active, h) => finish p .exited active h
    | (false, active, h) => advance { p with active } h
  else advance p h

/-- A step of a playback that is not over moves the clock and proceeds. -/
theorem step_eq_proceed [Host H T] {p : Playback T H K C}
    (hrun : p.phase.isTerminal = false) (h : H) :
    p.step h = (p.atTime (p.currentTime + Host.deltaTime h)).proceed h := by
  unfold step
  rw [if_neg (by simp [hrun])]
  rfl

/-- The recorded rest of a step is the plain one with a log that `Stepped` allows. -/
theorem proceed_recorded (mark : Call T → E) {p : Playback T H K C} (hp : p.Sound)
    (s : Journaled E H) :
    ∃ log,
      (p.recorded mark).proceed s =
        ((p.proceed s.host).1, (p.proceed s.host).2.1.recorded mark,
          ⟨(p.proceed s.host).2.2, s.journal ++ log.map mark⟩) ∧
      Stepped p log (p.proceed s.host).1.isDone (p.proceed s.host).2.1 := by
  unfold proceed
  rw [isWaiting_recorded]
  by_cases hwait : p.isWaiting = true
  · rw [if_pos hwait, if_pos hwait]
    obtain ⟨log, hlog, hpass⟩ := updateOngoing_recorded mark p.timeline.events p.currentTime
      p.active hp.active_lt_size s
    rcases hupd : updateOngoing p.timeline.events p.currentTime p.active s.host with
      ⟨exited, still, h⟩
    rw [hupd] at hlog hpass
    dsimp only at hlog hpass
    have hsub := hpass.sublist
    have hrec : updateOngoing (p.recorded mark).timeline.events (p.recorded mark).currentTime
        (p.recorded mark).active s = (exited, still, ⟨h, s.journal ++ log.map mark⟩) := hlog
    rw [hrec]
    cases exited with
    | true =>
      -- the event that asked to exit and those after it are still to be closed
      have hfin := finish_recorded mark p .exited still
        (fun i hi => hp.active_lt_size i (hsub.subset hi)) ⟨h, s.journal ++ log.map mark⟩
      have hend := finish_eq_ended p .exited still h
      refine ⟨log ++ closes still ++ p.trail, ?_, ?_⟩
      · refine hfin.trans ?_
        simp only [List.map_append, List.append_assoc]
      · dsimp only
        rw [hend.1, hend.2]
        exact .exited hwait hpass
    | false =>
      obtain ⟨log', hlog', hadv⟩ := advance_recorded mark
        (p := { p with active := still }) hp.cursor_le
        (fun i hi => hp.active_lt i (hsub.subset hi)) ⟨h, s.journal ++ log.map mark⟩
      refine ⟨log ++ log', ?_, .updated hwait hpass hadv⟩
      refine hlog'.trans ?_
      simp only [List.map_append, List.append_assoc]
  · rw [if_neg hwait, if_neg hwait]
    obtain ⟨log, hlog, hadv⟩ := advance_recorded mark hp.cursor_le hp.active_lt s
    exact ⟨log, hlog, .due (by simpa using hwait) hadv⟩

/-- The recorded step is the plain step with a log that `Stepped` allows. -/
theorem step_recorded [Host H T] (mark : Call T → E) {p : Playback T H K C} (hp : p.Sound)
    (hrun : p.phase.isTerminal = false) (s : Journaled E H) :
    ∃ log,
      (p.recorded mark).step s =
        ((p.step s.host).1, (p.step s.host).2.1.recorded mark,
          ⟨(p.step s.host).2.2, s.journal ++ log.map mark⟩) ∧
      Stepped (p.atTime (p.currentTime + Host.deltaTime s.host)) log
        (p.step s.host).1.isDone (p.step s.host).2.1 := by
  rw [step_eq_proceed hrun, step_eq_proceed (p := p.recorded mark) hrun]
  exact proceed_recorded mark (hp.atTime _) s

omit [Builder K H C] in
/-- The recorded abort is the plain one with the closings noted, unless the playback is
over. -/
theorem abort_recorded (mark : Call T → E) {p : Playback T H K C} (hp : p.Sound)
    (hrun : p.phase.isTerminal = false) (s : Journaled E H) :
    p.abort s.host = (p.aborted, (p.abort s.host).2) ∧
      (p.recorded mark).abort s =
        (p.aborted.recorded mark,
          ⟨(p.abort s.host).2, s.journal ++ (closes p.active).map mark⟩) := by
  have hclose : closeAll (p.recorded mark).timeline.events (p.recorded mark).active s = _ :=
    closeAll_recorded mark p.timeline.events p.active hp.active_lt_size s
  have hsize : (p.recorded mark).timeline.size = p.timeline.size :=
    Timeline.size_recorded mark p.timeline
  unfold abort
  rw [phase_recorded, if_neg (by simp [hrun]), if_neg (by simp [hrun]), hclose, hsize]
  exact ⟨rfl, rfl⟩

/-! ## Runs -/

variable [Host H T]

/-- The playback and the host after these moves. -/
def play (moves : List (Move H)) (p : Playback T H K C) (h : H) : Playback T H K C × H :=
  Move.run (fun p h => (p.step h).2) abort moves (p, h)

/-- Every step among these moves reads a delta that satisfies `D`. -/
def Paced (D : T → Prop) (moves : List (Move H)) (p : Playback T H K C) (h : H) : Prop :=
  Move.Paced (fun h => D (Host.deltaTime h)) (fun p h => (p.step h).2) abort moves (p, h)

/-- The recorded run is the plain run with a log, and what every step and every abort keep
of a playback and of what was noted holds along it. -/
theorem play_recorded (mark : Call T → E) {D : T → Prop}
    {I : Playback T H K C → List (Call T) → Prop}
    (hstep : ∀ {p p' : Playback T H K C} {calls log : List (Call T)} {ends : Bool} {d : T},
      p.Sound → p.phase.isTerminal = false → I p calls → D d →
      Stepped (p.atTime (p.currentTime + d)) log ends p' → I p' (calls ++ log))
    (habort : ∀ {p : Playback T H K C} {calls : List (Call T)},
      p.Sound → p.phase.isTerminal = false → I p calls →
      I p.aborted (calls ++ closes p.active))
    (moves : List (Move H)) {p : Playback T H K C} {calls : List (Call T)} (hp : p.Sound)
    (hI : I p calls) (s : Journaled E H) (hD : Paced D moves p s.host) :
    ∃ log,
      play (moves.map Move.journaled) (p.recorded mark) s =
        ((play moves p s.host).1.recorded mark,
          ⟨(play moves p s.host).2, s.journal ++ log.map mark⟩) ∧
      (play moves p s.host).1.Sound ∧ I (play moves p s.host).1 (calls ++ log) := by
  refine Move.run_recorded (recorded mark) mark (I := fun p calls => p.Sound ∧ I p calls)
    ?_ ?_ moves ⟨hp, hI⟩ s hD
  · rintro p calls s ⟨hp, hI⟩ hD
    by_cases hrun : p.phase.isTerminal = true
    · -- nothing is called any more
      refine ⟨[], ?_, ?_⟩
      · rw [step_of_isTerminal hrun, step_of_isTerminal (p := p.recorded mark) hrun]
        simp
      · rw [step_of_isTerminal hrun, List.append_nil]
        exact ⟨hp, hI⟩
    · have hrun : p.phase.isTerminal = false := by simpa using hrun
      obtain ⟨log, hlog, hstepped⟩ := step_recorded mark hp hrun s
      exact ⟨log, congrArg Prod.snd hlog, (hp.atTime _).stepped rfl hstepped,
        hstep hp hrun hI hD hstepped⟩
  · rintro p calls s ⟨hp, hI⟩
    by_cases hrun : p.phase.isTerminal = true
    · refine ⟨[], ?_, ?_⟩
      · rw [abort_of_isTerminal hrun, abort_of_isTerminal (p := p.recorded mark) hrun]
        simp
      · rw [abort_of_isTerminal hrun, List.append_nil]
        exact ⟨hp, hI⟩
    · have hrun : p.phase.isTerminal = false := by simpa using hrun
      obtain ⟨hplain, hlog⟩ := abort_recorded mark hp hrun s
      refine ⟨closes p.active, ?_, ?_⟩
      · rw [hlog, hplain]
      · rw [hplain]
        exact ⟨sound_aborted p, habort hp hrun hI⟩

end Playback

end Cueflow
