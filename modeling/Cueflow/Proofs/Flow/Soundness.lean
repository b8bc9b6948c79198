import Cueflow.Flow.Basic
import Cueflow.Proofs.Schedule.Recording
import Cueflow.Proofs.Choice.Recording
/-!
# What flows hand over

The continuation of a step comes from a target: it was prepared, or it is built on the spot.

> `Flow.Sound`: every playback of the flow has the shape that steps and aborts keep, those
> prepared in its targets included, to any depth.
> `Sound.step`, `Sound.next`: a step keeps this of the flow, and hands it on to the
> continuation, provided that what is built on demand has it.

Flows that were only put together, stepped and aborted are sound, so this is what every flow
of a program has.
-/

namespace Cueflow

variable {T H K C : Type}

/-! ## Prepared continuations -/

/-- The continuation that was prepared in a target and is still there. -/
def Target.prepared : Target K C → Option C
  | .handOver next => next
  | .stop | .build _ => none

/-- What keys stand for has the property `P`. -/
def Builds (K H : Type) [Builder K H C] (P : C → Prop) : Prop :=
  ∀ (key : K) (h : H) (next : C), (Builder.build key h).1 = some next → P next

/-- A target resolves to what was prepared in it or to what its key stands for. -/
theorem Target.resolve_property [Builder K H C] {P : C → Prop} (hbuild : Builds K H P)
    {target : Target K C} (hprepared : ∀ next, target.prepared = some next → P next) {h : H}
    {next : C} (hnext : (target.resolve h).1 = some next) : P next := by
  cases target with
  | stop => exact nomatch hnext
  | handOver prepared => exact hprepared next hnext
  | build key => exact hbuild key h next hnext

/-- Nothing is left prepared in a target that was resolved. -/
theorem Target.prepared_resolve [Builder K H C] (target : Target K C) (h : H) :
    (target.resolve h).2.1.prepared = none := by
  cases target <;> rfl

/-- A step keeps `P`: its continuation has it, and no continuation is prepared after the step
that was not before. -/
structure Keeps (P : C → Prop) (before : List C) (next : Option C) (after : List C) : Prop where
  next : ∀ c, next = some c → P c
  prepared : ∀ c ∈ after, c ∈ before

/-- A step that hands nothing over and leaves the targets alone. -/
theorem Keeps.rest (P : C → Prop) (prepared : List C) : Keeps P prepared none prepared :=
  ⟨fun _ hc => (nomatch hc), fun _ hc => hc⟩

namespace Playback

/-- The continuations prepared in a playback. -/
def prepared (p : Playback T H K C) : List C := (p.target.bind Target.prepared).toList

variable [Builder K H C] {P : C → Prop}

theorem keeps_finish (hbuild : Builds K H P) {p : Playback T H K C}
    (hprepared : ∀ c ∈ p.prepared, P c) (phase : PlayPhase) (active : List Nat) (h : H) :
    Keeps P p.prepared (p.finish phase active h).1.next?
      (p.finish phase active h).2.1.prepared := by
  refine ⟨fun c hc => ?_, fun c hc => ?_⟩
  · unfold finish at hc
    cases htarget : p.target with
    | none =>
      rw [htarget] at hc
      exact nomatch hc
    | some target =>
      rw [htarget] at hc
      refine Target.resolve_property hbuild (fun next hnext => hprepared next ?_) hc
      simp [prepared, htarget, hnext]
  · rw [(finish_eq_ended p phase active h).2] at hc
    exact absurd hc List.not_mem_nil

variable [Scalar T]

theorem keeps_advance (hbuild : Builds K H P) {p : Playback T H K C}
    (hprepared : ∀ c ∈ p.prepared, P c) (h : H) :
    Keeps P p.prepared (p.advance h).1.next? (p.advance h).2.1.prepared := by
  unfold advance
  rcases triggerDue p.currentTime p.pending p.cursor p.active h with
    ⟨reached, cursor, active, h'⟩
  cases reached with
  | future => exact .rest P p.prepared
  | exit => exact keeps_finish (p := { p with cursor, active }) hbuild hprepared .exited active h'
  | all =>
    dsimp only
    split
    · exact keeps_finish (p := { p with cursor, active }) hbuild hprepared .finished [] h'
    · exact .rest P p.prepared

/-- A step of a playback hands over what was prepared or is built. -/
theorem keeps_step [Host H T] (hbuild : Builds K H P) {p : Playback T H K C}
    (hprepared : ∀ c ∈ p.prepared, P c) (h : H) :
    Keeps P p.prepared (p.step h).1.next? (p.step h).2.1.prepared := by
  by_cases hover : p.phase.isTerminal = true
  · rw [step_of_isTerminal hover]
    exact .rest P p.prepared
  · rw [step_eq_proceed (by simpa using hover)]
    generalize p.currentTime + Host.deltaTime h = now
    unfold proceed
    split
    · rcases updateOngoing _ _ _ h with ⟨exited, active, h'⟩
      cases exited with
      | true => exact keeps_finish (p := p.atTime now) hbuild hprepared .exited active h'
      | false => exact keeps_advance (p := { p.atTime now with active }) hbuild hprepared h'
    · exact keeps_advance (p := p.atTime now) hbuild hprepared h

theorem Sound.step [Host H T] {p : Playback T H K C} (hp : p.Sound) (h : H) :
    (p.step h).2.1.Sound := by
  by_cases hover : p.phase.isTerminal = true
  · rw [step_of_isTerminal hover]
    exact hp
  · obtain ⟨log, -, hstepped⟩ := step_recorded (id : Call T → Call T) hp (by simpa using hover)
      (⟨h, []⟩ : Journaled (Call T) H)
    exact (hp.atTime _).stepped rfl hstepped

omit [Builder K H C] [Scalar T] in
theorem Sound.abort {p : Playback T H K C} (hp : p.Sound) (h : H) : (p.abort h).1.Sound := by
  unfold Playback.abort
  split
  · exact hp
  · exact sound_aborted p

end Playback

namespace Junction

/-- The continuations prepared in these branches. -/
def preparedIn (branches : List (Branch T H K C)) : List C :=
  branches.flatMap fun b => b.target.prepared.toList

theorem preparedIn_cons (b : Branch T H K C) (rest : List (Branch T H K C)) :
    preparedIn (b :: rest) = b.target.prepared.toList ++ preparedIn rest := rfl

/-- The continuations prepared in a junction. -/
def prepared (j : Junction T H K C) : List C := preparedIn j.branches

variable [Host H T]

theorem preparedIn_startBranches (branches : List (Branch T H K C)) (h : H) :
    preparedIn (startBranches branches h).1 = preparedIn branches := by
  induction branches generalizing h with
  | nil => rfl
  | cons b rest ih =>
    rw [startBranches, preparedIn_cons, preparedIn_cons, ih]
    rfl

omit [Host H T] in
theorem preparedIn_finishBranches (branches : List (Branch T H K C)) (h : H) :
    preparedIn (finishBranches branches h).1 = preparedIn branches := by
  induction branches generalizing h with
  | nil => rfl
  | cons b rest ih =>
    rw [finishBranches, preparedIn_cons, preparedIn_cons, ih]
    rfl

theorem preparedIn_firstOpen [Scalar T] (branches : List (Branch T H K C)) (h : H) :
    preparedIn (firstOpen branches h).2.1 = preparedIn branches := by
  induction branches generalizing h with
  | nil => rfl
  | cons b rest ih =>
    have hopen : (b.isOpen h).2.1.target = b.target := rfl
    unfold firstOpen
    rcases hb : b.isOpen h with ⟨isOpen, b', h'⟩
    rw [hb] at hopen
    dsimp only at hopen
    cases isOpen with
    | true => rw [preparedIn_cons, preparedIn_cons, hopen]
    | false => rw [preparedIn_cons, preparedIn_cons, hopen, ih]

omit [Host H T] in
theorem keeps_resolveAt [Builder K H C] {P : C → Prop} (hbuild : Builds K H P)
    {branches : List (Branch T H K C)} (hprepared : ∀ c ∈ preparedIn branches, P c) (i : Nat)
    (h : H) :
    Keeps P (preparedIn branches) (resolveAt branches i h).1
      (preparedIn (resolveAt branches i h).2.1) := by
  induction branches generalizing i with
  | nil => exact .rest P _
  | cons b rest ih =>
    rw [preparedIn_cons] at hprepared ⊢
    cases i with
    | zero =>
      refine ⟨fun c hc => ?_, fun c hc => ?_⟩
      · refine Target.resolve_property hbuild (fun next hnext => hprepared next ?_) hc
        exact List.mem_append_left _ (by simp [hnext])
      · rw [resolveAt, preparedIn_cons, Target.prepared_resolve] at hc
        exact List.mem_append_right _ hc
    | succ i =>
      have hrest := ih (fun c hc => hprepared c (List.mem_append_right _ hc)) i
      refine ⟨hrest.next, fun c hc => ?_⟩
      rw [resolveAt, preparedIn_cons] at hc
      rcases List.mem_append.1 hc with hc | hc
      · exact List.mem_append_left _ hc
      · exact List.mem_append_right _ (hrest.prepared c hc)

theorem prepared_start (j : Junction T H K C) (h : H) :
    (j.start h).1.prepared = j.prepared := by
  unfold start
  split
  · exact preparedIn_startBranches j.branches h
  · rfl

omit [Host H T] in
theorem prepared_close (j : Junction T H K C) (phase : JunctionPhase) (h : H) :
    (j.close phase h).1.prepared = j.prepared := preparedIn_finishBranches j.branches h

variable [Scalar T] [Builder K H C] {P : C → Prop}

omit [Host H T] [Scalar T] in
theorem keeps_win (hbuild : Builds K H P) {j : Junction T H K C}
    (hprepared : ∀ c ∈ j.prepared, P c) (i : Nat) (h : H) :
    Keeps P j.prepared (j.win i h).1.next? (j.win i h).2.1.prepared := by
  rw [← prepared_close j .taken h] at hprepared ⊢
  exact keeps_resolveAt hbuild hprepared i (j.close .taken h).2

theorem keeps_choose (hbuild : Builds K H P) {j : Junction T H K C}
    (hprepared : ∀ c ∈ j.prepared, P c) (h : H) :
    Keeps P j.prepared (j.choose h).1.next? (j.choose h).2.1.prepared := by
  have hopen := preparedIn_firstOpen j.branches (runLogic Background.update j.logic h)
  rcases hfirst : firstOpen j.branches (runLogic Background.update j.logic h) with
    ⟨found, branches, h'⟩
  rw [hfirst] at hopen
  -- evaluating conditions touches no target
  have hsame : j.prepared = preparedIn branches := hopen.symm
  rw [hsame] at hprepared ⊢
  cases found with
  | none =>
    rw [choose_of_none hfirst]
    exact .rest P (preparedIn branches)
  | some i =>
    rw [choose_of_some hfirst]
    exact keeps_win (j := { j with branches, ticks := j.ticks + 1, taken := some i }) hbuild
      hprepared i h'

/-- A step of a junction hands over what was prepared or is built. -/
theorem keeps_step (hbuild : Builds K H P) {j : Junction T H K C}
    (hprepared : ∀ c ∈ j.prepared, P c) (h : H) :
    Keeps P j.prepared (j.step h).1.next? (j.step h).2.1.prepared := by
  rcases j.phase_cases with hrun | hover
  · rw [step_eq_choose hrun]
    rw [← prepared_start j h] at hprepared ⊢
    exact keeps_choose hbuild hprepared (j.start h).2
  · rw [step_of_over hover]
    exact .rest P j.prepared

end Junction

namespace Flow

/-- The continuations prepared in a flow. -/
def prepared : Flow T H K → List (Flow T H K)
  | .playback p => p.prepared
  | .junction j => j.prepared

/-- Every playback in the flow has its shape, and so have those that were prepared. -/
inductive Sound : Flow T H K → Prop where
  | playback {p : Playback T H K (Flow T H K)} : p.Sound → (∀ next ∈ p.prepared, Sound next) →
      Sound (.playback p)
  | junction {j : Junction T H K (Flow T H K)} : (∀ next ∈ j.prepared, Sound next) →
      Sound (.junction j)

namespace Sound

theorem prepared {c : Flow T H K} (hc : c.Sound) : ∀ next ∈ c.prepared, next.Sound := by
  cases hc with
  | playback _ hprepared => exact hprepared
  | junction hprepared => exact hprepared

/-- A playback that has not started is sound if its continuation is. -/
theorem opening [Scalar T] (t : Timeline T H) (target : Option (Target K (Flow T H K)))
    (hnext : ∀ next ∈ (target.bind Target.prepared).toList, next.Sound) :
    Sound (.playback (.opening t target)) :=
  .playback (Playback.sound_opening t target) hnext

/-- A junction is sound if its continuations are. -/
theorem ofBranches (name : String) (logic : List (Background H))
    (branches : List (Branch T H K (Flow T H K)))
    (hnext : ∀ next ∈ Junction.preparedIn branches, next.Sound) :
    Sound (.junction (.ofBranches name logic branches)) := .junction hnext

variable {c : Flow T H K} [Scalar T] [Host H T] [Builder K H (Flow T H K)]

/-- A step of a sound flow hands over a sound one, and leaves sound ones prepared. -/
theorem keeps_step (hbuild : Builds K H fun c : Flow T H K => c.Sound) (hc : c.Sound) (h : H) :
    Keeps Sound c.prepared (c.step h).1.next? (c.step h).2.1.prepared := by
  cases c with
  | playback p => exact Playback.keeps_step hbuild hc.prepared h
  | junction j => exact Junction.keeps_step hbuild hc.prepared h

/-- The continuation of a sound flow is sound. -/
theorem next (hbuild : Builds K H fun c : Flow T H K => c.Sound) (hc : c.Sound) (h : H)
    {next : Flow T H K} (hnext : (c.step h).1.next? = some next) : next.Sound :=
  (hc.keeps_step hbuild h).next next hnext

/-- A sound flow that was stepped is sound. -/
theorem step (hbuild : Builds K H fun c : Flow T H K => c.Sound) (hc : c.Sound) (h : H) :
    (c.step h).2.1.Sound := by
  have hkept : ∀ next ∈ (c.step h).2.1.prepared, next.Sound :=
    fun next hnext => hc.prepared next ((hc.keeps_step hbuild h).prepared next hnext)
  cases hc with
  | playback hp _ => exact .playback (hp.step h) hkept
  | junction _ => exact .junction hkept

end Sound

end Flow

end Cueflow
