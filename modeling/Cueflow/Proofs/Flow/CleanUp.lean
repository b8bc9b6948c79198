import Cueflow.Proofs.Schedule.Lifecycle
import Cueflow.Proofs.Choice.Sessions
import Cueflow.Proofs.Flow.Recording
/-!
# Cleaning up

What an interpreter has cleaned up when it hands over or is aborted.

> `Complete`: among the calls of an interpreter, every event that went ongoing has its one
> closing, every condition that was started its one end, and all logic that was started its
> one finish.
> `Accounts.stepped`: the calls up to a step that ends a flow are complete before its target is
> resolved. `Accounts.stopped`: the calls up to an abort are complete.

`Accounts` is the invariant of a flow that runs: the invariants of playbacks and junctions,
with calls put before the noted ones. A flow may have been stepped before the director got it;
any sound one has *some* history that leads to where it is (`accounts_of_sound`), and what goes
ongoing or is started after that history has all its calls noted.
-/

namespace Cueflow

variable {T H K C : Type}

/-! ## Complete calls -/

/-- Everything that these calls opened was closed once. -/
structure Complete (calls : List (Call T)) : Prop where
  events : ∀ i, .trigger .ongoing ∈ Call.ofEvent i calls →
    (Call.ofEvent i calls).countP EventCall.isClose = 1
  conditions : ∀ b path, .start ∈ Call.ofCondition b path calls →
    (Call.ofCondition b path calls).count .finish = 1
  logic : ∀ i, .start ∈ Call.ofLogic i calls → (Call.ofLogic i calls).count .finish = 1

theorem complete_nil : Complete ([] : List (Call T)) where
  events _ hmem := absurd hmem List.not_mem_nil
  conditions _ _ hmem := absurd hmem List.not_mem_nil
  logic _ hmem := absurd hmem List.not_mem_nil

/-- A resolution opens nothing and closes nothing. -/
theorem complete_append_trail {calls trail : List (Call T)}
    (htrail : trail = [] ∨ trail = [.resolve]) : Complete (calls ++ trail) ↔ Complete calls := by
  have hevent : ∀ i, Call.ofEvent i (calls ++ trail) = Call.ofEvent i calls := by
    intro i
    rw [Call.ofEvent_append]
    rcases htrail with rfl | rfl <;> exact List.append_nil _
  have hcondition : ∀ b path,
      Call.ofCondition b path (calls ++ trail) = Call.ofCondition b path calls := by
    intro b path
    rw [Call.ofCondition_append]
    rcases htrail with rfl | rfl <;> exact List.append_nil _
  have hlogic : ∀ i, Call.ofLogic i (calls ++ trail) = Call.ofLogic i calls := by
    intro i
    rw [Call.ofLogic_append]
    rcases htrail with rfl | rfl <;> exact List.append_nil _
  constructor
  · rintro ⟨hevents, hconditions, hlogics⟩
    simp only [hevent, hcondition, hlogic] at hevents hconditions hlogics
    exact ⟨hevents, hconditions, hlogics⟩
  · rintro ⟨hevents, hconditions, hlogics⟩
    refine ⟨?_, ?_, ?_⟩
    · simp only [hevent]
      exact hevents
    · simp only [hcondition]
      exact hconditions
    · simp only [hlogic]
      exact hlogics

namespace Call

def isEvent : Call T → Bool
  | .event _ _ => true
  | .condition _ _ _ | .logic _ _ | .resolve => false

theorem mem_of_mem_ofCondition {b : Nat} {path : List Nat} {calls : List (Call T)}
    {call : SessionCall} (h : call ∈ ofCondition b path calls) :
    .condition b path call ∈ calls := by
  obtain ⟨c, hc, hsome⟩ := List.mem_filterMap.1 h
  cases c with
  | condition b' path' call' =>
    obtain ⟨⟨rfl, rfl⟩, hcall⟩ := Option.ite_none_right_eq_some.1 hsome
    rw [← Option.some.inj hcall]
    exact hc
  | event _ _ => exact nomatch hsome
  | logic _ _ => exact nomatch hsome
  | resolve => exact nomatch hsome

theorem mem_of_mem_ofLogic {i : Nat} {calls : List (Call T)} {call : SessionCall}
    (h : call ∈ ofLogic i calls) : .logic i call ∈ calls := by
  obtain ⟨c, hc, hsome⟩ := List.mem_filterMap.1 h
  cases c with
  | logic j call' =>
    obtain ⟨rfl, hcall⟩ := Option.ite_none_right_eq_some.1 hsome
    rw [← Option.some.inj hcall]
    exact hc
  | event _ _ => exact nomatch hsome
  | condition _ _ _ => exact nomatch hsome
  | resolve => exact nomatch hsome

end Call

/-! ## Playbacks -/

/-- An event that goes ongoing has no calls before its trigger, and has its closing if it is
past. -/
theorem Lived.countP_close_of_trigger {stage : Stage} {before calls : List (EventCall T)}
    (h : Lived stage (before ++ calls)) (hopen : stage.isOpen = false)
    (hmem : .trigger .ongoing ∈ calls) : calls.countP EventCall.isClose = 1 := by
  have hnil : before = [] := by
    cases before with
    | nil => rfl
    | cons first rest =>
      -- a life has no trigger after its first call
      exfalso
      have hlater : ∀ call ∈ rest ++ calls, ∀ answer, call ≠ .trigger answer := by
        rcases h.shape with hnil | ⟨answer, hone⟩ | ⟨updates, ends, hlong, hup, hends⟩
        · exact nomatch hnil
        · have hrest : rest ++ calls = [] := (List.cons.inj hone).2
          rw [hrest]
          exact fun _ hcall => absurd hcall List.not_mem_nil
        · have hrest : rest ++ calls = updates ++ ends := (List.cons.inj hlong).2
          rw [hrest]
          intro call hcall answer
          rcases List.mem_append.1 hcall with hcall | hcall
          · obtain ⟨x, a, rfl⟩ := hup call hcall
            exact fun heq => nomatch heq
          · rcases hends with rfl | rfl
            · exact absurd hcall List.not_mem_nil
            · rw [List.mem_singleton.1 hcall]
              exact fun heq => nomatch heq
      exact hlater _ (List.mem_append_right _ hmem) _ rfl
  rw [hnil, List.nil_append] at h
  exact h.countP_close hopen hmem

namespace Playback

theorem isEvent_closes (active : List Nat) :
    ∀ c ∈ (closes active : List (Call T)), c.isEvent = true := by
  intro c hc
  obtain ⟨i, -, rfl⟩ := List.mem_map.1 hc
  rfl

variable [Scalar T]

theorem UpdatePass.isEvent {events : List (Event T H)} {now : T} {active : List Nat}
    {log : List (Call T)} {exited : Bool} {still : List Nat}
    (hpass : UpdatePass events now active log exited still) :
    ∀ c ∈ log, c.isEvent = true := by
  induction hpass with
  | nil => exact fun _ hc => absurd hc List.not_mem_nil
  | ongoing _ _ ih => exact List.forall_mem_cons.2 ⟨rfl, ih⟩
  | finished _ _ ih => exact List.forall_mem_cons.2 ⟨rfl, List.forall_mem_cons.2 ⟨rfl, ih⟩⟩
  | exit _ => exact fun c hc => by rw [List.mem_singleton.1 hc]; rfl

theorem TriggerPass.isEvent {now : T} {pending : List (Event T H)} {cursor : Nat}
    {active : List Nat} {log : List (Call T)} {reached : Reached} {cursor' : Nat}
    {active' : List Nat}
    (hpass : TriggerPass now pending cursor active log reached cursor' active') :
    ∀ c ∈ log, c.isEvent = true := by
  induction hpass with
  | all => exact fun _ hc => absurd hc List.not_mem_nil
  | future _ => exact fun _ hc => absurd hc List.not_mem_nil
  | finished _ _ ih => exact List.forall_mem_cons.2 ⟨rfl, ih⟩
  | ongoing _ _ ih => exact List.forall_mem_cons.2 ⟨rfl, ih⟩
  | exit _ => exact fun c hc => by rw [List.mem_singleton.1 hc]; rfl

section Cutting

variable {p p' : Playback T H K C} {log : List (Call T)} {ends : Bool}

theorem Advanced.cut (h : p.Advanced log ends p') :
    (ends = false ∧ p'.phase = p.phase ∧ ∀ c ∈ log, c.isEvent = true) ∨
      (ends = true ∧ (p'.phase = .finished ∨ p'.phase = .exited) ∧
        ∃ acts, log = acts ++ p.trail ∧ ∀ c ∈ acts, c.isEvent = true) := by
  cases h with
  | future hpass => exact Or.inl ⟨rfl, rfl, hpass.isEvent⟩
  | busy hpass _ => exact Or.inl ⟨rfl, rfl, hpass.isEvent⟩
  | finished hpass => exact Or.inr ⟨rfl, Or.inl rfl, _, rfl, hpass.isEvent⟩
  | exited hpass =>
    exact Or.inr ⟨rfl, Or.inr rfl, _, rfl,
      List.forall_mem_append.2 ⟨hpass.isEvent, isEvent_closes _⟩⟩

/-- A step calls events. If it ends the playback, which is finished or exited then, it resolves
the target after that. -/
theorem Stepped.cut (h : p.Stepped log ends p') :
    (ends = false ∧ p'.phase = p.phase ∧ ∀ c ∈ log, c.isEvent = true) ∨
      (ends = true ∧ (p'.phase = .finished ∨ p'.phase = .exited) ∧
        ∃ acts, log = acts ++ p.trail ∧ ∀ c ∈ acts, c.isEvent = true) := by
  cases h with
  | exited _ hpass =>
    exact Or.inr ⟨rfl, Or.inr rfl, _, rfl,
      List.forall_mem_append.2 ⟨hpass.isEvent, isEvent_closes _⟩⟩
  | due _ hadv => exact hadv.cut
  | updated _ hpass hadv =>
    rcases hadv.cut with ⟨hends, hphase, hacts⟩ | ⟨hends, hphase, acts, rfl, hacts⟩
    · exact Or.inl ⟨hends, hphase, List.forall_mem_append.2 ⟨hpass.isEvent, hacts⟩⟩
    · exact Or.inr ⟨hends, hphase, _, (List.append_assoc _ _ _).symm,
        List.forall_mem_append.2 ⟨hpass.isEvent, hacts⟩⟩

end Cutting

omit [Scalar T] in
/-- What a playback that is over has called is complete. -/
theorem Accounts.complete {p : Playback T H K C} {before calls : List (Call T)}
    (h : Accounts p (before ++ calls)) (hover : p.phase.isTerminal = true)
    (hevents : ∀ c ∈ calls, c = .resolve ∨ c.isEvent = true) : Complete calls where
  events i hmem := by
    obtain ⟨stage, hlived, hopen, -⟩ := h.lived i
    rw [Call.ofEvent_append] at hlived
    exact hlived.countP_close_of_trigger (hopen hover) hmem
  conditions b path hmem := by
    rcases hevents _ (Call.mem_of_mem_ofCondition hmem) with h | h <;> exact nomatch h
  logic i hmem := by
    rcases hevents _ (Call.mem_of_mem_ofLogic hmem) with h | h <;> exact nomatch h

/-- A history that leads to this playback: every event before the cursor was triggered, and is
ongoing or over. -/
def history (p : Playback T H K C) : List (Call T) :=
  (List.range p.cursor).map fun i =>
    .event i (.trigger (if i ∈ p.active then .ongoing else .finished))

omit [Scalar T] in
theorem ofEvent_history (p : Playback T H K C) (i : Nat) :
    Call.ofEvent i p.history = if i < p.cursor then
      [.trigger (if i ∈ p.active then .ongoing else .finished)] else [] := by
  unfold history
  induction p.cursor with
  | zero => rfl
  | succ n ih =>
    rw [List.range_succ, List.map_append, List.map_singleton]
    by_cases hi : n = i
    · subst hi
      rw [Call.ofEvent_append_self, ih, if_neg (Nat.lt_irrefl n), if_pos (Nat.lt_succ_self n)]
      rfl
    · rw [Call.ofEvent_append_of_ne hi, ih]
      have hiff : i < n ↔ i < n + 1 := by omega
      simp only [hiff]

omit [Scalar T] in
/-- A playback that has its shape can have come about by its history. -/
theorem accounts_history {p : Playback T H K C} (hp : p.Sound) : Accounts p p.history := by
  have hcurrent : Current p.cursor p.active p.history := by
    refine ⟨fun i hi => ?_, fun i hi => ?_, fun i hi hmem => Or.inl ?_⟩
    · rw [ofEvent_history, if_neg (by omega)]
      exact .scheduled
    · rw [ofEvent_history, if_pos (hp.active_lt i hi), if_pos hi]
      exact .began
    · rw [ofEvent_history, if_pos hi, if_neg hmem]
      exact .instant EventStatus.noConfusion
  refine ⟨fun _ => hcurrent, fun hover => ?_⟩
  have hclosable := hcurrent.closable
  rw [(hp.terminal hover).2] at hclosable
  exact hclosable

end Playback

/-! ## Junctions -/

namespace Junction

/-- What is started has no calls before that, and has its end if the junction does not
run. -/
theorem Session.count_finish_of_start {phase : JunctionPhase} {before calls : List SessionCall}
    (h : Session phase (before ++ calls)) (hphase : phase ≠ .running)
    (hmem : .start ∈ calls) : calls.count .finish = 1 := by
  have hnil : before = [] := by
    cases before with
    | nil => rfl
    | cons first rest =>
      -- a session is started by its first call alone
      exfalso
      have hlater : .start ∉ rest ++ calls := by
        generalize hall : first :: rest ++ calls = all at h
        have htail : rest ++ calls = all.tail := by rw [← hall]; rfl
        rw [htail]
        cases h <;> simp
      exact hlater (List.mem_append_right _ hmem)
  rw [hnil, List.nil_append] at h
  refine h.count_finish_iff.2 ?_
  cases h with
  | notStarted => exact absurd hmem List.not_mem_nil
  | running _ => exact absurd rfl hphase
  | taken _ => exact Or.inl rfl
  | aborted _ => exact Or.inr rfl

/-- A junction runs on, or is taken, as its step says. -/
theorem Stepped.phase_eq {j j' : Junction T H K C} {log : List (Call T)} {ends : Bool}
    (h : Stepped j log ends j') : j'.phase = if ends then .taken else .running := by
  cases h with
  | waiting _ hphase _ => exact hphase
  | taken _ _ hphase _ _ => exact hphase

variable {sites : List (List (List Nat))} {logic : List (Background H)}

/-- What a junction that does not run has called is complete. -/
theorem Accounts.complete {j : Junction T H K C} {before calls : List (Call T)}
    (h : Accounts sites logic j (before ++ calls)) (hnodup : ∀ places ∈ sites, places.Nodup)
    (hphase : j.phase ≠ .running) : Complete calls := by
  have hwithin : ∀ c ∈ calls, c = .resolve ∨ Within sites logic.length c :=
    fun c hc => h.within c (List.mem_append_right _ hc)
  refine ⟨fun i hmem => ?_, fun b path hmem => ?_, fun i hmem => ?_⟩
  · rcases hwithin _ (Call.mem_of_mem_ofEvent hmem) with h | h <;> exact nomatch h
  · rcases hwithin _ (Call.mem_of_mem_ofCondition hmem) with hplace | hplace
    · exact nomatch hplace
    · have hsession := h.session _ (view_condition logic.length hnodup hplace)
      rw [Call.ofCondition_append] at hsession
      exact hsession.count_finish_of_start hphase hmem
  · rcases hwithin _ (Call.mem_of_mem_ofLogic hmem) with hi | hi
    · exact nomatch hi
    · have hsession := h.session _ (view_logic sites hi)
      rw [Call.ofLogic_append] at hsession
      exact hsession.count_finish_of_start hphase hmem

/-- A history that leads to this junction: its sessions were opened, and closed if it is
over. -/
def history (j : Junction T H K C) : List (Call T) :=
  match j.phase with
  | .notStarted => []
  | .running => visits .start 0 (Junction.sites j.branches) ++ rounds .start 0 j.logic.length
  | .taken | .aborted =>
    visits .start 0 (Junction.sites j.branches) ++ rounds .start 0 j.logic.length ++ j.closing

/-- A junction can have come about by its history. -/
theorem accounts_history (j : Junction T H K C) :
    Accounts (Junction.sites j.branches) j.logic j j.history := by
  refine ⟨rfl, rfl, fun c hc => Or.inr ?_, fun see hsee => ?_⟩
  · have hopening := within_all (T := T) .start (Junction.sites j.branches) j.logic.length
    have hclosing := within_all (T := T) .finish (Junction.sites j.branches) j.logic.length
    unfold history at hc
    split at hc
    · exact absurd hc List.not_mem_nil
    · exact hopening c hc
    all_goals
      rcases List.mem_append.1 hc with hc | hc
      · exact hopening c hc
      · exact hclosing c hc
  · unfold history closing
    cases hphase : j.phase with
    | notStarted =>
      dsimp only
      rw [hsee.nil]
      exact .notStarted
    | running =>
      dsimp only
      rw [hsee.opening]
      exact .running 0
    | taken =>
      dsimp only
      rw [hsee.append, hsee.opening, hsee.closing]
      exact .taken 0
    | aborted =>
      dsimp only
      rw [hsee.append, hsee.opening, hsee.closing]
      exact .aborted 0

end Junction

/-! ## Flows -/

namespace Flow

/-- What is known of a flow that runs and of what it has called since it was handed over:
together with a history before that, the calls are those of a playback or of a junction. -/
inductive Accounts : Flow T H K → List (Call T) → Prop where
  | playback {p : Playback T H K (Flow T H K)} {calls : List (Call T)}
      (before : List (Call T)) : p.Sound → p.Accounts (before ++ calls) →
      (∀ c ∈ calls, c = .resolve ∨ c.isEvent = true) → Accounts (.playback p) calls
  | junction {j : Junction T H K (Flow T H K)} {calls : List (Call T)}
      (before : List (Call T)) {sites : List (List (List Nat))} {logic : List (Background H)} :
      (∀ places ∈ sites, places.Nodup) → Junction.Accounts sites logic j (before ++ calls) →
      Accounts (.junction j) calls

/-- A sound flow can be run. -/
theorem accounts_of_sound {c : Flow T H K} (hc : c.Sound) : c.Accounts [] := by
  cases hc with
  | @playback p hp _ =>
    refine .playback p.history hp ?_ fun _ hc => absurd hc List.not_mem_nil
    rw [List.append_nil]
    exact Playback.accounts_history hp
  | @junction j _ =>
    have h := j.accounts_history
    rw [← List.append_nil j.history] at h
    exact .junction j.history (Junction.nodup_sites j.branches) h

/-- What a step with this log leaves of a flow that had made `calls`: it goes on and has
resolved nothing, or it is over, with complete calls up to the resolution if there is one. -/
inductive Outcome (c' : Flow T H K) (calls : List (Call T)) :
    (log : List (Call T)) → (ends : Bool) → Prop where
  | going {log : List (Call T)} : .resolve ∉ log → Accounts c' (calls ++ log) →
      Outcome c' calls log false
  | ended {acts trail : List (Call T)} : .resolve ∉ acts → trail = [] ∨ trail = [.resolve] →
      Complete (calls ++ acts) → Outcome c' calls (acts ++ trail) true

/-- A step of a playback that is not over. -/
theorem outcome_playback [Scalar T] {p p' : Playback T H K (Flow T H K)}
    {before calls log : List (Call T)} {ends : Bool} {now : T} (hp : p.Sound)
    (h : p.Accounts (before ++ calls)) (hevents : ∀ c ∈ calls, c = .resolve ∨ c.isEvent = true)
    (hrun : p.phase.isTerminal = false) (hstep : (p.atTime now).Stepped log ends p') :
    Outcome (.playback p') calls log ends := by
  have hcalls := h.stepped hp hrun hstep
  have hnew : ∀ {acts : List (Call T)}, (∀ c ∈ acts, c.isEvent = true) →
      ∀ c ∈ calls ++ acts, c = .resolve ∨ c.isEvent = true := fun hacts =>
    List.forall_mem_append.2 ⟨hevents, fun c hc => Or.inr (hacts c hc)⟩
  rcases hstep.cut with ⟨rfl, -, hacts⟩ | ⟨rfl, hphase, acts, rfl, hacts⟩
  · rw [List.append_assoc] at hcalls
    exact .going (fun hmem => nomatch hacts _ hmem)
      (.playback before ((hp.atTime now).stepped rfl hstep) hcalls (hnew hacts))
  · have hover : p'.phase.isTerminal = true := by
      rcases hphase with hphase | hphase <;> rw [hphase] <;> rfl
    have htrail := (p.atTime now).trail_cases
    rw [List.append_assoc, ← List.append_assoc calls] at hcalls
    have hall : ∀ c ∈ calls ++ acts ++ (p.atTime now).trail, c = .resolve ∨ c.isEvent = true := by
      refine List.forall_mem_append.2 ⟨hnew hacts, fun c hc => Or.inl ?_⟩
      rcases htrail with hnil | hone
      · rw [hnil] at hc
        cases hc
      · rw [hone] at hc
        exact List.mem_singleton.1 hc
    exact .ended (fun hmem => nomatch hacts _ hmem) htrail
      ((complete_append_trail htrail).1 (hcalls.complete hover hall))

/-- A step of a junction that is not over. -/
theorem outcome_junction {j j' : Junction T H K (Flow T H K)} {before calls log : List (Call T)}
    {sites : List (List (List Nat))} {logic : List (Background H)} {ends : Bool}
    (hnodup : ∀ places ∈ sites, places.Nodup)
    (h : Junction.Accounts sites logic j (before ++ calls))
    (hrun : j.phase = .notStarted ∨ j.phase = .running) (hstep : j.Stepped log ends j') :
    Outcome (.junction j') calls log ends := by
  obtain ⟨k, -, trail, htrail, rfl⟩ := h.stepped_eq hrun hstep
  have h := h.stepped hrun hstep
  rw [List.append_assoc, ← List.append_assoc calls] at h
  have hphase := hstep.phase_eq
  have hresolve : .resolve ∉ Junction.stepCalls (T := T) sites logic.length j.phase j'.phase k :=
    fun hmem => Junction.within_stepCalls _ _ _ _ _ _ hmem
  cases ends with
  | false =>
    obtain rfl : trail = [] := by
      rcases htrail with htrail | ⟨-, htaken⟩
      · exact htrail
      · exact nomatch htaken.symm.trans hphase
    rw [List.append_nil] at h ⊢
    exact .going hresolve (.junction before hnodup h)
  | true =>
    have htrail : trail = [] ∨ trail = [.resolve] := htrail.imp id And.left
    refine .ended hresolve htrail ((complete_append_trail htrail).1 (h.complete hnodup ?_))
    rw [hphase]
    exact JunctionPhase.noConfusion

namespace Accounts

variable {c c' : Flow T H K} {calls log : List (Call T)}

/-- What a flow that is over has called is complete. -/
theorem complete (h : Accounts c calls) (hover : c.Over) : Complete calls := by
  cases h with
  | playback before _ h hevents => exact h.complete hover hevents
  | junction before hnodup h =>
    refine h.complete hnodup ?_
    rcases hover with hphase | hphase <;> rw [hphase] <;> exact JunctionPhase.noConfusion

/-- A step of a flow that runs. -/
theorem stepped [Scalar T] {ends : Bool} (h : Accounts c calls) (hstep : c.Stepped log ends c') :
    Outcome c' calls log ends := by
  cases hstep with
  | rest hover =>
    have hcomplete := h.complete hover
    rw [← List.append_nil calls] at hcomplete
    show Outcome c calls ([] ++ []) true
    exact .ended List.not_mem_nil (Or.inl rfl) hcomplete
  | playback now hrun hstep =>
    cases h with
    | playback before hp h hevents => exact outcome_playback hp h hevents hrun hstep
  | junction hrun hstep =>
    cases h with
    | junction before hnodup h => exact outcome_junction hnodup h hrun hstep

theorem stopped (h : Accounts c calls) (hstop : c.Stopped log c') :
    .resolve ∉ log ∧ Complete (calls ++ log) := by
  cases hstop with
  | rest hover =>
    rw [List.append_nil]
    exact ⟨List.not_mem_nil, h.complete hover⟩
  | unopened hphase =>
    -- nothing was opened, so nothing has to be closed
    rw [List.append_nil]
    cases h with
    | junction before hnodup h =>
      refine ⟨List.not_mem_nil, h.complete hnodup ?_⟩
      rw [hphase]
      exact JunctionPhase.noConfusion
  | playback hrun =>
    cases h with
    | playback before hp h hevents =>
      have hcloses := Playback.isEvent_closes (T := T)
      refine ⟨fun hmem => (nomatch hcloses _ _ hmem), ?_⟩
      have h := h.aborted hp hrun
      rw [List.append_assoc] at h
      refine h.complete rfl fun c hc => ?_
      rcases List.mem_append.1 hc with hc | hc
      · exact hevents c hc
      · exact Or.inr (hcloses _ c hc)
  | @junction j j' hrun hshape hphase =>
    cases h with
    | @junction _ _ before sites logic hnodup h =>
      have hwithin : ∀ c ∈ j.closing, Junction.Within sites logic.length c := by
        rw [Junction.closing, h.places, h.background]
        exact Junction.within_all .finish sites logic.length
      refine ⟨fun hmem => hwithin _ hmem, ?_⟩
      have h := h.aborted hrun hshape hphase
      rw [List.append_assoc] at h
      refine h.complete hnodup ?_
      rw [hphase]
      exact JunctionPhase.noConfusion

end Accounts

end Flow

end Cueflow
