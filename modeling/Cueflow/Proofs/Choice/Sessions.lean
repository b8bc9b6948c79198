import Cueflow.Proofs.Choice.Recording
/-!
# The sessions of a junction

Which callbacks the conditions and the logic of a junction have over its whole life.

> `session_discipline`: the first step starts every condition and then all logic, every step
> updates all logic and then evaluates branches in order, and what takes a branch or aborts
> ends every condition and then all logic. So every node of every condition and every piece
> of logic has no call before the first step, then a start and turns, and one end when the
> junction is over.

A node and a piece of logic have the same life, a `Session`, which follows the phase of the
junction alone. A `View` picks the calls of one of them out of all calls; what it sees of an
opening, of the turns of a step and of a closing is all that the invariant needs.
-/

namespace Cueflow

variable {T H K C : Type}

namespace Call

theorem ofCondition_append (b : Nat) (path : List Nat) (xs ys : List (Call T)) :
    ofCondition b path (xs ++ ys) = ofCondition b path xs ++ ofCondition b path ys :=
  List.filterMap_append

theorem ofLogic_append (i : Nat) (xs ys : List (Call T)) :
    ofLogic i (xs ++ ys) = ofLogic i xs ++ ofLogic i ys := List.filterMap_append

end Call

namespace Junction

/-! ## Sessions -/

/-- The calls that a node or a piece of logic has had when its junction is in this phase. -/
inductive Session : JunctionPhase → List SessionCall → Prop where
  | notStarted : Session .notStarted []
  | running (n : Nat) : Session .running (.start :: List.replicate n .turn)
  | taken (n : Nat) : Session .taken (.start :: List.replicate n .turn ++ [.finish])
  | aborted (n : Nat) : Session .aborted (.start :: List.replicate n .turn ++ [.finish])

namespace Session

variable {phase : JunctionPhase} {calls : List SessionCall}

theorem opened (h : Session .notStarted calls) : Session .running (calls ++ [.start]) := by
  cases h
  exact .running 0

theorem turned (h : Session .running calls) : Session .running (calls ++ [.turn]) := by
  cases h with
  | running n =>
    rw [List.cons_append, ← List.replicate_succ']
    exact .running (n + 1)

theorem closed (h : Session .running calls) (hphase : phase = .taken ∨ phase = .aborted) :
    Session phase (calls ++ [.finish]) := by
  cases h with
  | running n =>
    rcases hphase with rfl | rfl
    · exact .taken n
    · exact .aborted n

/-- A session has had its one end exactly if the junction is over. -/
theorem count_finish_iff (h : Session phase calls) :
    calls.count .finish = 1 ↔ phase = .taken ∨ phase = .aborted := by
  cases h <;> simp [List.count_replicate]

end Session

/-! ## Views -/

/-- What is seen of a junction's calls from one node or one piece of logic. -/
structure View (sites : List (List (List Nat))) (count : Nat)
    (see : List (Call T) → List SessionCall) : Prop where
  append : ∀ xs ys, see (xs ++ ys) = see xs ++ see ys
  opening : see (visits .start 0 sites ++ rounds .start 0 count) = [.start]
  turns : ∀ k, see (rounds .turn 0 count ++ visits .turn 0 (sites.take k)) = [] ∨
    see (rounds .turn 0 count ++ visits .turn 0 (sites.take k)) = [.turn]
  closing : see (visits .finish 0 sites ++ rounds .finish 0 count) = [.finish]
  resolve : see [.resolve] = []

theorem View.nil {sites : List (List (List Nat))} {count : Nat}
    {see : List (Call T) → List SessionCall} (hsee : View sites count see) : see [] = [] := by
  have := hsee.append [] []
  simpa using this

/-- A branch has a node at this place. -/
def HasPlace (sites : List (List (List Nat))) (b : Nat) (path : List Nat) : Prop :=
  path ∈ sites[b]?.getD []

instance (sites : List (List (List Nat))) (b : Nat) (path : List Nat) :
    Decidable (HasPlace sites b path) :=
  inferInstanceAs (Decidable (path ∈ sites[b]?.getD []))

/-- The call is to a node or to a piece of logic that the junction has. -/
def Within (sites : List (List (List Nat))) (count : Nat) : Call T → Prop
  | .condition b path _ => HasPlace sites b path
  | .logic i _ => i < count
  | .event _ _ | .resolve => False

theorem within_visits_add (call : SessionCall) (n : Nat) (sites : List (List (List Nat)))
    (c : Call T) (hc : c ∈ visits call n sites) :
    ∃ b path, c = .condition (n + b) path call ∧ HasPlace sites b path := by
  induction sites generalizing n with
  | nil => exact absurd hc List.not_mem_nil
  | cons places rest ih =>
    rw [visits_cons] at hc
    rcases List.mem_append.1 hc with hc | hc
    · obtain ⟨path, hpath, rfl⟩ := List.mem_map.1 hc
      exact ⟨0, path, rfl, hpath⟩
    · obtain ⟨b, path, rfl, hplace⟩ := ih (n + 1) hc
      refine ⟨b + 1, path, ?_, hplace⟩
      rw [Nat.add_right_comm, Nat.add_assoc]

/-- A visit calls nodes of the junction, also if it stops after some branches. -/
theorem within_visits (call : SessionCall) (sites : List (List (List Nat))) (k count : Nat) :
    ∀ c ∈ (visits call 0 (sites.take k) : List (Call T)), Within sites count c := by
  intro c hc
  obtain ⟨b, path, rfl, hplace⟩ := within_visits_add call 0 (sites.take k) c hc
  rw [Nat.zero_add]
  unfold HasPlace at hplace
  rw [List.getElem?_take] at hplace
  show path ∈ sites[b]?.getD []
  split at hplace
  · exact hplace
  · exact absurd hplace List.not_mem_nil

theorem within_rounds (call : SessionCall) (sites : List (List (List Nat))) (count : Nat) :
    ∀ c ∈ (rounds call 0 count : List (Call T)), Within sites count c := by
  intro c hc
  obtain ⟨i, hi, rfl⟩ := List.mem_map.1 hc
  have := List.mem_range'_1.1 hi
  show i < count
  omega

theorem ofCondition_rounds (b : Nat) (path : List Nat) (call : SessionCall) (n count : Nat) :
    Call.ofCondition b path (rounds call n count : List (Call T)) = [] := by
  simp [Call.ofCondition, rounds]

theorem ofLogic_visits (i : Nat) (call : SessionCall) (n : Nat)
    (sites : List (List (List Nat))) :
    Call.ofLogic i (visits call n sites : List (Call T)) = [] := by
  refine List.filterMap_eq_nil_iff.2 fun call hcall => ?_
  obtain ⟨x, -, hcall⟩ := List.mem_flatMap.1 hcall
  obtain ⟨path, -, rfl⟩ := List.mem_map.1 hcall
  rfl

/-- A visit of one condition calls each node of it once. -/
theorem ofCondition_places (b n : Nat) (path : List Nat) (call : SessionCall)
    {places : List (List Nat)} (hnodup : places.Nodup) :
    Call.ofCondition b path (places.map fun q => (.condition n q call : Call T)) =
      if n = b ∧ path ∈ places then [call] else [] := by
  induction places with
  | nil => simp [Call.ofCondition]
  | cons q rest ih =>
    obtain ⟨hq, hrest⟩ := List.nodup_cons.1 hnodup
    have hcons : Call.ofCondition b path
        ((q :: rest).map fun q => (.condition n q call : Call T)) =
        (if n = b ∧ q = path then [call] else []) ++
          Call.ofCondition b path (rest.map fun q => (.condition n q call : Call T)) := by
      by_cases h : n = b ∧ q = path <;> simp [Call.ofCondition, h]
    rw [hcons, ih hrest]
    by_cases hn : n = b
    · by_cases hpath : q = path
      · subst hpath
        simp [hn, hq]
      · simp [hn, hpath, Ne.symm hpath]
    · simp [hn]

/-- A visit calls each node of each condition once. -/
theorem ofCondition_visits_add (b n : Nat) (path : List Nat) (call : SessionCall)
    {sites : List (List (List Nat))} (hnodup : ∀ places ∈ sites, places.Nodup) :
    Call.ofCondition b path (visits call n sites : List (Call T)) =
      if n ≤ b ∧ HasPlace sites (b - n) path then [call] else [] := by
  induction sites generalizing n with
  | nil => simp [visits, Call.ofCondition, HasPlace]
  | cons places rest ih =>
    have hplaces := hnodup places List.mem_cons_self
    have hrest : ∀ places ∈ rest, places.Nodup :=
      fun places hmem => hnodup places (List.mem_cons_of_mem _ hmem)
    rw [visits_cons, Call.ofCondition_append, ofCondition_places b n path call hplaces,
      ih (n + 1) hrest]
    -- the visit is past branch `b`, has come to it, or has not
    rcases Nat.lt_trichotomy b n with hlt | rfl | hgt
    · have h₁ : ¬ n = b := by omega
      have h₂ : ¬ n + 1 ≤ b := by omega
      have h₃ : ¬ n ≤ b := by omega
      simp [h₁, h₂, h₃]
    · have h₂ : ¬ b + 1 ≤ b := by omega
      simp [h₂, HasPlace]
    · have h₁ : ¬ n = b := by omega
      have h₂ : n + 1 ≤ b := hgt
      have h₃ : n ≤ b := by omega
      have hsub : b - n = (b - (n + 1)) + 1 := by omega
      simp [h₁, h₂, h₃, HasPlace, hsub]

/-- A visit from the first branch on calls each node of each condition once. -/
theorem ofCondition_visits (b : Nat) (path : List Nat) (call : SessionCall)
    {sites : List (List (List Nat))} (hnodup : ∀ places ∈ sites, places.Nodup) :
    Call.ofCondition b path (visits call 0 sites : List (Call T)) =
      if HasPlace sites b path then [call] else [] := by
  rw [ofCondition_visits_add b 0 path call hnodup]
  simp

/-- A round of the logic calls each piece of it once. -/
theorem ofLogic_rounds (i : Nat) (call : SessionCall) (n count : Nat) :
    Call.ofLogic i (rounds call n count : List (Call T)) =
      if n ≤ i ∧ i < n + count then [call] else [] := by
  induction count generalizing n with
  | zero =>
    have h : ¬ (n ≤ i ∧ i < n + 0) := by omega
    rw [if_neg h]
    rfl
  | succ count ih =>
    have hcons : Call.ofLogic i (rounds call n (count + 1) : List (Call T)) =
        (if n = i then [call] else []) ++
          Call.ofLogic i (rounds call (n + 1) count : List (Call T)) := by
      by_cases h : n = i <;> simp [Call.ofLogic, rounds, List.range'_succ, h]
    rw [hcons, ih]
    by_cases hi : n = i
    · subst hi
      have hother : ¬ (n + 1 ≤ n ∧ n < n + 1 + count) := by omega
      have hthis : n ≤ n ∧ n < n + (count + 1) := by omega
      rw [if_pos rfl, if_neg hother, if_pos hthis, List.append_nil]
    · have hiff : (n + 1 ≤ i ∧ i < n + 1 + count) ↔ (n ≤ i ∧ i < n + (count + 1)) := by omega
      simp only [hi, if_false, List.nil_append, hiff]

theorem nodup_sites (branches : List (Branch T H K C)) :
    ∀ places ∈ sites branches, places.Nodup := by
  intro places hplaces
  obtain ⟨b, -, rfl⟩ := List.mem_map.1 hplaces
  exact Condition.nodup_paths [] b.condition

/-- A node sees its own condition's calls. -/
theorem view_condition {sites : List (List (List Nat))} (count : Nat)
    (hnodup : ∀ places ∈ sites, places.Nodup) {b : Nat} {path : List Nat}
    (hplace : HasPlace sites b path) :
    View sites count (Call.ofCondition b path : List (Call T) → List SessionCall) where
  append := Call.ofCondition_append b path
  opening := by
    rw [Call.ofCondition_append, ofCondition_visits b path _ hnodup, ofCondition_rounds,
      if_pos hplace]
    rfl
  turns k := by
    have htake : ∀ places ∈ sites.take k, places.Nodup :=
      fun places hmem => hnodup places (List.mem_of_mem_take hmem)
    rw [Call.ofCondition_append, ofCondition_visits b path _ htake, ofCondition_rounds]
    split
    · exact Or.inr rfl
    · exact Or.inl rfl
  closing := by
    rw [Call.ofCondition_append, ofCondition_visits b path _ hnodup, ofCondition_rounds,
      if_pos hplace]
    rfl
  resolve := rfl

/-- A piece of logic sees its own calls, one in every round. -/
theorem view_logic (sites : List (List (List Nat))) {i count : Nat} (hi : i < count) :
    View sites count (Call.ofLogic i : List (Call T) → List SessionCall) where
  append := Call.ofLogic_append i
  opening := by
    rw [Call.ofLogic_append, ofLogic_visits, ofLogic_rounds, if_pos (by omega)]
    rfl
  turns k := by
    rw [Call.ofLogic_append, ofLogic_visits, ofLogic_rounds, if_pos (by omega)]
    exact Or.inr rfl
  closing := by
    rw [Call.ofLogic_append, ofLogic_visits, ofLogic_rounds, if_pos (by omega)]
    rfl
  resolve := rfl

/-! ## The calls of a step -/

/-- The calls of a step that leads from one phase to another and evaluates the first `k`
branches: in the first step a start of every condition and then of all logic; a turn of all
logic and then of the branches; and, if one of them was taken, an end of every condition and
then of all logic. -/
def stepCalls (sites : List (List (List Nat))) (count : Nat) (before after : JunctionPhase)
    (k : Nat) : List (Call T) :=
  (if before = .notStarted then visits .start 0 sites ++ rounds .start 0 count else []) ++
    (rounds .turn 0 count ++ visits .turn 0 (sites.take k)) ++
    (if after = .taken then visits .finish 0 sites ++ rounds .finish 0 count else [])

/-- What goes to every node and to all logic goes to what the junction has. -/
theorem within_all (call : SessionCall) (sites : List (List (List Nat))) (count : Nat) :
    ∀ c ∈ (visits call 0 sites ++ rounds call 0 count : List (Call T)),
      Within sites count c := by
  intro c hc
  rcases List.mem_append.1 hc with hc | hc
  · have hvisit := within_visits (T := T) call sites sites.length count
    rw [List.take_length] at hvisit
    exact hvisit c hc
  · exact within_rounds call sites count c hc

/-- A step calls nothing but what the junction has. -/
theorem within_stepCalls (sites : List (List (List Nat))) (count : Nat)
    (before after : JunctionPhase) (k : Nat) :
    ∀ c ∈ (stepCalls sites count before after k : List (Call T)), Within sites count c := by
  intro c hc
  unfold stepCalls at hc
  rcases List.mem_append.1 hc with hc | hc
  · rcases List.mem_append.1 hc with hc | hc
    · split at hc
      · exact within_all .start sites count c hc
      · exact absurd hc List.not_mem_nil
    · rcases List.mem_append.1 hc with hc | hc
      · exact within_rounds .turn sites count c hc
      · exact within_visits .turn sites k count c hc
  · split at hc
    · exact within_all .finish sites count c hc
    · exact absurd hc List.not_mem_nil

/-! ## Sessions along a run -/

/-- The junction has the places and the logic that it was made with, nothing else is called,
and every view of its calls is a session that has come as far as its phase. -/
structure Accounts (sites : List (List (List Nat))) (logic : List (Background H))
    (j : Junction T H K C) (calls : List (Call T)) : Prop where
  places : Junction.sites j.branches = sites
  background : j.logic = logic
  within : ∀ c ∈ calls, c = .resolve ∨ Within sites logic.length c
  session : ∀ see, View sites logic.length see → Session j.phase (see calls)

namespace Accounts

variable {sites : List (List (List Nat))} {logic : List (Background H)}
  {j j' : Junction T H K C} {calls log : List (Call T)} {ends : Bool}

theorem ofBranches (name : String) (logic : List (Background H))
    (branches : List (Branch T H K C)) :
    Accounts (Junction.sites branches) logic (ofBranches name logic branches) [] where
  places := rfl
  background := rfl
  within c hc := absurd hc List.not_mem_nil
  session see hsee := by
    rw [hsee.nil]
    exact .notStarted

/-- The calls of a step, in terms of what its junction was made with. -/
theorem stepped_eq (h : Accounts sites logic j calls)
    (hrun : j.phase = .notStarted ∨ j.phase = .running)
    (hstep : Stepped j log ends j') :
    ∃ k ≤ sites.length, ∃ trail, (trail = [] ∨ trail = [.resolve] ∧ j'.phase = .taken) ∧
      log = stepCalls sites logic.length j.phase j'.phase k ++ trail := by
  have hopening : j.opening = if j.phase = .notStarted then
      visits .start 0 sites ++ rounds .start 0 logic.length else [] := by
    unfold opening
    rw [h.places, h.background]
    rcases hrun with hphase | hphase <;> rw [hphase] <;> rfl
  have hturns : ∀ k, j.turns k =
      rounds .turn 0 logic.length ++ visits .turn 0 (sites.take k) := by
    intro k
    unfold turns
    rw [h.places, h.background]
  have hclosing : j.closing =
      visits .finish 0 sites ++ rounds .finish 0 logic.length := by
    unfold closing
    rw [h.places, h.background]
  have hlength : j.branches.length = sites.length := by
    rw [← h.places, Junction.sites, List.length_map]
  unfold stepCalls
  rw [← hopening, ← hclosing]
  cases hstep with
  | waiting _ hphase _ =>
    refine ⟨j.branches.length, Nat.le_of_eq hlength, [], Or.inl rfl, ?_⟩
    rw [← hturns, hphase, if_neg JunctionPhase.noConfusion, List.append_nil, List.append_nil]
  | @taken i _ trail _ hi hphase _ htrail =>
    refine ⟨i + 1, by omega, trail, htrail.imp id fun h => ⟨h, hphase⟩, ?_⟩
    rw [← hturns, hphase, if_pos rfl]
    simp only [List.append_assoc]

/-- The opening starts every session, unless that has been done. -/
theorem opened (h : Accounts sites logic j calls)
    (hrun : j.phase = .notStarted ∨ j.phase = .running)
    {see : List (Call T) → List SessionCall} (hsee : View sites logic.length see) :
    Session .running (see (calls ++ j.opening)) := by
  have hsession := h.session see hsee
  unfold opening
  rw [h.places, h.background]
  rcases hrun with hphase | hphase
  · rw [hphase] at hsession ⊢
    dsimp only
    rw [hsee.append, hsee.opening]
    exact hsession.opened
  · rw [hphase] at hsession ⊢
    dsimp only
    rw [List.append_nil]
    exact hsession

/-- The turns of a step go on with every session. -/
theorem turned {see : List (Call T) → List SessionCall} (hsee : View sites logic.length see)
    (h : Session .running (see calls)) (hsites : Junction.sites j.branches = sites)
    (hlogic : j.logic = logic) (k : Nat) : Session .running (see (calls ++ j.turns k)) := by
  unfold turns
  rw [hsites, hlogic, hsee.append]
  rcases hsee.turns k with hnone | hone
  · rw [hnone, List.append_nil]
    exact h
  · rw [hone]
    exact h.turned

/-- The closing ends every session. -/
theorem closed {see : List (Call T) → List SessionCall} (hsee : View sites logic.length see)
    (h : Session .running (see calls)) (hsites : Junction.sites j.branches = sites)
    (hlogic : j.logic = logic) {phase : JunctionPhase}
    (hphase : phase = .taken ∨ phase = .aborted) :
    Session phase (see (calls ++ j.closing)) := by
  unfold closing
  rw [hsites, hlogic, hsee.append, hsee.closing]
  exact h.closed hphase

/-- A step keeps the account. -/
theorem stepped (h : Accounts sites logic j calls)
    (hrun : j.phase = .notStarted ∨ j.phase = .running) (hstep : Stepped j log ends j') :
    Accounts sites logic j' (calls ++ log) := by
  have hwithin : ∀ c ∈ calls ++ log, c = .resolve ∨ Within sites logic.length c := by
    intro c hc
    rcases List.mem_append.1 hc with hc | hc
    · exact h.within c hc
    · obtain ⟨k, -, trail, htrail, rfl⟩ := h.stepped_eq hrun hstep
      rcases List.mem_append.1 hc with hc | hc
      · exact Or.inr (within_stepCalls sites _ _ _ _ c hc)
      · rcases htrail with rfl | ⟨rfl, -⟩
        · exact absurd hc List.not_mem_nil
        · exact Or.inl (List.mem_singleton.1 hc)
  cases hstep with
  | waiting hshape hphase _ =>
    refine ⟨hshape.sites.trans h.places, hshape.logic.trans h.background, hwithin,
      fun see hsee => ?_⟩
    rw [hphase, ← List.append_assoc]
    exact turned hsee (h.opened hrun hsee) h.places h.background _
  | @taken i _ trail hshape _ hphase _ htrail =>
    refine ⟨hshape.sites.trans h.places, hshape.logic.trans h.background, hwithin,
      fun see hsee => ?_⟩
    -- opening, turns, closing and the trail are seen one after the other
    have hturned := turned hsee (h.opened hrun hsee) h.places h.background (i + 1)
    have hclosed := closed hsee hturned h.places h.background (Or.inl rfl)
    rw [hphase, ← List.append_assoc, ← List.append_assoc, ← List.append_assoc]
    rcases htrail with rfl | rfl
    · rw [List.append_nil]
      exact hclosed
    · rw [hsee.append, hsee.resolve, List.append_nil]
      exact hclosed

theorem aborted (h : Accounts sites logic j calls) (hrun : j.phase = .running)
    (hshape : SameShape j j') (hphase : j'.phase = .aborted) :
    Accounts sites logic j' (calls ++ j.closing) where
  places := hshape.sites.trans h.places
  background := hshape.logic.trans h.background
  within c hc := by
    rcases List.mem_append.1 hc with hc | hc
    · exact h.within c hc
    · unfold closing at hc
      rw [h.places, h.background] at hc
      exact Or.inr (within_all .finish sites logic.length c hc)
  session see hsee := by
    have hsession := h.session see hsee
    rw [hrun] at hsession
    rw [hphase]
    exact closed hsee hsession h.places h.background (Or.inr rfl)

end Accounts

/-! ## The discipline -/

variable [Scalar T] [Host H T] [Builder K H C]

/-- Along every run of steps and aborts of a junction that was just made: the calls of each
further step are those of `stepCalls`, with a resolution after them at most if a branch was
taken; an abort of a running junction ends every condition and then all logic, and any other
abort changes nothing, as does a step of a junction that is over. Every node of every
condition and every piece of logic has a session that has come as far as the phase of the
junction, and one end exactly if the junction is over; nothing else is called. Keeping the
journal changes nothing of the run. -/
theorem session_discipline (name : String) (logic : List (Background H))
    (branches : List (Branch T H K C)) (moves : List (Move H)) (h : H) :
    let played := play moves (ofBranches name logic branches) h
    let noted := play (moves.map Move.journaled) ((ofBranches name logic branches).recorded id)
      (⟨h, []⟩ : Journaled (Call T) H)
    let calls := noted.2.journal
    let stepped := noted.1.step noted.2
    let stopped := noted.1.abort noted.2
    (noted.1 = played.1.recorded id ∧ noted.2.host = played.2) ∧
    (played.1.phase = .notStarted ∨ played.1.phase = .running →
      ∃ k ≤ branches.length, ∃ trail,
        (trail = [] ∨ trail = [.resolve] ∧ stepped.2.1.phase = .taken) ∧
        stepped.2.2.journal = calls ++ stepCalls (sites branches) logic.length
          played.1.phase stepped.2.1.phase k ++ trail) ∧
    (played.1.phase = .running → stopped.1.phase = .aborted ∧
      stopped.2.journal =
        calls ++ visits .finish 0 (sites branches) ++ rounds .finish 0 logic.length) ∧
    (played.1.phase ≠ .running → stopped = noted ∧ played.1.abort played.2 = played) ∧
    (played.1.phase = .taken ∨ played.1.phase = .aborted →
      stepped.2 = noted ∧ (played.1.step played.2).2 = played) ∧
    (∀ b path, HasPlace (sites branches) b path →
      Session played.1.phase (Call.ofCondition b path calls) ∧
      ((Call.ofCondition b path calls).count .finish = 1 ↔
        played.1.phase = .taken ∨ played.1.phase = .aborted)) ∧
    (∀ i < logic.length, Session played.1.phase (Call.ofLogic i calls)) ∧
    (∀ c ∈ calls, c = .resolve ∨ Within (sites branches) logic.length c) := by
  intro played noted calls stepped stopped
  obtain ⟨log, hnoted, haccounts⟩ := play_recorded (id : Call T → Call T)
    (I := Accounts (sites branches) logic)
    (fun hrun h hstep => h.stepped hrun hstep)
    (fun hrun h hshape hphase _ => h.aborted hrun hshape hphase) moves
    (Accounts.ofBranches name logic branches) (⟨h, []⟩ : Journaled (Call T) H)
  rw [List.nil_append] at haccounts
  have hnoted : noted = (played.1.recorded id, ⟨played.2, log⟩) := by
    rw [List.nil_append, List.map_id] at hnoted
    exact hnoted
  -- the recorded run has come to the plain one, recorded, and so steps and aborts like it
  have hcalls : calls = log := congrArg (fun x => x.2.journal) hnoted
  rw [← hcalls] at hnoted haccounts
  have hstepped : stepped = (played.1.recorded id).step ⟨played.2, calls⟩ :=
    congrArg (fun x => x.1.step x.2) hnoted
  have hstopped : stopped = (played.1.recorded id).abort ⟨played.2, calls⟩ :=
    congrArg (fun x => x.1.abort x.2) hnoted
  have hphase : noted.1.phase = played.1.phase := congrArg (fun x => x.1.phase) hnoted
  refine ⟨⟨congrArg Prod.fst hnoted, congrArg (fun x => x.2.host) hnoted⟩, fun hrun => ?_,
    fun hrun => ?_, fun hrun => ?_, fun hover => ?_, fun b path hplace => ?_, fun i hi => ?_,
    haccounts.within⟩
  · obtain ⟨log', hlog', hstep⟩ := step_recorded (id : Call T → Call T) hrun ⟨played.2, calls⟩
    have hstepped := hstepped.trans hlog'
    obtain ⟨k, hk, trail, htrail, rfl⟩ := haccounts.stepped_eq hrun hstep
    refine ⟨k, by simpa [sites] using hk, trail, ?_, ?_⟩
    · rw [hstepped]
      exact htrail
    · rw [hstepped, List.map_id, ← List.append_assoc]
      rfl
  · obtain ⟨hlog', -, habort, -⟩ := abort_recorded (id : Call T → Call T) hrun ⟨played.2, calls⟩
    rw [hstopped.trans hlog']
    refine ⟨habort, ?_⟩
    rw [List.map_id, closing, haccounts.places, haccounts.background, List.append_assoc]
  · exact ⟨abort_of_ne_running (by rw [hphase]; exact hrun) _, abort_of_ne_running hrun _⟩
  · refine ⟨?_, ?_⟩
    · show (noted.1.step noted.2).2 = noted
      rw [step_of_over (by rw [hphase]; exact hover)]
    · rw [step_of_over hover]
  · have hsession := haccounts.session _ (view_condition logic.length (nodup_sites branches) hplace)
    exact ⟨hsession, hsession.count_finish_iff⟩
  · exact haccounts.session _ (view_logic (sites branches) hi)

end Junction

end Cueflow
