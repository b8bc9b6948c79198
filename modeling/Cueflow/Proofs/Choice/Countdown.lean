import Cueflow.World.Basic
import Cueflow.Proofs.Choice.Flattening
import Cueflow.Proofs.Choice.Nodes
import Cueflow.Proofs.Number.Amount
/-!
# Waits last their time

When a wait holds that is part of a condition.

> `wait_lasts_its_time`: if all that is beside it holds, a condition holds from the evaluation on
> at which the deltas since the start of the session have come up to what was drawn, as long as
> no subtraction rounds. What happened before the session plays no part in it.

A `WaitSession` is a session of a condition with a wait somewhere in it, after anything that may
have happened to the condition. What its evaluations answer is a function of what was drawn and of
the deltas that the wait has read (`WaitSession.answers_eq`), namely that of a countdown,
`Wait.answersTo`. That the countdown is over when the time has passed is then a statement about
numbers (`getElem?_answersTo`).
-/

namespace Cueflow

variable {T H : Type}

/-! ## Counting down -/

/-- What a wait answers while these deltas are taken from what is left of it. -/
def Wait.answersTo [Scalar T] : (left : T) → List T → List Bool
  | _, [] => []
  | left, d :: deltas => decide (left - d ≤ 0) :: answersTo (left - d) deltas

theorem Wait.length_answersTo [Scalar T] (left : T) (deltas : List T) :
    (answersTo left deltas).length = deltas.length := by
  induction deltas generalizing left with
  | nil => rfl
  | cons d deltas ih => exact congrArg (· + 1) (ih (left - d))

namespace Number.Single

/-- The difference is finite, and is that of what the numbers stand for. -/
structure ExactSub (x y : Float32) : Prop where
  left : x.isFinite = true
  right : y.isFinite = true
  finite : (x - y).isFinite = true
  amount_sub : amount (x - y) = amount x - amount y

instance (x y : Float32) : Decidable (ExactSub x y) :=
  decidable_of_iff (x.isFinite = true ∧ y.isFinite = true ∧ (x - y).isFinite = true ∧
      amount (x - y) = amount x - amount y)
    ⟨fun ⟨hx, hy, hfinite, heq⟩ => ⟨hx, hy, hfinite, heq⟩,
      fun ⟨hx, hy, hfinite, heq⟩ => ⟨hx, hy, hfinite, heq⟩⟩

/-- Taking these away one after the other rounds nothing. -/
def ExactlyTaken : (left : Float32) → List Float32 → Prop
  | _, [] => True
  | left, d :: deltas => ExactSub left d ∧ ExactlyTaken (left - d) deltas

instance decidableExactlyTaken :
    (left : Float32) → (deltas : List Float32) → Decidable (ExactlyTaken left deltas)
  | _, [] => inferInstanceAs (Decidable True)
  | left, d :: deltas =>
    have := decidableExactlyTaken (left - d) deltas
    inferInstanceAs (Decidable (ExactSub left d ∧ ExactlyTaken (left - d) deltas))

/-- The time that these deltas make up. -/
def total (deltas : List Float32) : ℚ := (deltas.map amount).sum

/-- A countdown is over when the deltas have come up to what there was. -/
theorem getElem?_answersTo {left : Float32} {deltas : List Float32}
    (h : ExactlyTaken left deltas) {n : Nat} (hn : n < deltas.length) :
    (Wait.answersTo left deltas)[n]? =
      some (decide (amount left ≤ total (deltas.take (n + 1)))) := by
  induction deltas generalizing left n with
  | nil => exact nomatch hn
  | cons d deltas ih =>
    obtain ⟨hexact, hrest⟩ := h
    -- what is left stands for what was left without `d`
    have hsub : ∀ x : ℚ, amount (left - d) ≤ x ↔ amount left ≤ amount d + x := by
      intro x
      rw [hexact.amount_sub, sub_le_iff_le_add']
    cases n with
    | zero =>
      refine congrArg some (decide_eq_decide.2 ?_)
      rw [amount_le_iff hexact.finite rfl, show amount 0 = 0 from rfl, hsub]
      simp [total]
    | succ n =>
      refine (ih hrest (Nat.lt_of_succ_lt_succ hn)).trans (congrArg some (decide_eq_decide.2 ?_))
      rw [hsub, List.take_succ_cons]
      simp [total]

/-- No time goes back. -/
theorem total_take_le {deltas : List Float32} (hfinite : ∀ d ∈ deltas, d.isFinite = true)
    (hdeltas : ∀ d ∈ deltas, 0 ≤ d) {n m : Nat} (hnm : n ≤ m) :
    total (deltas.take n) ≤ total (deltas.take m) := by
  have hsub : (deltas.take n).Sublist (deltas.take m) := (List.take_prefix_take_left hnm).sublist
  refine (hsub.map amount).sum_le_sum fun x hx => ?_
  obtain ⟨d, hd, rfl⟩ := List.mem_map.1 hx
  have hd := List.mem_of_mem_take hd
  exact (amount_le_iff rfl (hfinite d hd)).1 (hdeltas d hd)

theorem ExactlyTaken.isFinite {left : Float32} {deltas : List Float32}
    (h : ExactlyTaken left deltas) : ∀ d ∈ deltas, d.isFinite = true := by
  induction deltas generalizing left with
  | nil => exact fun d hd => nomatch hd
  | cons d deltas ih => exact List.forall_mem_cons.2 ⟨h.1.right, ih h.2⟩

end Number.Single

namespace Condition

/-! ## A wait among other leaves -/

section Leaves

variable [Scalar T] [Host H T]

/-- No leaf but the node at `path` answers no. -/
def MetBut (path : List Nat) (c : Condition T H) (h : H) : Prop :=
  ∀ q n, q ≠ path → c.node? q = some n → n.parts = [] → c.answer? q h = some true

/-- A condition of which all else holds answers what the wait does. -/
theorem isMet_of_metBut {c : Condition T H} {path : List Nat} {w : Wait T} {h : H}
    (hnode : c.node? path = some (.wait w)) (hmet : c.MetBut path h) :
    (c.isMet h).1 = (w.isMet (c.turnsOn path h)).1 := by
  have hanswer : c.answer? path h = some (w.isMet (c.turnsOn path h)).1 := by
    unfold answer?
    rw [hnode]
    rfl
  rw [Bool.eq_iff_iff, isMet_iff]
  constructor
  · intro hall
    exact Option.some.inj (hanswer.symm.trans (hall path _ hnode rfl))
  · intro hwait q n hn hleaf
    by_cases hq : q = path
    · rw [hq, hanswer, hwait]
    · exact hmet q n hq hn hleaf

end Leaves

/-! ## Along the calls -/

variable [Scalar T] [Host H T]

/-- The deltas that the node at `path` reads when it is evaluated. -/
def deltasAt (path : List Nat) : List (Contact H) → Condition T H → H → List T
  | [], _, _ => []
  | .start :: contacts, c, h => deltasAt path contacts (c.start h).1 (c.start h).2
  | .evaluate :: contacts, c, h =>
    Host.deltaTime (c.turnsOn path h) :: deltasAt path contacts (c.isMet h).2.1 (c.isMet h).2.2
  | .finish :: contacts, c, h => deltasAt path contacts (c.finish h).1 (c.finish h).2
  | .meanwhile change :: contacts, c, h => deltasAt path contacts c (change h)

/-- At every evaluation all leaves but the node at `path` hold. -/
def MetButAt (path : List Nat) : List (Contact H) → Condition T H → H → Prop
  | [], _, _ => True
  | .start :: contacts, c, h => MetButAt path contacts (c.start h).1 (c.start h).2
  | .evaluate :: contacts, c, h =>
    c.MetBut path h ∧ MetButAt path contacts (c.isMet h).2.1 (c.isMet h).2.2
  | .finish :: contacts, c, h => MetButAt path contacts (c.finish h).1 (c.finish h).2
  | .meanwhile change :: contacts, c, h => MetButAt path contacts c (change h)

/-- A wait alone has nothing beside it. -/
theorem metButAt_wait (contacts : List (Contact H)) (w : Wait T) (h : H) :
    MetButAt [] contacts (.wait w) h := by
  induction contacts generalizing w h with
  | nil => trivial
  | cons contact contacts ih =>
    cases contact with
    | start => exact ih _ _
    | evaluate =>
      refine ⟨fun q n hq hn _ => ?_, ih _ _⟩
      cases q with
      | nil => exact absurd rfl hq
      | cons i q => exact nomatch hn
    | finish => exact ih w h
    | meanwhile change => exact ih w (change h)

theorem undergo_append (xs ys : List (Contact H)) (c : Condition T H) (h : H) :
    undergo (xs ++ ys) c h =
      let first := undergo xs c h
      let second := undergo ys first.2.1 first.2.2
      (first.1 ++ second.1, second.2) := by
  induction xs generalizing c h with
  | nil => rfl
  | cons contact xs ih =>
    cases contact with
    | start => exact ih _ _
    | evaluate =>
      have hrest := ih (c.isMet h).2.1 (c.isMet h).2.2
      show ((c.isMet h).1 :: (undergo (xs ++ ys) (c.isMet h).2.1 (c.isMet h).2.2).1,
        (undergo (xs ++ ys) (c.isMet h).2.1 (c.isMet h).2.2).2) = _
      rw [hrest]
      rfl
    | finish => exact ih _ _
    | meanwhile change => exact ih _ _

variable {c : Condition T H} {path : List Nat} {w : Wait T}

omit [Scalar T] in
theorem node?_start_wait (hnode : c.node? path = some (.wait w)) (h : H) :
    (c.start h).1.node? path =
      some (.wait { w with remaining := (Host.draw w.min w.max (c.startsOn path h)).1 }) := by
  rw [node?_start, hnode]
  rfl

theorem node?_isMet_wait (hnode : c.node? path = some (.wait w)) (h : H) :
    (c.isMet h).2.1.node? path =
      some (.wait { w with remaining := w.remaining - Host.deltaTime (c.turnsOn path h) }) := by
  rw [node?_isMet, hnode]
  rfl

omit [Scalar T] [Host H T] in
theorem node?_finish_wait (hnode : c.node? path = some (.wait w)) (h : H) :
    (c.finish h).1.node? path = some (.wait w) := by
  rw [finish_eq_released, node?_released, hnode]
  rfl

/-- Calls leave a wait where it is, with the same range. -/
theorem node?_undergo_wait (contacts : List (Contact H)) (hnode : c.node? path = some (.wait w))
    (h : H) :
    ∃ left, (undergo contacts c h).2.1.node? path = some (.wait { w with remaining := left }) := by
  induction contacts generalizing c w h with
  | nil => exact ⟨w.remaining, hnode⟩
  | cons contact contacts ih =>
    cases contact with
    | start => exact ih (node?_start_wait hnode h) _
    | evaluate => exact ih (node?_isMet_wait hnode h) _
    | finish => exact ih (node?_finish_wait hnode h) _
    | meanwhile change => exact ih hnode (change h)

/-- Without another start, what is answered is what a countdown answers. -/
theorem undergo_eq_answersTo {contacts : List (Contact H)} (hone : Contact.start ∉ contacts)
    (hnode : c.node? path = some (.wait w)) {h : H} (hmet : MetButAt path contacts c h) :
    (undergo contacts c h).1 = Wait.answersTo w.remaining (deltasAt path contacts c h) := by
  induction contacts generalizing c w h with
  | nil => rfl
  | cons contact contacts ih =>
    obtain ⟨hfirst, htail⟩ := not_or.1 (mt List.mem_cons.2 hone)
    cases contact with
    | start => exact absurd rfl hfirst
    | evaluate =>
      obtain ⟨hmet, hrest⟩ := hmet
      have hanswer := isMet_of_metBut hnode hmet
      have hanswers := ih htail (node?_isMet_wait hnode h) hrest
      exact congr (congrArg List.cons hanswer) hanswers
    | finish => exact ih htail (node?_finish_wait hnode h) hmet
    | meanwhile change => exact ih htail hnode hmet

end Condition

open Condition

/-! ## Sessions -/

/-- A session of a condition with a wait in it, the condition being found as everything that
happened before has left it. -/
structure WaitSession (T H : Type) where
  condition : Condition T H
  /-- Where the wait is; the empty path if it is alone. -/
  path : List Nat
  wait : Wait T
  node : condition.node? path = some (.wait wait)
  host : H
  /-- Other sessions, ended or not. -/
  before : List (Contact H)
  /-- What happens in the session after it was started. -/
  contacts : List (Contact H)
  one : Contact.start ∉ contacts

namespace WaitSession

variable [Scalar T] [Host H T]

/-- The condition and the host when the session is started. -/
def found (s : WaitSession T H) : Condition T H × H := (undergo s.before s.condition s.host).2

def started (s : WaitSession T H) : Condition T H × H := s.found.1.start s.found.2

/-- What the wait draws. -/
def drawn (s : WaitSession T H) : T :=
  (Host.draw s.wait.min s.wait.max (s.found.1.startsOn s.path s.found.2)).1

/-- The deltas that the wait reads in the session. -/
def deltas (s : WaitSession T H) : List T := deltasAt s.path s.contacts s.started.1 s.started.2

/-- What the evaluations of the session answer. -/
def answers (s : WaitSession T H) : List Bool := (undergo s.contacts s.started.1 s.started.2).1

/-- The wait is alone, or all else in the condition holds throughout the session. -/
def Undisturbed (s : WaitSession T H) : Prop :=
  s.path = [] ∨ MetButAt s.path s.contacts s.started.1 s.started.2

/-- The wait is still there, and what is left of it is what was drawn. -/
theorem node?_started (s : WaitSession T H) :
    s.started.1.node? s.path = some (.wait { s.wait with remaining := s.drawn }) := by
  obtain ⟨left, hfound⟩ := node?_undergo_wait s.before s.node s.host
  exact node?_start_wait hfound s.found.2

/-- What is answered is a matter of what was drawn and of the deltas. -/
theorem answers_eq (s : WaitSession T H) (h : s.Undisturbed) :
    s.answers = Wait.answersTo s.drawn s.deltas := by
  have hnode := s.node?_started
  refine undergo_eq_answersTo s.one hnode (h.elim (fun halone => ?_) id)
  rw [halone] at hnode ⊢
  rw [Option.some.inj hnode]
  exact metButAt_wait s.contacts _ _

/-- The session comes after what was before. -/
theorem undergo_whole (s : WaitSession T H) :
    (undergo (s.before ++ .start :: s.contacts) s.condition s.host).1 =
      (undergo s.before s.condition s.host).1 ++ s.answers := by
  rw [undergo_append]
  rfl

end WaitSession

open Number.Single in
/-- In a session of a condition with a wait in it, alone or in conjunctions of any depth, while all
else in the condition holds, the deltas are not below 0 and no subtraction rounds: the evaluation
with index `n` is answered with yes exactly if the first `n + 1` deltas come up to what was drawn;
once the answer is yes, it stays so; and it is the same in every other session in which as much
was drawn and as much time has passed, in whatever ticks. Two sessions with the same draw and the
same deltas answer the same, whatever happened to either condition before. -/
theorem wait_lasts_its_time [Host H Float32] (s : WaitSession Float32 H) (h : s.Undisturbed)
    (hdeltas : ∀ d ∈ s.deltas, 0 ≤ d) (hexact : ExactlyTaken s.drawn s.deltas) :
    (undergo (s.before ++ .start :: s.contacts) s.condition s.host).1 =
      (undergo s.before s.condition s.host).1 ++ s.answers ∧
    s.answers.length = s.deltas.length ∧
    (∀ n < s.answers.length, s.answers[n]? = some true ↔
      amount s.drawn ≤ total (s.deltas.take (n + 1))) ∧
    (∀ n m, n ≤ m → m < s.answers.length → s.answers[n]? = some true →
      s.answers[m]? = some true) ∧
    (∀ s' : WaitSession Float32 H, s'.Undisturbed → ExactlyTaken s'.drawn s'.deltas →
      amount s'.drawn = amount s.drawn → ∀ n m, n < s.answers.length → m < s'.answers.length →
      total (s'.deltas.take (m + 1)) = total (s.deltas.take (n + 1)) →
      s'.answers[m]? = s.answers[n]?) ∧
    (∀ s' : WaitSession Float32 H, s'.Undisturbed → s'.drawn = s.drawn → s'.deltas = s.deltas →
      s'.answers = s.answers) := by
  have hanswers := s.answers_eq h
  have hlength : s.answers.length = s.deltas.length := by rw [hanswers, Wait.length_answersTo]
  have hanswer : ∀ n < s.answers.length, s.answers[n]? =
      some (decide (amount s.drawn ≤ total (s.deltas.take (n + 1)))) := by
    intro n hn
    rw [hanswers]
    exact getElem?_answersTo hexact (hlength ▸ hn)
  have hmet : ∀ n < s.answers.length, s.answers[n]? = some true ↔
      amount s.drawn ≤ total (s.deltas.take (n + 1)) := by
    intro n hn
    rw [hanswer n hn, Option.some.injEq, decide_eq_true_iff]
  refine ⟨s.undergo_whole, hlength, hmet, fun n m hnm hm hyes => ?_,
    fun s' h' hexact' hdrawn n m hn hm htotal => ?_,
    fun s' h' hdrawn hsame => ?_⟩
  · have htotal := total_take_le hexact.isFinite hdeltas (Nat.succ_le_succ hnm)
    exact (hmet m hm).2 (((hmet n (Nat.lt_of_le_of_lt hnm hm)).1 hyes).trans htotal)
  · have hanswers' := s'.answers_eq h'
    rw [hanswers', Wait.length_answersTo] at hm
    rw [hanswer n hn, hanswers', getElem?_answersTo hexact' hm, hdrawn, htotal]
  · rw [hanswers, s'.answers_eq h', hdrawn, hsame]

/-- After a session of two that was left at that, two seconds are drawn in a conjunction and pass
in ticks of 1, 0.5 and 0.5: the third evaluation is answered with yes, and so is the next. -/
theorem wait_lasts_its_time_of_two :
    let half : World → World := (·.beginTick 0.5)
    let s : WaitSession Float32 World := {
      condition := .all [.always, .all [.wait ⟨2, 2, 2⟩]]
      path := [1, 0]
      wait := ⟨2, 2, 2⟩
      node := rfl
      host := (World.ofSeed none).beginTick 1
      before := [.start, .evaluate, .evaluate, .evaluate]
      contacts := [.evaluate, .meanwhile half, .evaluate, .evaluate, .evaluate]
      one := by simp }
    Wait.between (2 : Float32) 2 = .ok s.wait ∧ s.Undisturbed ∧ (∀ d ∈ s.deltas, 0 ≤ d) ∧
    Number.Single.ExactlyTaken s.drawn s.deltas ∧ s.drawn = 2 ∧ s.deltas = [1, 0.5, 0.5, 0.5] ∧
    s.answers[1]? ≠ some true ∧ s.answers[2]? = some true ∧ s.answers[3]? = some true := by
  intro half s
  have hmet : ∀ (w : Wait Float32) (u : World),
      MetBut [1, 0] (.all [.always, .all [.wait w]]) u := by
    intro w u q n hq hn hleaf
    rcases q with _ | ⟨_ | _ | i, q⟩
    · cases hn
      exact nomatch hleaf
    · cases q with
      | nil =>
        cases hn
        rfl
      | cons j q => exact nomatch hn
    · rcases q with _ | ⟨_ | j, q⟩
      · cases hn
        exact nomatch hleaf
      · cases q with
        | nil => exact absurd rfl hq
        | cons k q => exact nomatch hn
      · exact nomatch hn
    · exact nomatch hn
  have h : s.Undisturbed := Or.inr ⟨hmet _ _, hmet _ _, hmet _ _, hmet _ _, trivial⟩
  have hdeltas : ∀ d ∈ s.deltas, 0 ≤ d := by decide +kernel
  have hexact : Number.Single.ExactlyTaken s.drawn s.deltas := by decide +kernel
  obtain ⟨-, hlength, hyes, hstays, -⟩ := wait_lasts_its_time s h hdeltas hexact
  have hfour : s.answers.length = 4 := hlength.trans (by decide +kernel)
  have hthird : s.answers[2]? = some true := (hyes 2 (by omega)).2 (by decide +kernel)
  refine ⟨rfl, h, hdeltas, hexact, by decide +kernel, by decide +kernel, ?_, hthird, ?_⟩
  · exact mt (hyes 1 (by omega)).1 (by decide +kernel)
  · exact hstays 2 3 (by omega) (by omega) hthird

end Cueflow
