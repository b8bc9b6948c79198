import Cueflow.Proofs.Choice.Priority
/-!
# Nodes of a junction's conditions, and the hosts they are called on

What becomes of one node when the tree that it is part of is started, evaluated and finished.

> `nodeAt_startBranches`, `nodeAt_turnBranches`, `nodeAt_finishBranches`: the node of a branch
> is called exactly as it would be alone, on a host that depends on what comes before it; the
> nodes of branches that are not evaluated stay as they are.

A node is found by descending along its path (`Condition.node?`). `startsAt` and `turnsAt` are
the hosts on which it is started and evaluated: the branches before its own have been called,
and at every conjunction above it the parts before.
-/

namespace Cueflow

variable {T H K C : Type}

namespace Condition

/-! ## Descending -/

/-- The parts of a conjunction; no other condition has any. -/
def parts : Condition T H → List (Condition T H)
  | .all parts => parts
  | .wait _ | .predicate _ _ | .dependency _ | .always | .custom _ => []

/-- The node at this path, if the tree has one there. -/
def node? (c : Condition T H) : List Nat → Option (Condition T H)
  | [] => some c
  | i :: path => c.parts[i]?.bind fun part => part.node? path

mutual

/-- A node is at one of the places of its tree. -/
theorem mem_paths_of_node? : ∀ (path : List Nat) (c : Condition T H) (q : List Nat)
    (n : Condition T H), c.node? q = some n → path ++ q ∈ c.paths path
  | path, .all parts, [], n, _ => by
    rw [List.append_nil]
    exact List.mem_cons_self
  | path, .all parts, i :: q, n, hn => by
    obtain ⟨part, hpart, hn⟩ := Option.bind_eq_some_iff.1 hn
    have := mem_pathsAll_of_node? path 0 parts i part hpart q n hn
    rw [Nat.zero_add] at this
    exact List.mem_cons_of_mem _ this
  | path, .wait _, q, n, hn | path, .predicate _ _, q, n, hn | path, .dependency _, q, n, hn
  | path, .always, q, n, hn | path, .custom _, q, n, hn => by
    cases q with
    | nil =>
      rw [List.append_nil]
      exact List.mem_singleton.2 rfl
    | cons i q => cases hn

/-- The same for the parts of a conjunction. -/
theorem mem_pathsAll_of_node? : ∀ (path : List Nat) (k : Nat) (parts : List (Condition T H))
    (i : Nat) (part : Condition T H), parts[i]? = some part → ∀ (q : List Nat)
    (n : Condition T H), part.node? q = some n → path ++ (k + i) :: q ∈ pathsAll path k parts
  | path, k, c :: rest, 0, part, hpart, q, n, hn => by
    cases hpart
    refine List.mem_append_left _ ?_
    have := mem_paths_of_node? (path ++ [k]) c q n hn
    rw [List.append_assoc] at this
    exact this
  | path, k, c :: rest, i + 1, part, hpart, q, n, hn => by
    refine List.mem_append_right _ ?_
    have := mem_pathsAll_of_node? path (k + 1) rest i part hpart q n hn
    rw [Nat.add_right_comm, Nat.add_assoc] at this
    exact this

end

/-! ## Calling a node through its tree -/

mutual

/-- The condition as it is when its session has ended. -/
def released : Condition T H → Condition T H
  | .dependency d => .dependency d.finish
  | .all parts => .all (releasedAll parts)
  | .wait w => .wait w
  | .predicate label test => .predicate label test
  | .always => .always
  | .custom c => .custom c

def releasedAll : List (Condition T H) → List (Condition T H)
  | [] => []
  | c :: rest => released c :: releasedAll rest

end

mutual

/-- Finishing releases a condition, whatever the host. -/
theorem finish_eq_released : ∀ (c : Condition T H) (h : H), (c.finish h).1 = c.released
  | .all parts, h => congrArg Condition.all (finishAll_eq_releasedAll parts h)
  | .wait _, _ | .predicate _ _, _ | .dependency _, _ | .always, _ | .custom _, _ => rfl

theorem finishAll_eq_releasedAll : ∀ (parts : List (Condition T H)) (h : H),
    (finishAll parts h).1 = releasedAll parts
  | [], _ => rfl
  | c :: rest, h => by
    show (c.finish h).1 :: (finishAll rest (c.finish h).2).1 = c.released :: releasedAll rest
    rw [finish_eq_released, finishAll_eq_releasedAll]

end

theorem getElem?_releasedAll (parts : List (Condition T H)) (i : Nat) :
    (releasedAll parts)[i]? = parts[i]?.map released := by
  induction parts generalizing i with
  | nil => rfl
  | cons c rest ih =>
    cases i with
    | zero => rfl
    | succ i => exact ih i

theorem parts_released (c : Condition T H) : c.released.parts = releasedAll c.parts := by
  cases c <;> rfl

theorem node?_released (c : Condition T H) (path : List Nat) :
    c.released.node? path = (c.node? path).map released := by
  induction path generalizing c with
  | nil => rfl
  | cons i path ih =>
    simp only [node?, parts_released, getElem?_releasedAll]
    cases c.parts[i]? with
    | none => rfl
    | some part => exact ih part

variable [Host H T]

theorem parts_start (c : Condition T H) (h : H) :
    (c.start h).1.parts = (startAll c.parts h).1 := by
  cases c <;> rfl

theorem getElem?_startAll (parts : List (Condition T H)) (i : Nat) (h : H) :
    (startAll parts h).1[i]? =
      parts[i]?.map fun c => (c.start (startAll (parts.take i) h).2).1 := by
  induction parts generalizing i h with
  | nil => rfl
  | cons c rest ih =>
    cases i with
    | zero => rfl
    | succ i => exact ih i (c.start h).2

/-- The host on which the node at this path is started. -/
def startsOn (c : Condition T H) : List Nat → H → H
  | [], h => h
  | i :: path, h =>
    match c.parts[i]? with
    | none => h
    | some part => part.startsOn path (startAll (c.parts.take i) h).2

/-- Starting a condition starts each node of it. -/
theorem node?_start (c : Condition T H) (path : List Nat) (h : H) :
    (c.start h).1.node? path = (c.node? path).map fun n => (n.start (c.startsOn path h)).1 := by
  induction path generalizing c h with
  | nil => rfl
  | cons i path ih =>
    simp only [node?, startsOn, parts_start, getElem?_startAll]
    cases c.parts[i]? with
    | none => rfl
    | some part => exact ih part _

variable [Scalar T]

theorem parts_isMet (c : Condition T H) (h : H) :
    (c.isMet h).2.1.parts = (allMet c.parts h).2.1 := by
  cases c <;> rfl

theorem getElem?_allMet (parts : List (Condition T H)) (i : Nat) (h : H) :
    (allMet parts h).2.1[i]? =
      parts[i]?.map fun c => (c.isMet (allMet (parts.take i) h).2.2).2.1 := by
  induction parts generalizing i h with
  | nil => rfl
  | cons c rest ih =>
    cases i with
    | zero => rfl
    | succ i => exact ih i (c.isMet h).2.2

/-- The host on which the node at this path is evaluated. -/
def turnsOn (c : Condition T H) : List Nat → H → H
  | [], h => h
  | i :: path, h =>
    match c.parts[i]? with
    | none => h
    | some part => part.turnsOn path (allMet (c.parts.take i) h).2.2

/-- Evaluating a condition evaluates each node of it. -/
theorem node?_isMet (c : Condition T H) (path : List Nat) (h : H) :
    (c.isMet h).2.1.node? path =
      (c.node? path).map fun n => (n.isMet (c.turnsOn path h)).2.1 := by
  induction path generalizing c h with
  | nil => rfl
  | cons i path ih =>
    simp only [node?, turnsOn, parts_isMet, getElem?_allMet]
    cases c.parts[i]? with
    | none => rfl
    | some part => exact ih part _

/-! ## What nodes answer -/

/-- What the node at this path answers when the condition is evaluated. -/
def answer? (c : Condition T H) (path : List Nat) (h : H) : Option Bool :=
  (c.node? path).map fun n => (n.isMet (c.turnsOn path h)).1

theorem answer?_all_succ (c : Condition T H) (rest : List (Condition T H)) (i : Nat)
    (path : List Nat) (h : H) :
    (all (c :: rest)).answer? ((i + 1) :: path) h =
      (all rest).answer? (i :: path) (c.isMet h).2.2 := by
  simp only [answer?, node?, turnsOn, parts, List.getElem?_cons_succ, List.take_succ_cons]
  cases rest[i]? <;> rfl

/-- No node without parts answers no. -/
def LeavesMet (c : Condition T H) (h : H) : Prop :=
  ∀ path n, c.node? path = some n → n.parts = [] → c.answer? path h = some true

theorem leavesMet_all_cons {c : Condition T H} {rest : List (Condition T H)} {h : H} :
    LeavesMet (.all (c :: rest)) h ↔
      LeavesMet c h ∧ LeavesMet (.all rest) (c.isMet h).2.2 := by
  constructor
  · intro hall
    refine ⟨fun path => hall (0 :: path), fun path n hn hleaf => ?_⟩
    cases path with
    | nil =>
      cases hn
      obtain rfl : rest = [] := hleaf
      rfl
    | cons i path =>
      rw [← answer?_all_succ]
      exact hall ((i + 1) :: path) n hn hleaf
  · rintro ⟨hc, hrest⟩ path n hn hleaf
    cases path with
    | nil =>
      cases hn
      cases hleaf
    | cons i path =>
      cases i with
      | zero => exact hc path n hn hleaf
      | succ i =>
        rw [answer?_all_succ]
        exact hrest (i :: path) n hn hleaf

/-- A condition without parts is its only node. -/
theorem leavesMet_of_parts {c : Condition T H} (hparts : c.parts = []) (h : H) :
    c.LeavesMet h ↔ (c.isMet h).1 = true := by
  constructor
  · intro hall
    exact Option.some.inj (hall [] c rfl hparts)
  · intro hmet path n hn _
    cases path with
    | nil => exact congrArg some hmet
    | cons i path =>
      rw [node?, hparts] at hn
      cases hn

mutual

/-- A condition holds exactly when no leaf of it answers no. -/
theorem isMet_iff : ∀ (c : Condition T H) (h : H), (c.isMet h).1 = true ↔ c.LeavesMet h
  | .all parts, h => allMet_iff parts h
  | .wait w, h => (leavesMet_of_parts (c := .wait w) rfl h).symm
  | .predicate label test, h => (leavesMet_of_parts (c := .predicate label test) rfl h).symm
  | .dependency d, h => (leavesMet_of_parts (c := .dependency d) rfl h).symm
  | .always, h => (leavesMet_of_parts (c := .always) rfl h).symm
  | .custom c, h => (leavesMet_of_parts (c := .custom c) rfl h).symm

theorem allMet_iff : ∀ (parts : List (Condition T H)) (h : H),
    (allMet parts h).1 = true ↔ LeavesMet (.all parts) h
  | [], h => (leavesMet_of_parts (c := .all []) rfl h).symm
  | c :: rest, h =>
    Bool.and_eq_true_iff.trans
      ((and_congr (isMet_iff c h) (allMet_iff rest (c.isMet h).2.2)).trans
        leavesMet_all_cons.symm)

end

end Condition

namespace Junction

/-! ## Nodes of branches -/

/-- The node at this path of the condition of branch `b`. -/
def nodeAt (branches : List (Branch T H K C)) (b : Nat) (path : List Nat) :
    Option (Condition T H) :=
  branches[b]?.bind fun branch => branch.condition.node? path

variable {branches : List (Branch T H K C)}

/-- A node is at a place of its branch. -/
theorem hasPlace_of_nodeAt {b : Nat} {path : List Nat} {n : Condition T H}
    (hn : nodeAt branches b path = some n) : HasPlace (sites branches) b path := by
  obtain ⟨branch, hbranch, hn⟩ := Option.bind_eq_some_iff.1 hn
  have hplace := Condition.mem_paths_of_node? [] branch.condition path n hn
  unfold HasPlace sites
  rw [List.getElem?_map, hbranch]
  exact hplace

theorem nodeAt_finishBranches (branches : List (Branch T H K C)) (b : Nat) (path : List Nat)
    (h : H) : nodeAt (finishBranches branches h).1 b path =
      (nodeAt branches b path).map Condition.released := by
  induction branches generalizing b h with
  | nil => rfl
  | cons branch rest ih =>
    cases b with
    | zero =>
      show (branch.condition.finish h).1.node? path = (branch.condition.node? path).map _
      rw [Condition.finish_eq_released, Condition.node?_released]
    | succ b => exact ih b _

theorem nodeAt_resolveAt [Builder K H C] (branches : List (Branch T H K C)) (i b : Nat)
    (path : List Nat) (h : H) :
    nodeAt (resolveAt branches i h).2.1 b path = nodeAt branches b path := by
  induction branches generalizing i b with
  | nil => rfl
  | cons branch rest ih =>
    cases i with
    | zero => cases b <;> rfl
    | succ i =>
      cases b with
      | zero => rfl
      | succ b => exact ih i b

variable [Host H T]

/-- The host on which the node of branch `b` at this path is started. -/
def startsAt (branches : List (Branch T H K C)) (b : Nat) (path : List Nat) (h : H) : H :=
  let h := (startBranches (branches.take b) h).2
  match branches[b]? with
  | none => h
  | some branch => branch.condition.startsOn path h

theorem nodeAt_startBranches (branches : List (Branch T H K C)) (b : Nat) (path : List Nat)
    (h : H) : nodeAt (startBranches branches h).1 b path =
      (nodeAt branches b path).map fun n => (n.start (startsAt branches b path h)).1 := by
  induction branches generalizing b h with
  | nil => rfl
  | cons branch rest ih =>
    cases b with
    | zero => exact branch.condition.node?_start path h
    | succ b => exact ih b _

variable [Scalar T]

/-- The host on which the node of branch `b` at this path is evaluated. -/
def turnsAt (branches : List (Branch T H K C)) (b : Nat) (path : List Nat) (h : H) : H :=
  let h := (turnBranches b branches h).2
  match branches[b]? with
  | none => h
  | some branch => branch.condition.turnsOn path h

/-- The branches that are evaluated, are evaluated node by node; the others stay as they
are. -/
theorem nodeAt_turnBranches (k : Nat) (branches : List (Branch T H K C)) (b : Nat)
    (path : List Nat) (h : H) : nodeAt (turnBranches k branches h).1 b path =
      if b < k then (nodeAt branches b path).map fun n => (n.isMet (turnsAt branches b path h)).2.1
      else nodeAt branches b path := by
  induction branches generalizing k b h with
  | nil => cases k <;> simp [turnBranches, nodeAt]
  | cons branch rest ih =>
    cases k with
    | zero => rfl
    | succ k =>
      cases b with
      | zero => exact branch.condition.node?_isMet path h
      | succ b =>
        have hrest := ih k b (branch.isOpen h).2.2
        simp only [Nat.succ_lt_succ_iff]
        exact hrest

end Junction

end Cueflow
