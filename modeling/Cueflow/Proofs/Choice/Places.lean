import Cueflow.Choice.Condition
import Cueflow.Proofs.Journal
/-!
# Recorded conditions, and the places in their trees

A condition is a tree, and every node of it is told when a session starts, is evaluated, and
ends. A node is named by its path: the indices of the parts that lead to it from the root.
`Condition.paths` lists the places of a tree, each node before its parts and these from left
to right.

> `start_recorded`, `isMet_recorded`, `finish_recorded`: a call to a condition is a call to
> each node of its tree, in the order of `paths`, whatever the nodes answer.

A recorded node is a conjunction of two parts. The first always holds and notes the call; the
second is the node itself. Conjunctions pass every call on to every part, so the node answers
and acts as it does alone.
-/

namespace Cueflow

variable {T H E : Type}

namespace Condition

/-! ## Places -/

mutual

/-- The places in the tree of the condition at `path`, that place first. -/
def paths (path : List Nat) : Condition T H → List (List Nat)
  | .all parts => path :: pathsAll path 0 parts
  | .wait _ | .predicate _ _ | .dependency _ | .always | .custom _ => [path]

/-- The places in the trees of the parts of the condition at `path`, from part `i` on. -/
def pathsAll (path : List Nat) (i : Nat) : List (Condition T H) → List (List Nat)
  | [] => []
  | c :: rest => paths (path ++ [i]) c ++ pathsAll path (i + 1) rest

end

mutual

/-- A place of a tree lies below its root. -/
theorem prefix_of_mem_paths : ∀ (path : List Nat) (c : Condition T H) (q : List Nat),
    q ∈ c.paths path → path <+: q
  | path, .all parts, q, hq => by
    rcases List.mem_cons.1 hq with rfl | hq
    · exact List.prefix_refl q
    · obtain ⟨j, -, hj⟩ := prefix_of_mem_pathsAll path 0 parts q hq
      exact (List.prefix_append path [j]).trans hj
  | path, .wait _, q, hq | path, .predicate _ _, q, hq | path, .dependency _, q, hq
  | path, .always, q, hq | path, .custom _, q, hq => by
    obtain rfl := List.mem_singleton.1 hq
    exact List.prefix_refl q

/-- A place of a part lies below one of the parts from `i` on. -/
theorem prefix_of_mem_pathsAll : ∀ (path : List Nat) (i : Nat) (parts : List (Condition T H))
    (q : List Nat), q ∈ pathsAll path i parts → ∃ j ≥ i, path ++ [j] <+: q
  | path, i, [], q, hq => nomatch hq
  | path, i, c :: rest, q, hq => by
    rcases List.mem_append.1 hq with hq | hq
    · exact ⟨i, Nat.le_refl i, prefix_of_mem_paths (path ++ [i]) c q hq⟩
    · obtain ⟨j, hij, hj⟩ := prefix_of_mem_pathsAll path (i + 1) rest q hq
      exact ⟨j, Nat.le_of_succ_le hij, hj⟩

end

mutual

/-- No place is listed twice. -/
theorem nodup_paths : ∀ (path : List Nat) (c : Condition T H), (c.paths path).Nodup
  | path, .all parts => by
    -- places of parts are longer than the place of the whole
    refine List.nodup_cons.2 ⟨fun hmem => ?_, nodup_pathsAll path 0 parts⟩
    obtain ⟨j, -, hj⟩ := prefix_of_mem_pathsAll path 0 parts path hmem
    have := hj.length_le
    rw [List.length_append, List.length_singleton] at this
    omega
  | path, .wait _ | path, .predicate _ _ | path, .dependency _ | path, .always
  | path, .custom _ => List.pairwise_singleton _ path

/-- No place of the parts is listed twice. -/
theorem nodup_pathsAll : ∀ (path : List Nat) (i : Nat) (parts : List (Condition T H)),
    (pathsAll path i parts).Nodup
  | path, i, [] => List.nodup_nil
  | path, i, c :: rest => by
    refine List.nodup_append.2 ⟨nodup_paths (path ++ [i]) c, nodup_pathsAll path (i + 1) rest, ?_⟩
    intro q hq q' hq' heq
    subst heq
    -- the two places lie below different parts
    have hi := prefix_of_mem_paths (path ++ [i]) c q hq
    obtain ⟨j, hij, hj⟩ := prefix_of_mem_pathsAll path (i + 1) rest q hq'
    have hsame := List.prefix_of_prefix_length_le hi hj (by simp)
    have := List.append_inj_right (hsame.eq_of_length (by simp)) rfl
    simp at this
    omega

end

/-! ## Lifting conditions -/

/-- The condition behind one that always holds and notes every call. -/
def noting (mark : SessionCall → E) (c : Condition T (Journaled E H)) :
    Condition T (Journaled E H) :=
  .all [.custom {
    start := Journaled.note [mark .start]
    isMet := fun s => (true, s.note [mark .turn])
    finish := Journaled.note [mark .finish] }, c]

mutual

/-- The condition at `path` on a host with a journal. -/
def recorded (mark : List Nat → SessionCall → E) (path : List Nat) :
    Condition T H → Condition T (Journaled E H)
  | .wait w => noting (mark path) (.wait w)
  | .predicate label test => noting (mark path) (.predicate label (Journaled.ask test))
  | .dependency d => noting (mark path) (.dependency d)
  | .always => noting (mark path) .always
  | .all parts => noting (mark path) (.all (recordedAll mark path 0 parts))
  | .custom c => noting (mark path) (.custom {
      start := Journaled.act c.start
      isMet := Journaled.ask c.isMet
      finish := Journaled.act c.finish })

/-- The parts of the condition at `path`, from part `i` on, on a host with a journal. -/
def recordedAll (mark : List Nat → SessionCall → E) (path : List Nat) (i : Nat) :
    List (Condition T H) → List (Condition T (Journaled E H))
  | [] => []
  | c :: rest => recorded mark (path ++ [i]) c :: recordedAll mark path (i + 1) rest

end

/-! ## What a call to a condition notes -/

/-- What is noted when every node is called in turn. -/
def visit (mark : List Nat → SessionCall → E) (call : SessionCall) (places : List (List Nat)) :
    List E :=
  places.map fun path => mark path call

theorem visit_append (mark : List Nat → SessionCall → E) (call : SessionCall)
    (places places' : List (List Nat)) :
    visit mark call (places ++ places') = visit mark call places ++ visit mark call places' :=
  List.map_append

theorem start_noting [Host H T] (mark : SessionCall → E) (c : Condition T (Journaled E H))
    (s : Journaled E H) :
    (noting mark c).start s =
      (noting mark (c.start (s.note [mark .start])).1, (c.start (s.note [mark .start])).2) := by
  simp [noting, start, startAll]

theorem isMet_noting [Scalar T] [Host H T] (mark : SessionCall → E)
    (c : Condition T (Journaled E H)) (s : Journaled E H) :
    (noting mark c).isMet s =
      ((c.isMet (s.note [mark .turn])).1, noting mark (c.isMet (s.note [mark .turn])).2.1,
        (c.isMet (s.note [mark .turn])).2.2) := by
  simp [noting, isMet, allMet]

theorem finish_noting (mark : SessionCall → E) (c : Condition T (Journaled E H))
    (s : Journaled E H) :
    (noting mark c).finish s =
      (noting mark (c.finish (s.note [mark .finish])).1,
        (c.finish (s.note [mark .finish])).2) := by
  simp [noting, finish, finishAll]

mutual

/-- Starting a session of a recorded condition is starting one, and notes a start at every
place. -/
theorem start_recorded [Host H T] (mark : List Nat → SessionCall → E) :
    ∀ (path : List Nat) (c : Condition T H) (s : Journaled E H),
    (c.recorded mark path).start s =
      ((c.start s.host).1.recorded mark path,
        ⟨(c.start s.host).2, s.journal ++ visit mark .start (c.paths path)⟩)
  | path, .all parts, s => by
    simp only [recorded, start_noting, start, startAll_recorded mark path 0 parts, paths]
    simp [visit, Journaled.note]
  | path, .wait _, s | path, .predicate _ _, s | path, .dependency _, s | path, .always, s
  | path, .custom _, s => by
    simp only [recorded, start_noting]
    rfl

theorem startAll_recorded [Host H T] (mark : List Nat → SessionCall → E) :
    ∀ (path : List Nat) (i : Nat) (parts : List (Condition T H)) (s : Journaled E H),
    startAll (recordedAll mark path i parts) s =
      (recordedAll mark path i (startAll parts s.host).1,
        ⟨(startAll parts s.host).2, s.journal ++ visit mark .start (pathsAll path i parts)⟩)
  | path, i, [], s => by simp [startAll, recordedAll, pathsAll, visit]
  | path, i, c :: rest, s => by
    simp only [recordedAll, startAll, start_recorded mark (path ++ [i]) c,
      startAll_recorded mark path (i + 1) rest, pathsAll, visit_append, List.append_assoc]

end

mutual

/-- Evaluating a recorded condition is evaluating it, and notes a turn at every place. -/
theorem isMet_recorded [Scalar T] [Host H T] (mark : List Nat → SessionCall → E) :
    ∀ (path : List Nat) (c : Condition T H) (s : Journaled E H),
    (c.recorded mark path).isMet s =
      ((c.isMet s.host).1, (c.isMet s.host).2.1.recorded mark path,
        ⟨(c.isMet s.host).2.2, s.journal ++ visit mark .turn (c.paths path)⟩)
  | path, .all parts, s => by
    simp only [recorded, isMet_noting, isMet, allMet_recorded mark path 0 parts, paths]
    simp [visit, Journaled.note]
  | path, .wait _, s | path, .predicate _ _, s | path, .dependency _, s | path, .always, s
  | path, .custom _, s => by
    simp only [recorded, isMet_noting]
    rfl

theorem allMet_recorded [Scalar T] [Host H T] (mark : List Nat → SessionCall → E) :
    ∀ (path : List Nat) (i : Nat) (parts : List (Condition T H)) (s : Journaled E H),
    allMet (recordedAll mark path i parts) s =
      ((allMet parts s.host).1, recordedAll mark path i (allMet parts s.host).2.1,
        ⟨(allMet parts s.host).2.2, s.journal ++ visit mark .turn (pathsAll path i parts)⟩)
  | path, i, [], s => by simp [allMet, recordedAll, pathsAll, visit]
  | path, i, c :: rest, s => by
    simp only [recordedAll, allMet, isMet_recorded mark (path ++ [i]) c,
      allMet_recorded mark path (i + 1) rest, pathsAll, visit_append, List.append_assoc]

end

mutual

/-- Ending a session of a recorded condition is ending it, and notes an end at every
place. -/
theorem finish_recorded (mark : List Nat → SessionCall → E) :
    ∀ (path : List Nat) (c : Condition T H) (s : Journaled E H),
    (c.recorded mark path).finish s =
      ((c.finish s.host).1.recorded mark path,
        ⟨(c.finish s.host).2, s.journal ++ visit mark .finish (c.paths path)⟩)
  | path, .all parts, s => by
    simp only [recorded, finish_noting, finish, finishAll_recorded mark path 0 parts, paths]
    simp [visit, Journaled.note]
  | path, .wait _, s | path, .predicate _ _, s | path, .dependency _, s | path, .always, s
  | path, .custom _, s => by
    simp only [recorded, finish_noting]
    rfl

theorem finishAll_recorded (mark : List Nat → SessionCall → E) :
    ∀ (path : List Nat) (i : Nat) (parts : List (Condition T H)) (s : Journaled E H),
    finishAll (recordedAll mark path i parts) s =
      (recordedAll mark path i (finishAll parts s.host).1,
        ⟨(finishAll parts s.host).2, s.journal ++ visit mark .finish (pathsAll path i parts)⟩)
  | path, i, [], s => by simp [finishAll, recordedAll, pathsAll, visit]
  | path, i, c :: rest, s => by
    simp only [recordedAll, finishAll, finish_recorded mark (path ++ [i]) c,
      finishAll_recorded mark path (i + 1) rest, pathsAll, visit_append, List.append_assoc]

end

/-! ## A session changes no place -/

mutual

theorem paths_start [Host H T] : ∀ (path : List Nat) (c : Condition T H) (h : H),
    (c.start h).1.paths path = c.paths path
  | path, .all parts, h => by simp only [start, paths, pathsAll_startAll path 0 parts h]
  | path, .wait _, h | path, .predicate _ _, h | path, .dependency _, h | path, .always, h
  | path, .custom _, h => rfl

theorem pathsAll_startAll [Host H T] : ∀ (path : List Nat) (i : Nat)
    (parts : List (Condition T H)) (h : H),
    pathsAll path i (startAll parts h).1 = pathsAll path i parts
  | path, i, [], h => rfl
  | path, i, c :: rest, h => by
    simp only [startAll, pathsAll, paths_start (path ++ [i]) c h,
      pathsAll_startAll path (i + 1) rest]

end

mutual

theorem paths_isMet [Scalar T] [Host H T] : ∀ (path : List Nat) (c : Condition T H) (h : H),
    (c.isMet h).2.1.paths path = c.paths path
  | path, .all parts, h => by simp only [isMet, paths, pathsAll_allMet path 0 parts h]
  | path, .wait _, h | path, .predicate _ _, h | path, .dependency _, h | path, .always, h
  | path, .custom _, h => rfl

theorem pathsAll_allMet [Scalar T] [Host H T] : ∀ (path : List Nat) (i : Nat)
    (parts : List (Condition T H)) (h : H),
    pathsAll path i (allMet parts h).2.1 = pathsAll path i parts
  | path, i, [], h => rfl
  | path, i, c :: rest, h => by
    simp only [allMet, pathsAll, paths_isMet (path ++ [i]) c h,
      pathsAll_allMet path (i + 1) rest]

end

mutual

theorem paths_finish : ∀ (path : List Nat) (c : Condition T H) (h : H),
    (c.finish h).1.paths path = c.paths path
  | path, .all parts, h => by simp only [finish, paths, pathsAll_finishAll path 0 parts h]
  | path, .wait _, h | path, .predicate _ _, h | path, .dependency _, h | path, .always, h
  | path, .custom _, h => rfl

theorem pathsAll_finishAll : ∀ (path : List Nat) (i : Nat)
    (parts : List (Condition T H)) (h : H),
    pathsAll path i (finishAll parts h).1 = pathsAll path i parts
  | path, i, [], h => rfl
  | path, i, c :: rest, h => by
    simp only [finishAll, pathsAll, paths_finish (path ++ [i]) c h,
      pathsAll_finishAll path (i + 1) rest]

end

end Condition

end Cueflow
