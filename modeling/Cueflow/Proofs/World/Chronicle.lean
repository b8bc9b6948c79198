import Mathlib.Data.List.DropRight
import Cueflow.World.Board
/-!
# Boards and their history

What a board holds is told by the changes that it went through, without playing them back: under
a name there is what its writes since its last removal come to, and names stand in the order in
which these writes began.

> `Board.ordered_by_history`: a board is the list that its history tells (`chronicle`), in this
> order; everything that can be read off a board is read off this list; and every change does to the
> list what it should.

`life` gives the writes to a name since it was last removed, with their places in the history. A
change to another name leaves it alone, a removal empties it, a write goes to its end
(`life_concat_of_ne`, `life_concat_remove`, `life_concat_write`). So a change to one name moves no
other, and each kind of change has one equation for the list (`chronicle_remove`,
`chronicle_first`, `chronicle_again`). The entries of a board satisfy the same equations as long as
no name stands twice (`insertEntry_of_mem`), which the order by beginnings gives.
-/

namespace Cueflow

/-! ## Writing into a list without repetitions -/

namespace Roll

variable {V : Type} {key : String} {es : List (String × V)}

/-- A new name goes to the end. -/
theorem insertEntry_of_not_mem (h : ∀ e ∈ es, e.1 ≠ key) (value : V) :
    insertEntry key value es = es ++ [(key, value)] := by
  induction es with
  | nil => rfl
  | cons e rest ih =>
    obtain ⟨hne, hrest⟩ := List.forall_mem_cons.1 h
    rw [insertEntry, if_neg (by simpa using hne.symm), ih hrest]
    rfl

/-- A name that is present keeps its place. -/
theorem insertEntry_of_mem (hdistinct : es.Pairwise fun e e' => e.1 ≠ e'.1)
    (h : ∃ e ∈ es, e.1 = key) (value : V) :
    insertEntry key value es = es.map fun e => if e.1 = key then (key, value) else e := by
  induction es with
  | nil =>
    obtain ⟨e, he, -⟩ := h
    exact nomatch he
  | cons e rest ih =>
    obtain ⟨hapart, hrest⟩ := List.pairwise_cons.1 hdistinct
    rw [insertEntry, List.map_cons]
    by_cases hkey : e.1 = key
    · -- the name stands here, and so nowhere else
      have hothers : rest.map (fun e => if e.1 = key then (key, value) else e) = rest := by
        conv => rhs; rw [← List.map_id rest]
        exact List.map_congr_left fun e' he' => if_neg fun heq =>
          hapart e' he' (hkey.trans heq.symm)
      rw [if_pos (by simp [hkey]), if_pos hkey, hothers]
    · obtain ⟨e', he', hkey'⟩ := h
      have hmem : e' ∈ rest := by
        rcases List.mem_cons.1 he' with rfl | hmem
        · exact absurd hkey' hkey
        · exact hmem
      rw [if_neg (by simpa using Ne.symm hkey), if_neg hkey, ih hrest ⟨e', hmem, hkey'⟩]

/-- What is looked up is what the list has. -/
theorem lookup_eq_some_iff (hdistinct : es.Pairwise fun e e' => e.1 ≠ e'.1) {value : V} :
    es.lookup key = some value ↔ (key, value) ∈ es := by
  induction es with
  | nil => simp
  | cons e rest ih =>
    obtain ⟨hapart, hrest⟩ := List.pairwise_cons.1 hdistinct
    rw [lookup_entry, List.mem_cons]
    by_cases hkey : key = e.1
    · have hout : (key, value) ∉ rest := fun hmem => hapart _ hmem hkey.symm
      rw [if_pos (by simp [hkey]), Option.some.injEq]
      constructor
      · rintro rfl
        exact Or.inl (Prod.ext hkey rfl)
      · rintro (heq | hmem)
        · exact (congrArg Prod.snd heq).symm
        · exact absurd hmem hout
    · rw [if_neg (by simpa using hkey), ih hrest]
      constructor
      · exact Or.inr
      · rintro (heq | hmem)
        · exact absurd (congrArg Prod.fst heq) hkey
        · exact hmem

end Roll

/-! ## Changes -/

/-- What is done to a board. -/
inductive Change where
  | set (key : String) (value : Float32)
  | add (key : String) (amount : Float32)
  | remove (key : String)

namespace Change

/-- The name that is changed. -/
def key : Change → String
  | .set key _ | .add key _ | .remove key => key

/-- Whether there is a value under the name afterwards. -/
def isWrite : Change → Bool
  | .set _ _ | .add _ _ => true
  | .remove _ => false

/-- What a write makes of a value. -/
def applied (value : Float32) : Change → Float32
  | .set _ new => new
  | .add _ amount => value + amount
  | .remove _ => value

end Change

namespace Board

def change (b : Board) : Change → Board
  | .set key value => b.insert key value
  | .add key amount => (b.add key amount).2
  | .remove key => (b.remove key).2

/-- The board that was empty and went through these changes. -/
def after (history : List Change) : Board := history.foldl change .empty

/-! ## What a history tells -/

/-- The writes to a name since it was last removed, with their places in the history. -/
def life (key : String) (history : List Change) : List (Change × Nat) :=
  (history.zipIdx.filter fun c => c.1.key == key).rtakeWhile fun c => c.1.isWrite

/-- Where the first of these writes is. -/
def beginning? (key : String) (history : List Change) : Option Nat :=
  (life key history).head?.map Prod.snd

/-- What these writes come to. A name counts from 0. -/
def worth (key : String) (history : List Change) : Float32 :=
  (life key history).foldl (fun value c => c.1.applied value) 0

/-- The names with what they are worth, each where the writes to it began. -/
def chronicle (history : List Change) : List (String × Float32) :=
  history.zipIdx.filterMap fun c =>
    if beginning? c.1.key history = some c.2 then some (c.1.key, worth c.1.key history) else none

section Life

variable {key : String} {history : List Change} {c : Change}

theorem life_concat_of_ne (hne : c.key ≠ key) : life key (history ++ [c]) = life key history := by
  have hout : (c.key == key) = false := by simpa using hne
  simp [life, List.zipIdx_append, List.filter_append, hout]

theorem life_concat_remove (key : String) (history : List Change) :
    life key (history ++ [.remove key]) = [] := by
  have hlast : (history ++ [Change.remove key]).zipIdx.filter (fun c => c.1.key == key) =
      history.zipIdx.filter (fun c => c.1.key == key) ++ [(.remove key, history.length)] := by
    simp [List.zipIdx_append, List.filter_append, Change.key]
  rw [life, hlast]
  exact List.rtakeWhile_concat_neg _ _ _ Bool.false_ne_true

theorem life_concat_write (hwrite : c.isWrite = true) :
    life c.key (history ++ [c]) = life c.key history ++ [(c, history.length)] := by
  have hlast : (history ++ [c]).zipIdx.filter (fun x => x.1.key == c.key) =
      history.zipIdx.filter (fun x => x.1.key == c.key) ++ [(c, history.length)] := by
    simp [List.zipIdx_append, List.filter_append]
  rw [life, hlast]
  exact List.rtakeWhile_concat_pos _ _ _ hwrite

/-- Every write has its place in the history, and is to the name. -/
theorem of_mem_life {x : Change × Nat} (hx : x ∈ life key history) :
    x ∈ history.zipIdx ∧ x.1.key = key := by
  have hmem : x ∈ history.zipIdx.filter fun c => c.1.key == key :=
    (List.rtakeWhile_suffix _ _).subset hx
  obtain ⟨hmem, hkey⟩ := List.mem_filter.1 hmem
  exact ⟨hmem, by simpa using hkey⟩

theorem beginning?_eq_none_iff : beginning? key history = none ↔ life key history = [] := by
  rw [beginning?, Option.map_eq_none_iff, List.head?_eq_none_iff]

/-- Where the writes to a name begin there is a change to this name. -/
theorem of_beginning? {n : Nat} (h : beginning? key history = some n) :
    ∃ c, (c, n) ∈ history.zipIdx ∧ c.key = key := by
  obtain ⟨⟨c, m⟩, hhead, rfl⟩ := Option.map_eq_some_iff.1 h
  exact ⟨c, of_mem_life (List.mem_of_mem_head? hhead)⟩

theorem beginning?_lt {n : Nat} (h : beginning? key history = some n) : n < history.length := by
  obtain ⟨c, hmem, -⟩ := of_beginning? h
  exact (List.mem_zipIdx' hmem).1

end Life

/-! ## How a change alters it -/

section Chronicle

variable {history : List Change} {c : Change}

theorem mem_chronicle {key : String} {value : Float32} :
    (key, value) ∈ chronicle history ↔ life key history ≠ [] ∧ value = worth key history := by
  rw [chronicle, List.mem_filterMap]
  constructor
  · rintro ⟨⟨c, n⟩, hmem, hsome⟩
    obtain ⟨hbegin, hpair⟩ := Option.ite_none_right_eq_some.1 hsome
    obtain ⟨rfl, rfl⟩ := Prod.mk.inj (Option.some.inj hpair)
    exact ⟨fun hnil => by simp [beginning?_eq_none_iff.2 hnil] at hbegin, rfl⟩
  · rintro ⟨hlife, rfl⟩
    obtain ⟨n, hn⟩ := Option.ne_none_iff_exists'.1 (mt beginning?_eq_none_iff.1 hlife)
    obtain ⟨c, hmem, rfl⟩ := of_beginning? hn
    exact ⟨(c, n), hmem, by simp [hn]⟩

/-- The entries stand in the order in which the writes to their names began. -/
theorem chronicle_sorted (history : List Change) : (chronicle history).Pairwise fun e e' =>
    ∃ n m, beginning? e.1 history = some n ∧ beginning? e'.1 history = some m ∧ n < m := by
  have hplaces : history.zipIdx.Pairwise fun x y => x.2 < y.2 := by
    rw [← List.pairwise_map (f := Prod.snd), List.zipIdx_map_snd]
    exact List.pairwise_lt_range'
  refine hplaces.filterMap _ fun x y hlt e he e' he' => ?_
  obtain ⟨hx, he⟩ := Option.ite_none_right_eq_some.1 he
  obtain ⟨hy, he'⟩ := Option.ite_none_right_eq_some.1 he'
  rw [← Option.some.inj he, ← Option.some.inj he']
  exact ⟨x.2, y.2, hx, hy, hlt⟩

/-- No name stands twice. -/
theorem chronicle_distinct (history : List Change) :
    (chronicle history).Pairwise fun e e' => e.1 ≠ e'.1 := by
  refine (chronicle_sorted history).imp ?_
  rintro e e' ⟨n, m, hn, hm, hlt⟩ heq
  rw [heq, hm] at hn
  exact absurd (Option.some.inj hn) (Nat.ne_of_gt hlt)

theorem chronicle_concat (history : List Change) (c : Change) :
    chronicle (history ++ [c]) =
      (history.zipIdx.filterMap fun x =>
        if beginning? x.1.key (history ++ [c]) = some x.2 then
          some (x.1.key, worth x.1.key (history ++ [c])) else none) ++
      if beginning? c.key (history ++ [c]) = some history.length then
        [(c.key, worth c.key (history ++ [c]))] else [] := by
  rw [chronicle, List.zipIdx_append, List.filterMap_append]
  congr 1
  simp only [List.zipIdx_cons, List.zipIdx_nil, List.filterMap_cons, List.filterMap_nil,
    Nat.zero_add]
  split_ifs <;> rfl

theorem unchanged_of_ne (history : List Change) {key : String} (hne : c.key ≠ key) :
    beginning? key (history ++ [c]) = beginning? key history ∧
      worth key (history ++ [c]) = worth key history := by
  rw [beginning?, worth, life_concat_of_ne hne]
  exact ⟨rfl, rfl⟩

/-- A removal takes the name out. -/
theorem chronicle_remove (history : List Change) (key : String) :
    chronicle (history ++ [.remove key]) = (chronicle history).filter fun e => key != e.1 := by
  have hgone : beginning? key (history ++ [.remove key]) = none :=
    beginning?_eq_none_iff.2 (life_concat_remove key history)
  rw [chronicle_concat, show (Change.remove key).key = key from rfl, hgone, if_neg nofun,
    List.append_nil, chronicle, List.filter_filterMap]
  refine List.filterMap_congr fun x _ => ?_
  by_cases hkey : key = x.1.key
  · rw [← hkey, hgone, if_neg nofun]
    split_ifs
    · simp [Option.filter]
    · rfl
  · obtain ⟨hbegin, hworth⟩ := unchanged_of_ne (c := .remove key) history hkey
    rw [hbegin, hworth]
    split_ifs
    · simp [Option.filter, hkey]
    · rfl

/-- The first write to a name puts it at the end. -/
theorem chronicle_first (hwrite : c.isWrite = true) (hnew : life c.key history = []) :
    chronicle (history ++ [c]) = chronicle history ++ [(c.key, c.applied 0)] := by
  have hlife : life c.key (history ++ [c]) = [(c, history.length)] := by
    rw [life_concat_write hwrite, hnew]
    rfl
  have hbegin : beginning? c.key (history ++ [c]) = some history.length := by
    rw [beginning?, hlife]
    rfl
  have hworth : worth c.key (history ++ [c]) = c.applied 0 := by
    rw [worth, hlife]
    rfl
  rw [chronicle_concat, hbegin, if_pos rfl, hworth, chronicle]
  congr 1
  refine List.filterMap_congr fun x hx => ?_
  by_cases hkey : c.key = x.1.key
  · -- an earlier write to the name was undone by a removal
    have hlt : x.2 < history.length := (List.mem_zipIdx' hx).1
    have hlater : some history.length ≠ some x.2 := fun heq =>
      Nat.ne_of_gt hlt (Option.some.inj heq)
    rw [← hkey, hbegin, beginning?_eq_none_iff.2 hnew, if_neg hlater, if_neg nofun]
  · obtain ⟨hbegin, hworth⟩ := unchanged_of_ne history hkey
    rw [hbegin, hworth]

/-- Every further write changes what stands there. -/
theorem chronicle_again (hwrite : c.isWrite = true) (hold : life c.key history ≠ []) :
    chronicle (history ++ [c]) = (chronicle history).map fun e =>
      if e.1 = c.key then (c.key, c.applied (worth c.key history)) else e := by
  have hbegin : beginning? c.key (history ++ [c]) = beginning? c.key history := by
    rw [beginning?, life_concat_write hwrite, List.head?_append_of_ne_nil _ hold]
    rfl
  have hworth : worth c.key (history ++ [c]) = c.applied (worth c.key history) := by
    rw [worth, life_concat_write hwrite, List.foldl_append]
    rfl
  have hearlier : beginning? c.key (history ++ [c]) ≠ some history.length := fun heq =>
    Nat.lt_irrefl _ (beginning?_lt (hbegin.symm.trans heq))
  rw [chronicle_concat, if_neg hearlier, List.append_nil, chronicle, List.map_filterMap]
  refine List.filterMap_congr fun x _ => ?_
  by_cases hkey : c.key = x.1.key
  · rw [← hkey, hbegin, hworth]
    split_ifs <;> simp
  · obtain ⟨hbegin, hworth⟩ := unchanged_of_ne history hkey
    rw [hbegin, hworth]
    split_ifs
    · simp [Ne.symm hkey]
    · rfl

end Chronicle

/-! ## Boards and what their history tells -/

theorem after_concat (history : List Change) (c : Change) :
    after (history ++ [c]) = (after history).change c := by
  rw [after, List.foldl_append]
  rfl

/-- A write puts under a name what it makes of the value there. -/
theorem change_of_isWrite {c : Change} (hwrite : c.isWrite = true) (b : Board) :
    b.change c = b.insert c.key (c.applied (b.get c.key)) := by
  cases c with
  | set key value => rfl
  | add key amount => rfl
  | remove key => exact nomatch hwrite

section After

variable {history : List Change} {b : Board} (h : b.entries = chronicle history)

include h

theorem get?_of_entries {key : String} {value : Float32} :
    b.get? key = some value ↔ (key, value) ∈ chronicle history := by
  rw [Roll.get?, h]
  exact Roll.lookup_eq_some_iff (chronicle_distinct history)

/-- What is read under a name is what its writes come to. -/
theorem get_of_entries (key : String) : b.get key = worth key history := by
  rw [Board.get]
  by_cases hlife : life key history = []
  · have hnone : b.get? key = none := Option.eq_none_iff_forall_ne_some.2 fun value hsome =>
      (mem_chronicle.1 ((get?_of_entries h).1 hsome)).1 hlife
    rw [hnone, worth, hlife]
    rfl
  · rw [(get?_of_entries h).2 (mem_chronicle.2 ⟨hlife, rfl⟩)]
    rfl

/-- Every change does to the board what it does to the list. -/
theorem entries_change (c : Change) : (b.change c).entries = chronicle (history ++ [c]) := by
  cases hwrite : c.isWrite with
  | false =>
    cases c with
    | set key value => exact nomatch hwrite
    | add key amount => exact nomatch hwrite
    | remove key =>
      rw [chronicle_remove, ← h]
      rfl
  | true =>
    rw [change_of_isWrite hwrite, get_of_entries h]
    show Roll.insertEntry c.key (c.applied (worth c.key history)) b.entries = _
    rw [h]
    by_cases hlife : life c.key history = []
    · have hout : ∀ e ∈ chronicle history, e.1 ≠ c.key := by
        rintro ⟨key, value⟩ he rfl
        exact (mem_chronicle.1 he).1 hlife
      rw [chronicle_first hwrite hlife, Roll.insertEntry_of_not_mem hout, worth, hlife]
      rfl
    · rw [chronicle_again hwrite hlife]
      exact Roll.insertEntry_of_mem (chronicle_distinct history)
        ⟨_, mem_chronicle.2 ⟨hlife, rfl⟩, rfl⟩ _

end After

/-- A board holds what its history tells. -/
theorem entries_after (history : List Change) : (after history).entries = chronicle history := by
  induction history using List.reverseRecOn with
  | nil => rfl
  | append_singleton history c ih =>
    rw [after_concat]
    exact entries_change ih c

/-- A change leaves what is under the other names alone. -/
theorem get?_change_of_ne {c : Change} {other : String} (hne : other ≠ c.key) (b : Board) :
    (b.change c).get? other = b.get? other := by
  cases c with
  | set key value => exact Roll.get?_insert_of_ne hne b value
  | add key amount => exact Roll.get?_insert_of_ne hne b _
  | remove key => exact Roll.get?_erase_of_ne hne b

/-- After any changes a board is the list that they tell: one entry for each name that was written
since its last removal, with what the writes since then come to, in the order in which these began.
All that is read off the board is read off this list. A write to a name in the list changes the
entry in its place, one to a new name goes to the end, where adding counts from 0; a removal gives
the value that was there and leaves the other entries in their order, so that a name that is
written again goes to the end. No change to one name changes what is under another. -/
theorem ordered_by_history (history : List Change) :
    let b := after history
    let held := chronicle history
    let names := held.map Prod.fst
    b.entries = held ∧
    held.Pairwise (fun e e' => e.1 ≠ e'.1 ∧ ∃ n m, beginning? e.1 history = some n ∧
      beginning? e'.1 history = some m ∧ n < m) ∧
    (∀ key value, (key, value) ∈ held ↔ life key history ≠ [] ∧ value = worth key history) ∧
    (∀ key value, b.get? key = some value ↔ (key, value) ∈ held) ∧
    (∀ key, b.get key = (b.get? key).getD 0) ∧
    (∀ key, b.contains key = true ↔ key ∈ names) ∧
    b.size = held.length ∧
    (∀ key value, key ∈ names → (b.insert key value).entries =
      held.map fun e => if e.1 = key then (key, value) else e) ∧
    (∀ key value, key ∉ names → (b.insert key value).entries = held ++ [(key, value)]) ∧
    (∀ key amount, b.add key amount = (b.get key + amount, b.insert key (b.get key + amount)) ∧
      (key ∉ names → (b.add key amount).2.entries = held ++ [(key, 0 + amount)])) ∧
    (∀ key, b.remove key = (b.get? key, b.erase key) ∧
      (b.erase key).entries = held.filter (fun e => key != e.1) ∧
      ∀ value, ((b.erase key).insert key value).entries =
        held.filter (fun e => key != e.1) ++ [(key, value)]) ∧
    (∀ c other, other ≠ c.key → (b.change c).get? other = b.get? other) := by
  intro b held names
  have hentries : b.entries = held := entries_after history
  have hmem : ∀ key, key ∈ names ↔ ∃ e ∈ held, e.1 = key := fun key => List.mem_map
  have hout : ∀ {key}, key ∉ names → ∀ e ∈ held, e.1 ≠ key := fun hkey e he heq =>
    hkey ((hmem _).2 ⟨e, he, heq⟩)
  have hnew : ∀ {key}, key ∉ names → ∀ value, (b.insert key value).entries =
      held ++ [(key, value)] := by
    intro key hkey value
    show Roll.insertEntry key value b.entries = _
    rw [hentries, Roll.insertEntry_of_not_mem (hout hkey)]
  refine ⟨hentries, ?_, fun key value => mem_chronicle, fun key value => get?_of_entries hentries,
    fun key => rfl, fun key => ?_, congrArg List.length hentries, fun key value hkey => ?_,
    fun key value hkey => hnew hkey value, fun key amount => ⟨rfl, fun hkey => ?_⟩,
    fun key => ⟨rfl, ?_, fun value => ?_⟩, fun c other hne => get?_change_of_ne hne b⟩
  · exact (chronicle_distinct history).and (chronicle_sorted history)
  · rw [hmem, Roll.contains, hentries, List.any_eq_true]
    exact exists_congr fun e => and_congr_right fun _ => beq_iff_eq.trans eq_comm
  · show Roll.insertEntry key value b.entries = _
    rw [hentries]
    exact Roll.insertEntry_of_mem (chronicle_distinct history) ((hmem key).1 hkey) value
  · -- a name that is not there is read as 0
    have hzero : b.get key = 0 := by
      rw [get_of_entries hentries, worth]
      by_cases hlife : life key history = []
      · rw [hlife]
        rfl
      · exact absurd ((hmem key).2 ⟨_, mem_chronicle.2 ⟨hlife, rfl⟩, rfl⟩) hkey
    show (b.insert key (b.get key + amount)).entries = _
    rw [hnew hkey, hzero]
  · show b.entries.filter _ = _
    rw [hentries]
  · have hgone : ∀ e ∈ (b.erase key).entries, e.1 ≠ key := by
      intro e he
      have hkept := (List.mem_filter.1 he).2
      exact fun heq => by simp [heq] at hkept
    show Roll.insertEntry key value (b.erase key).entries = _
    rw [Roll.insertEntry_of_not_mem hgone]
    show b.entries.filter _ ++ _ = _
    rw [hentries]

-- written again after a removal, the noise comes last and counts from 0
example : (after [.add "noise" 1.5, .set "hp" 3, .remove "noise", .add "noise" 1]).entries =
    [("hp", 3), ("noise", 1)] := by
  rfl

end Board

end Cueflow
