/-!
# Boards — named values in the order in which they came

A `Roll` keeps one value under each name and remembers the order in which the names
first came. Writing under a name that is present keeps its place; a new name goes to the
end; removing a name closes the gap. A `Board` is a roll of numbers, read as 0 where
nothing was written.
-/

namespace Cueflow

/-- Values by name, in the order in which the names came. -/
structure Roll (V : Type) where
  /-- The names with their values. -/
  entries : List (String × V)
deriving DecidableEq

namespace Roll

variable {V : Type}

/-- No names at all. -/
def empty : Roll V := ⟨[]⟩

/-- The value under a name. -/
def get? (r : Roll V) (key : String) : Option V := r.entries.lookup key

/-- Whether there is a value under a name. -/
def contains (r : Roll V) (key : String) : Bool := r.entries.any fun e => key == e.1

/-- How many names there are. -/
def size (r : Roll V) : Nat := r.entries.length

/-- The entries with `value` under `key`: in its place, or at the end. -/
def insertEntry (key : String) (value : V) : List (String × V) → List (String × V)
  | [] => [(key, value)]
  | e :: rest => if key == e.1 then (key, value) :: rest else e :: insertEntry key value rest

/-- Writes a value under a name. -/
def insert (r : Roll V) (key : String) (value : V) : Roll V :=
  ⟨insertEntry key value r.entries⟩

/-- Removes a name; the others keep their order. -/
def erase (r : Roll V) (key : String) : Roll V := ⟨r.entries.filter fun e => key != e.1⟩

/-! ## Reading what was written -/

/-- The first entry is the one looked for, or the rest is searched. -/
theorem lookup_entry (key : String) (e : String × V) (es : List (String × V)) :
    (e :: es).lookup key = if key == e.1 then some e.2 else es.lookup key := by
  obtain ⟨k, v⟩ := e
  rw [List.lookup_cons]
  cases key == k <;> rfl

/-- Written entries have the value where it is looked for. -/
theorem lookup_insertEntry_self (key : String) (value : V) (es : List (String × V)) :
    (insertEntry key value es).lookup key = some value := by
  induction es with
  | nil => simp [insertEntry]
  | cons e rest ih =>
    simp only [insertEntry]
    split
    · simp
    · next hne => simp [lookup_entry, hne, ih]

/-- Written entries have the other values as they were. -/
theorem lookup_insertEntry_of_ne {key other : String} (hne : other ≠ key) (value : V)
    (es : List (String × V)) : (insertEntry key value es).lookup other = es.lookup other := by
  induction es with
  | nil =>
    have : (other == key) = false := by simpa using hne
    simp [insertEntry, lookup_entry, this]
  | cons e rest ih =>
    simp only [insertEntry]
    split
    · next he =>
      have hk : key = e.1 := by simpa using he
      have h1 : (other == key) = false := by simpa using hne
      simp [lookup_entry, h1, ← hk]
    · simp [lookup_entry, ih]

/-- A value that was written is read back. -/
@[simp] theorem get?_insert_self (r : Roll V) (key : String) (value : V) :
    (r.insert key value).get? key = some value := lookup_insertEntry_self key value r.entries

/-- Writing under one name leaves the others alone. -/
theorem get?_insert_of_ne {key other : String} (hne : other ≠ key) (r : Roll V) (value : V) :
    (r.insert key value).get? other = r.get? other :=
  lookup_insertEntry_of_ne hne value r.entries

/-- There is nothing under a name that was removed. -/
@[simp] theorem get?_erase_self (r : Roll V) (key : String) : (r.erase key).get? key = none := by
  simp [get?, erase, List.lookup_eq_none_iff]

/-- Removing one name leaves the others alone. -/
theorem get?_erase_of_ne {key other : String} (hne : other ≠ key) (r : Roll V) :
    (r.erase key).get? other = r.get? other := by
  show (r.entries.filter fun e => key != e.1).lookup other = r.entries.lookup other
  induction r.entries with
  | nil => rfl
  | cons e rest ih =>
    by_cases he : key = e.1
    · have h1 : (other == e.1) = false := by simpa [← he] using hne
      simpa [he, lookup_entry, h1] using ih
    · simp [lookup_entry, he, ih]

end Roll

/-- Named numbers that flows share. -/
abbrev Board := Roll Float32

namespace Board

/-- The value under a name, 0 if there is none. -/
def get (b : Board) (key : String) : Float32 := (b.get? key).getD 0

/-- Adds to the value under a name, which counts from 0, and gives the new value. -/
def add (b : Board) (key : String) (amount : Float32) : Float32 × Board :=
  let value := b.get key + amount
  (value, b.insert key value)

/-- Removes a name and gives the value that it had. -/
def remove (b : Board) (key : String) : Option Float32 × Board := (b.get? key, b.erase key)

end Board

end Cueflow
