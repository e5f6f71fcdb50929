/-!
# Ordered tables

A table from keys to values that remembers in which order its keys came. Inserting at a known key
replaces the value and keeps the place; a new key goes to the end.

- `Table.insert`, `Table.get?` - writing and reading.
- `Table.get?_insert` - what is written is what is read.
- `Table.mem_of_get?`, `Table.contains_iff` - what is read is among the entries.
-/

namespace DocComment

/-- A table whose keys keep the order in which they first came. -/
structure Table (κ α : Type) where
  /-- Keys and values in order. -/
  entries : List (κ × α)
  deriving Repr

namespace Table

variable {κ α : Type} [DecidableEq κ]

/-- The table without entries. -/
def empty : Table κ α := ⟨[]⟩

/-- The value that the first entry of `key` holds. -/
def find? (key : κ) : List (κ × α) → Option α
  | [] => none
  | (k, v) :: more => if k == key then some v else find? key more

/-- Entries with `value` written at `key`. -/
def put (key : κ) (value : α) : List (κ × α) → List (κ × α)
  | [] => [(key, value)]
  | (k, v) :: more => if k == key then (k, value) :: more else (k, v) :: put key value more

/-- The value at `key`, by `find?`. -/
def get? (t : Table κ α) (key : κ) : Option α :=
  find? key t.entries

/-- The table with `value` at `key`, by `put`. -/
def insert (t : Table κ α) (key : κ) (value : α) : Table κ α :=
  ⟨put key value t.entries⟩

/-- Whether `key` has a value. -/
def contains (t : Table κ α) (key : κ) : Bool :=
  (t.get? key).isSome

/-- The keys in order. -/
def keys (t : Table κ α) : List κ :=
  t.entries.map (·.1)

/-- The number of entries. -/
def size (t : Table κ α) : Nat :=
  t.entries.length

/-- The table of a list of entries, inserted one after another (`insert`). -/
def ofList (entries : List (κ × α)) : Table κ α :=
  entries.foldl (fun t e => t.insert e.1 e.2) empty

/-- The table with every value changed. -/
def map (g : α → α) (t : Table κ α) : Table κ α :=
  ⟨t.entries.map fun e => (e.1, g e.2)⟩

@[simp] theorem get?_empty (key : κ) : (empty : Table κ α).get? key = none := rfl

theorem find?_put (key other : κ) (value : α) (entries : List (κ × α)) :
    find? other (put key value entries) =
      if key = other then some value else find? other entries := by
  induction entries with
  | nil => simp [put, find?]
  | cons e more ih =>
    obtain ⟨k, v⟩ := e
    -- The entry is the one that is written, the one that is read, or neither.
    by_cases hk : k = key
    · subst hk
      by_cases ho : k = other <;> simp [put, find?, ho]
    · by_cases ho : k = other
      · subst ho
        have hko : ¬ key = k := fun h => hk h.symm
        simp [put, find?, hk, hko]
      · simp [put, find?, hk, ho, ih]

/-- **What `insert` writes is what `get?` reads**, and nothing else changes. -/
theorem get?_insert (t : Table κ α) (key other : κ) (value : α) :
    (t.insert key value).get? other = if key = other then some value else t.get? other :=
  find?_put key other value t.entries

/-! ### Entries -/

theorem mem_of_get? {t : Table κ α} {key : κ} {v : α} (h : t.get? key = some v) :
    (key, v) ∈ t.entries := by
  obtain ⟨entries⟩ := t
  change find? key entries = some v at h
  induction entries with
  | nil => cases h
  | cons e entries ih =>
    obtain ⟨k, w⟩ := e
    rw [find?] at h
    split at h
    · next hk =>
      obtain rfl : k = key := by simpa using hk
      cases h
      exact List.mem_cons_self
    · exact List.mem_cons_of_mem _ (ih h)

theorem mem_of_mem_put {key : κ} {value : α} {entries : List (κ × α)} {e : κ × α}
    (h : e ∈ put key value entries) : e = (key, value) ∨ e ∈ entries := by
  induction entries with
  | nil => exact .inl (List.mem_singleton.mp h)
  | cons first more ih =>
    obtain ⟨k, v⟩ := first
    rw [put] at h
    split at h
    · next hk =>
      -- The value was replaced, its key and all other entries are as before.
      obtain rfl : k = key := by simpa using hk
      exact (List.mem_cons.mp h).imp_right (List.mem_cons_of_mem _)
    · rcases List.mem_cons.mp h with rfl | hmore
      · exact .inr List.mem_cons_self
      · exact (ih hmore).imp_right (List.mem_cons_of_mem _)

/-- By `contains` a key has a value exactly if it is among the `keys`. -/
theorem contains_iff {t : Table κ α} {key : κ} : t.contains key = true ↔ key ∈ t.keys := by
  obtain ⟨entries⟩ := t
  change (find? key entries).isSome = true ↔ key ∈ entries.map (·.1)
  induction entries with
  | nil => simp [find?]
  | cons e more ih =>
    obtain ⟨k, v⟩ := e
    by_cases hk : k = key
    · simp [find?, hk]
    · have hk' : ¬ key = k := fun h => hk h.symm
      simp [find?, hk, hk', ih]

theorem mem_keys_insert (t : Table κ α) (key other : κ) (value : α) :
    other ∈ (t.insert key value).keys ↔ key = other ∨ other ∈ t.keys := by
  rw [← contains_iff, ← contains_iff, contains, contains, get?_insert]
  split <;> simp_all

/-! ### Changing every value -/

theorem find?_map (g : α → α) (key : κ) (entries : List (κ × α)) :
    find? key (entries.map fun e => (e.1, g e.2)) = (find? key entries).map g := by
  induction entries with
  | nil => rfl
  | cons e more ih =>
    obtain ⟨k, v⟩ := e
    by_cases hk : k = key <;> simp [find?, hk, ih]

/-- By `map` what is read changes as every value does. -/
@[simp] theorem get?_map (g : α → α) (t : Table κ α) (key : κ) :
    (t.map g).get? key = (t.get? key).map g :=
  find?_map g key t.entries

end Table

end DocComment
