namespace SelfDescribing

/-!
# Tables

A finite map that remembers the order in which its keys were first inserted.

* `Table.insert` replaces the entry of a key in place, or appends a new one.
* `find?_insert`, `find?_erase` — what a look-up sees after an update.
-/

/-- A finite map from `κ` to `α`, in the order in which keys were first inserted. -/
structure Table (κ α : Type) where
  entries : List (κ × α)

namespace Table

variable {κ α : Type}

/-- The table without entries. -/
def empty : Table κ α := ⟨[]⟩

instance : Inhabited (Table κ α) := ⟨empty⟩

/-- The keys in order. -/
def keys (t : Table κ α) : List κ := t.entries.map (·.1)

/-- The stored values in order. -/
def values (t : Table κ α) : List α := t.entries.map (·.2)

/-- How many entries there are. -/
def size (t : Table κ α) : Nat := t.entries.length

variable [DecidableEq κ]

/-- The value stored under a key. -/
def find? (t : Table κ α) (k : κ) : Option α :=
  (t.entries.find? (fun e => decide (e.1 = k))).map (·.2)

/-- Whether a key has an entry. -/
def contains (t : Table κ α) (k : κ) : Bool := (t.find? k).isSome

/-- The entries after storing `a` under `k`. -/
def insertEntry (k : κ) (a : α) : List (κ × α) → List (κ × α)
  | [] => [(k, a)]
  | e :: rest => if e.1 = k then (k, a) :: rest else e :: insertEntry k a rest

/-- Store `a` under `k`, in place of what was there. -/
def insert (t : Table κ α) (k : κ) (a : α) : Table κ α := ⟨insertEntry k a t.entries⟩

/-- Keep the entries whose key passes a test. -/
def filterKeys (t : Table κ α) (keep : κ → Bool) : Table κ α :=
  ⟨t.entries.filter (fun e => keep e.1)⟩

/-- Remove the entry of a key. -/
def erase (t : Table κ α) (k : κ) : Table κ α := t.filterKeys (fun k' => decide (k' ≠ k))

/-! ### Look-ups after updates -/

/-- Nothing is found in the empty table. -/
@[simp] theorem find?_empty (k : κ) : (empty : Table κ α).find? k = none := rfl

/-- A value that is found is one of those stored. -/
theorem mem_values_of_find? {t : Table κ α} {k : κ} {a : α} (h : t.find? k = some a) :
    a ∈ t.values := by
  obtain ⟨e, he, rfl⟩ := Option.map_eq_some_iff.1 h
  exact List.mem_map.2 ⟨e, List.mem_of_find?_eq_some he, rfl⟩

/-- An entry replaces the one of its key and no other. -/
theorem find?_insert (t : Table κ α) (k k' : κ) (a : α) :
    (t.insert k a).find? k' = if k = k' then some a else t.find? k' := by
  obtain ⟨entries⟩ := t
  simp only [insert, find?]
  induction entries with
  | nil => by_cases h : k = k' <;> simp [insertEntry, h]
  | cons e rest ih =>
    by_cases hk : e.1 = k
    · by_cases h : k = k'
      · simp [insertEntry, hk, h]
      · have : ¬ e.1 = k' := fun h' => h (hk.symm.trans h')
        simp [insertEntry, hk, h]
    · by_cases h' : e.1 = k'
      · have hne : ¬ k = k' := fun h => hk (h'.trans h.symm)
        have hne' : ¬ k' = k := fun h => hne h.symm
        simp [insertEntry, h', hne, hne']
      · simpa [insertEntry, hk, h'] using ih

/-- Keys that are not kept are not found. -/
theorem find?_filterKeys (t : Table κ α) (keep : κ → Bool) (k : κ) :
    (t.filterKeys keep).find? k = if keep k then t.find? k else none := by
  obtain ⟨entries⟩ := t
  simp only [filterKeys, find?]
  induction entries with
  | nil => simp
  | cons e rest ih =>
    by_cases he : keep e.1 <;> by_cases hk : e.1 = k
    · subst hk; simp [he]
    · simpa [he, hk] using ih
    · subst hk; simpa [he] using ih
    · simpa [he, hk] using ih

/-- Only the entry of the given key is gone. -/
theorem find?_erase (t : Table κ α) (k k' : κ) :
    (t.erase k).find? k' = if k = k' then none else t.find? k' := by
  rw [erase, find?_filterKeys]
  by_cases h : k = k'
  · simp [h]
  · simp [h, Ne.symm h]

end Table

end SelfDescribing
