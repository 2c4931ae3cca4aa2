import Mathlib.Data.List.Nodup
import SelfDescribing.Table

namespace SelfDescribing.Table

/-!
# Entries of tables

What updates do to the entries of a table, beyond what look-ups see of it.

* `insert_map`, `insert_insert`, `erase_insert` — updates that come to the same table.
* `mem_keys_iff` — the keys are those under which something is found.
* `nodup_keys_insert`, `nodup_keys_filterKeys` — each key has one entry.
-/

variable {κ α β : Type}

/-- Apply a function to the stored values. -/
def map (f : α → β) (t : Table κ α) : Table κ β := ⟨t.entries.map fun e => (e.1, f e.2)⟩

variable [DecidableEq κ]

/-- What is found in a mapped table is the image of what was found. -/
theorem find?_map (f : α → β) (t : Table κ α) (k : κ) : (t.map f).find? k = (t.find? k).map f := by
  simp only [find?, map, List.find?_map, Option.map_map]
  rfl

/-- Mapping a table and inserting into it can be done in either order. -/
theorem insert_map (f : α → β) (t : Table κ α) (k : κ) (a : α) :
    (t.map f).insert k (f a) = (t.insert k a).map f := by
  obtain ⟨entries⟩ := t
  simp only [insert, map, mk.injEq]
  induction entries with
  | nil => rfl
  | cons e rest ih =>
    by_cases hk : e.1 = k
    · simp only [List.map_cons, insertEntry, hk, if_true]
    · simp only [List.map_cons, insertEntry, hk, if_false, ih]

/-- What was stored under a key last is what counts. -/
theorem insert_insert (t : Table κ α) (k : κ) (a b : α) :
    (t.insert k a).insert k b = t.insert k b := by
  obtain ⟨entries⟩ := t
  simp only [insert, mk.injEq]
  induction entries with
  | nil => simp only [insertEntry, if_true]
  | cons e rest ih =>
    by_cases hk : e.1 = k
    · simp only [insertEntry, hk, if_true]
    · simp only [insertEntry, hk, if_false, ih]

/-- A new entry that is removed leaves no trace. -/
theorem erase_insert {t : Table κ α} {k : κ} (h : t.find? k = none) (a : α) :
    (t.insert k a).erase k = t := by
  obtain ⟨entries⟩ := t
  simp only [find?, Option.map_eq_none_iff, List.find?_eq_none, decide_eq_true_eq] at h
  simp only [insert, erase, filterKeys, mk.injEq]
  induction entries with
  | nil => simp [insertEntry]
  | cons e rest ih =>
    rw [List.forall_mem_cons] at h
    simp only [insertEntry, h.1, if_false, List.filter_cons, ne_eq, not_false_eq_true, decide_true,
      if_true, ih h.2]

/-! ### Keys -/

/-- The keys of a table are those under which something is found. -/
theorem mem_keys_iff {t : Table κ α} {k : κ} : k ∈ t.keys ↔ ∃ a, t.find? k = some a := by
  simp only [keys, find?, List.mem_map, Option.map_eq_some_iff]
  constructor
  · rintro ⟨e, he, rfl⟩
    have hsome : (t.entries.find? fun x => decide (x.1 = e.1)).isSome = true :=
      List.find?_isSome.2 ⟨e, he, decide_eq_true rfl⟩
    obtain ⟨found, hfound⟩ := Option.isSome_iff_exists.1 hsome
    exact ⟨found.2, found, hfound, rfl⟩
  · rintro ⟨a, e, he, -⟩
    have hkey := List.find?_some he
    exact ⟨e, List.mem_of_find?_eq_some he, of_decide_eq_true hkey⟩

/-- Inserting adds no other key than its own. -/
theorem mem_keys_insert {t : Table κ α} {k k' : κ} {a : α} (h : k' ∈ (t.insert k a).keys) :
    k' = k ∨ k' ∈ t.keys := by
  obtain ⟨b, hb⟩ := mem_keys_iff.1 h
  rw [find?_insert] at hb
  split at hb
  · rename_i he
    exact .inl he.symm
  · exact .inr (mem_keys_iff.2 ⟨b, hb⟩)

/-- Inserting keeps the keys distinct: an old key is not listed again. -/
theorem nodup_keys_insert {t : Table κ α} (h : t.keys.Nodup) (k : κ) (a : α) :
    (t.insert k a).keys.Nodup := by
  obtain ⟨entries⟩ := t
  induction entries with
  | nil => exact List.nodup_singleton k
  | cons e rest ih =>
    rw [keys, List.map_cons, List.nodup_cons] at h
    rw [keys, insert, insertEntry]
    by_cases hk : e.1 = k
    · rw [if_pos hk, List.map_cons, List.nodup_cons]
      exact hk ▸ h
    · rw [if_neg hk, List.map_cons, List.nodup_cons]
      -- The key of the first entry is not the new one, and not among the others.
      exact ⟨fun hmem => (mem_keys_insert (t := ⟨rest⟩) hmem).elim hk h.1, ih h.2⟩

omit [DecidableEq κ] in
/-- Leaving entries out keeps the keys distinct. -/
theorem nodup_keys_filterKeys {t : Table κ α} (h : t.keys.Nodup) (keep : κ → Bool) :
    (t.filterKeys keep).keys.Nodup :=
  h.sublist (List.filter_sublist.map _)

end SelfDescribing.Table
