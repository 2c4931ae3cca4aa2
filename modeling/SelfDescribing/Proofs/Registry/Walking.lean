import Mathlib.Logic.Relation
import SelfDescribing.Registry.Walk

namespace SelfDescribing

/-!
# What a walk lists

A walk lists each name once, and it lists exactly the names that are reached.

* `walk_again`, `walk_fresh` — equations of walks.
* `nodup_walk` — no name is listed twice, or was visited before.
* `mem_walk_iff` — the names that are listed by a walk from one name.

A walk terminates because each fresh name leaves fewer registered names unvisited, and names that
are not registered have no successors.  All facts about walks are by the recursion that this measure
justifies.
-/

variable {next : String → List String} {names pending visited : List String} {name x y : String}

/-- A name that was visited is passed over. -/
theorem walk_again (h : name ∈ visited) :
    walk next names (name :: pending) visited = walk next names pending visited := by
  rw [walk, dif_pos h]

/-- A name that was not visited comes first, and its successors before what was waiting. -/
theorem walk_fresh (hnext : ∀ name, name ∉ names → next name = []) (h : name ∉ visited) :
    walk next names (name :: pending) visited =
      name :: walk next names (next name ++ pending) (name :: visited) := by
  rw [walk, dif_neg h]
  split
  · rfl
  · rename_i hr
    rw [hnext name hr, List.nil_append]

/-! ### Each name once -/

/-- The walk lists nothing that was visited before. -/
theorem notMem_visited_of_mem_walk (h : x ∈ walk next names pending visited) : x ∉ visited := by
  fun_induction walk next names pending visited with
  | case1 visited => cases h
  | case2 name pending visited hv ih => exact ih h
  | case3 name pending visited hv hr ih | case4 name pending visited hv hr ih =>
    obtain rfl | h := List.mem_cons.1 h
    · exact hv
    · exact fun hx => ih h (List.mem_cons_of_mem name hx)

/-- The walk lists nothing twice. -/
theorem nodup_walk (next : String → List String) (names pending visited : List String) :
    (walk next names pending visited).Nodup := by
  fun_induction walk next names pending visited with
  | case1 visited => exact List.nodup_nil
  | case2 name pending visited hv ih => exact ih
  | case3 name pending visited hv hr ih | case4 name pending visited hv hr ih =>
    exact List.nodup_cons.2
      ⟨fun h => notMem_visited_of_mem_walk h List.mem_cons_self, ih⟩

/-! ### Exactly what is reached -/

/-- What is listed is reached from what was waiting. -/
theorem reached_of_mem_walk (h : x ∈ walk next names pending visited) :
    ∃ p ∈ pending, Relation.ReflTransGen (fun a b => b ∈ next a) p x := by
  fun_induction walk next names pending visited with
  | case1 visited => cases h
  | case2 name pending visited hv ih =>
    obtain ⟨p, hp, hreached⟩ := ih h
    exact ⟨p, List.mem_cons_of_mem name hp, hreached⟩
  | case3 name pending visited hv hr ih =>
    obtain rfl | h := List.mem_cons.1 h
    · exact ⟨x, List.mem_cons_self, .refl⟩
    · obtain ⟨p, hp, hreached⟩ := ih h
      -- It waits as a successor of the name, or waited before.
      obtain hp | hp := List.mem_append.1 hp
      · exact ⟨name, List.mem_cons_self, .head hp hreached⟩
      · exact ⟨p, List.mem_cons_of_mem name hp, hreached⟩
  | case4 name pending visited hv hr ih =>
    obtain rfl | h := List.mem_cons.1 h
    · exact ⟨x, List.mem_cons_self, .refl⟩
    · obtain ⟨p, hp, hreached⟩ := ih h
      exact ⟨p, List.mem_cons_of_mem name hp, hreached⟩

/-- What was waiting is listed, unless it was visited. -/
theorem mem_walk_of_mem_pending (h : x ∈ pending) :
    x ∈ visited ∨ x ∈ walk next names pending visited := by
  fun_induction walk next names pending visited with
  | case1 visited => cases h
  | case2 name pending visited hv ih =>
    obtain rfl | h := List.mem_cons.1 h
    · exact .inl hv
    · exact ih h
  | case3 name pending visited hv hr ih | case4 name pending visited hv hr ih =>
    obtain rfl | h := List.mem_cons.1 h
    · exact .inr List.mem_cons_self
    · obtain hx | hx := ih (by simp [h])
      · obtain rfl | hx := List.mem_cons.1 hx
        · exact .inr List.mem_cons_self
        · exact .inl hx
      · exact .inr (List.mem_cons_of_mem name hx)

/-- The successors of what is listed are listed, unless they were visited. -/
theorem mem_walk_of_mem_next (hnext : ∀ name, name ∉ names → next name = [])
    (h : x ∈ walk next names pending visited) (hy : y ∈ next x) :
    y ∈ visited ∨ y ∈ walk next names pending visited := by
  fun_induction walk next names pending visited with
  | case1 visited => cases h
  | case2 name pending visited hv ih => exact ih h
  | case3 name pending visited hv hr ih =>
    -- The successors of the name itself wait behind it.
    have hbehind : y ∈ name :: visited ∨
        y ∈ walk next names (next name ++ pending) (name :: visited) := by
      obtain rfl | h := List.mem_cons.1 h
      · exact mem_walk_of_mem_pending (List.mem_append_left pending hy)
      · exact ih h
    simpa [or_left_comm, or_assoc] using hbehind
  | case4 name pending visited hv hr ih =>
    obtain rfl | h := List.mem_cons.1 h
    · rw [hnext x hr] at hy
      cases hy
    · simpa [or_left_comm, or_assoc] using ih h

/-- A walk from a name lists what is reached from it. -/
theorem mem_walk_iff (hnext : ∀ name, name ∉ names → next name = []) :
    x ∈ walk next names [name] [] ↔ Relation.ReflTransGen (fun a b => b ∈ next a) name x := by
  constructor
  · intro h
    obtain ⟨p, hp, hreached⟩ := reached_of_mem_walk h
    rwa [List.mem_singleton.1 hp] at hreached
  · intro h
    induction h with
    | refl => exact (mem_walk_of_mem_pending List.mem_cons_self).resolve_left List.not_mem_nil
    | tail _ hstep ih => exact (mem_walk_of_mem_next hnext ih hstep).resolve_left List.not_mem_nil

/-! ### Registered names -/

namespace Registry

variable {ω : Type} {r : Registry ω}

/-- The registered names are those with a shape. -/
theorem mem_names_iff {name : String} : name ∈ r.names ↔ (r.shape? name).isSome = true := by
  unfold names Table.keys shape? Table.find?
  rw [Option.isSome_map, List.find?_isSome]
  simp only [List.mem_map, decide_eq_true_eq]

theorem shape?_of_notMem_names {name : String} (h : name ∉ r.names) : r.shape? name = none := by
  rwa [mem_names_iff, Option.not_isSome_iff_eq_none] at h

end Registry

end SelfDescribing
