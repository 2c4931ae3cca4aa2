import SelfDescribing.Registry.Basic

namespace SelfDescribing

/-!
# Walking a graph of names

`walk next names pending visited` visits names depth first, each once, and lists them in the order
in which they are reached.  The successors of a visited name come before the names that were
already waiting.  Only the names in `names` have successors, so that every walk ends, also on
graphs with cycles.
-/

/-- How many of some names are not yet visited. -/
def unvisited (names visited : List String) : Nat :=
  names.countP (fun name => decide (name ∉ visited))

/-- The count over a longer list of names, one name at a time. -/
theorem unvisited_cons (x : String) (rest visited : List String) :
    unvisited (x :: rest) visited = unvisited rest visited + if x ∈ visited then 0 else 1 := by
  by_cases h : x ∈ visited <;> simp [unvisited, h]

/-- A visit leaves no more names to visit. -/
theorem unvisited_visit_le (names visited : List String) (name : String) :
    unvisited names (name :: visited) ≤ unvisited names visited := by
  induction names with
  | nil => simp [unvisited]
  | cons x rest ih =>
    rw [unvisited_cons, unvisited_cons]
    by_cases hx : x ∈ visited <;> by_cases hn : x = name <;> simp [hx, hn] <;> omega

/-- A first visit of a registered name leaves fewer, which is why the walk ends. -/
theorem unvisited_visit_lt {names visited : List String} {name : String}
    (registered : name ∈ names) (fresh : name ∉ visited) :
    unvisited names (name :: visited) < unvisited names visited := by
  induction names with
  | nil => simp at registered
  | cons x rest ih =>
    rw [unvisited_cons, unvisited_cons]
    rcases List.mem_cons.1 registered with rfl | h
    · have := unvisited_visit_le rest visited name
      simp only [List.mem_cons_self, if_true, fresh, if_false]
      omega
    · have := ih h
      by_cases hx : x ∈ visited <;> by_cases hn : x = name <;> simp [hx, hn] <;> omega

/-- Visit the pending names and what is reached from them, except what is visited. -/
def walk (next : String → List String) (names : List String) :
    (pending visited : List String) → List String
  | [], _ => []
  | name :: pending, visited =>
    if _hv : name ∈ visited then walk next names pending visited
    else if _hr : name ∈ names then
      name :: walk next names (next name ++ pending) (name :: visited)
    else name :: walk next names pending (name :: visited)
termination_by pending visited => (unvisited names visited, pending.length)
decreasing_by
  · exact .right _ (by simp)
  · exact .left _ _ (unvisited_visit_lt _hr _hv)
  · rcases Nat.lt_or_eq_of_le (unvisited_visit_le names visited name) with h | h
    · exact .left _ _ h
    · rw [h]; exact .right _ (by simp)

namespace Registry

variable {ω : Type}

/-- A type and all that is reached from it through declared supertypes of registered types. -/
def ancestors (r : Registry ω) (name : String) : List String :=
  walk r.supertypes r.names [name] []

/-- Whether a type is `sup` or reaches it through declared supertypes. -/
def isSubtype (r : Registry ω) (sub sup : String) : Bool := decide (sup ∈ r.ancestors sub)

/-- Whether values of one type can be passed where another is expected: lists by their elements,
registered types by subtyping, anything to `*`. -/
def isTypeAssignable (r : Registry ω) : (source target : FieldType) → Bool
  | _, .any => true
  | .list a, .list b => r.isTypeAssignable a b
  | .named a, .named b => r.isSubtype a b
  | a, b => decide (a = b)

/-- Whether values of one type and nullability can be passed where another is expected. -/
def isAssignable (r : Registry ω) (source : FieldType) (sourceNullable : Bool)
    (target : FieldType) (targetNullable : Bool) : Bool :=
  (!sourceNullable || targetNullable) && r.isTypeAssignable source target

/-- The names to visit after a type when a schema tells its supertypes: none behind an interface
that is not opted in. -/
def toldSupertypes (r : Registry ω) (name : String) : List String :=
  match r.shape? name with
  | some s => if s.kind.isInterface && !r.isOptedIn name then [] else s.supertypes
  | none => []

/-- Whether a schema tells a visited name: opted in, and an interface or not registered. -/
def isTold (r : Registry ω) (name : String) : Bool :=
  r.isOptedIn name &&
    match r.shape? name with
    | some s => s.kind.isInterface
    | none => true

/-- The opted-in interfaces and unregistered names that are reached from a type, in the order of
the walk. -/
def provides (r : Registry ω) (name : String) : List String :=
  (walk r.toldSupertypes r.names [name] []).filter r.isTold

/-- Nothing is told of a type from which no other is reached, unless it is told itself. -/
theorem provides_eq_nil {r : Registry ω} {name : String} (hnext : r.toldSupertypes name = [])
    (htold : r.isTold name = false) : r.provides name = [] := by
  have hwalk : walk r.toldSupertypes r.names [name] [] = [name] := by
    simp [walk, hnext]
  rw [provides, hwalk, List.filter_cons_of_neg (ne_true_of_eq_false htold), List.filter_nil]

end Registry

end SelfDescribing
