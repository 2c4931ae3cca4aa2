import SelfDescribing.Proofs.Registry.Walking

namespace SelfDescribing.Registry

/-!
# What schemas tell of supertypes

A schema tells of a type what a depth-first visit of its supertypes emits.  The visit is said here
as a recursion that shares the names that were visited; the walk has a list of names that wait.

* `Visits`, `VisitsAll` — the recursive visit of a name, and of some names in turn.
* `visitsAll_walk` — the visit comes to an end, with what the walk lists.
* `VisitsAll.filter_walk` — it has no other end.
* `provides_visits` — what is told, as the visit and as reachability.

The recursion and the walk emit names in one order because the walk puts supertypes in front of the
names that wait.  The proof is by induction on the derivation of a visit, with the names that wait
generalised; that a visit exists at all is shown from the walk, which terminates.
-/

variable {ω : Type} {r : Registry ω}

/-! ### The visit -/

mutual

/-- The visit of a name after some others were visited: the names that are visited after it, the
last one first, and the names that it emits. -/
inductive Visits (r : Registry ω) : List String → String → List String → List String → Prop
  /-- No name is visited twice. -/
  | again {visited name} : name ∈ visited → Visits r visited name visited []
  /-- A name that is not registered is emitted if it is opted in. -/
  | unregistered {visited name} : name ∉ visited → r.shape? name = none →
      Visits r visited name (name :: visited) (if r.isOptedIn name then [name] else [])
  /-- The visit stops at an interface that is not opted in. -/
  | hidden {visited name s} : name ∉ visited → r.shape? name = some s → s.kind = .interface →
      r.isOptedIn name = false → Visits r visited name (name :: visited) []
  /-- An interface that is opted in is emitted in front of its supertypes. -/
  | told {visited name s visited' emitted} : name ∉ visited → r.shape? name = some s →
      s.kind = .interface → r.isOptedIn name = true →
      VisitsAll r (name :: visited) s.supertypes visited' emitted →
      Visits r visited name visited' (name :: emitted)
  /-- Of other types only the supertypes are emitted. -/
  | passed {visited name s visited' emitted} : name ∉ visited → r.shape? name = some s →
      s.kind ≠ .interface → VisitsAll r (name :: visited) s.supertypes visited' emitted →
      Visits r visited name visited' emitted

/-- The visit of some names in turn. -/
inductive VisitsAll (r : Registry ω) : List String → List String → List String → List String → Prop
  | nil {visited} : VisitsAll r visited [] visited []
  | cons {visited name visited₁ front names visited₂ back} :
      Visits r visited name visited₁ front → VisitsAll r visited₁ names visited₂ back →
      VisitsAll r visited (name :: names) visited₂ (front ++ back)

end

/-- Names are visited in turn, each with what the ones before it have visited. -/
theorem VisitsAll.split {xs ys visited visited' emitted : List String}
    (h : VisitsAll r visited (xs ++ ys) visited' emitted) : ∃ between front back,
      VisitsAll r visited xs between front ∧ VisitsAll r between ys visited' back ∧
        emitted = front ++ back := by
  induction xs generalizing visited emitted with
  | nil => exact ⟨visited, [], emitted, .nil, h, rfl⟩
  | cons x xs ih =>
    cases h with
    | cons hx h =>
      obtain ⟨between, front, back, hfront, hback, rfl⟩ := ih h
      exact ⟨between, _, back, .cons hx hfront, hback, (List.append_assoc ..).symm⟩

/-! ### The visit and the walk -/

section Shapes

variable {name : String} {s : TypeShape ω}

/-- Nothing is reached from a name without a shape, which is told if it is opted in. -/
theorem told_of_unregistered (h : r.shape? name = none) :
    r.toldSupertypes name = [] ∧ r.isTold name = r.isOptedIn name := by
  rw [toldSupertypes, isTold, h]
  exact ⟨rfl, Bool.and_true _⟩

/-- An interface that is not opted in is not told and hides what is behind it. -/
theorem told_of_hidden (h : r.shape? name = some s) (hkind : s.kind = .interface)
    (hopted : r.isOptedIn name = false) :
    r.toldSupertypes name = [] ∧ r.isTold name = false := by
  simp [toldSupertypes, isTold, h, hkind, hopted, ShapeKind.isInterface]

/-- An interface that is opted in is told, and so is what is behind it. -/
theorem told_of_interface (h : r.shape? name = some s) (hkind : s.kind = .interface)
    (hopted : r.isOptedIn name = true) :
    r.toldSupertypes name = s.supertypes ∧ r.isTold name = true := by
  simp [toldSupertypes, isTold, h, hkind, hopted, ShapeKind.isInterface]

/-- A type with objects or an abstract one is not told, but what is behind it is. -/
theorem told_of_other (h : r.shape? name = some s) (hkind : s.kind ≠ .interface) :
    r.toldSupertypes name = s.supertypes ∧ r.isTold name = false := by
  have hother : s.kind.isInterface = false := by
    cases hk : s.kind with
    | interface => exact absurd hk hkind
    | _ => rfl
  simp [toldSupertypes, isTold, h, hother]

end Shapes

theorem toldSupertypes_of_notMem (name : String) (h : name ∉ r.names) :
    r.toldSupertypes name = [] :=
  (told_of_unregistered (shape?_of_notMem_names h)).1

/-- A name with the names behind it that are told. -/
def toldWith (r : Registry ω) (name : String) (behind : List String) : List String :=
  if r.isTold name then name :: behind else behind

/-- What is told of some names is what is told of the first one and of the others. -/
theorem filter_isTold_cons (r : Registry ω) (name : String) (names : List String) :
    (name :: names).filter r.isTold = r.toldWith name (names.filter r.isTold) :=
  List.filter_cons

theorem toldWith_append (r : Registry ω) (name : String) (front back : List String) :
    r.toldWith name (front ++ back) = r.toldWith name front ++ back := by
  unfold toldWith
  split <;> rfl

/-- A name is visited by visiting the supertypes that the walk visits. -/
theorem visits_of_toldSupertypes {name : String} {visited visited' emitted : List String}
    (hfresh : name ∉ visited)
    (h : VisitsAll r (name :: visited) (r.toldSupertypes name) visited' emitted) :
    Visits r visited name visited' (r.toldWith name emitted) := by
  -- What is told of a type that was not visited before depends on its kind alone.
  cases hshape : r.shape? name with
  | none =>
    obtain ⟨hnext, htold⟩ := told_of_unregistered hshape
    rw [hnext] at h
    cases h
    rw [toldWith, htold]
    exact .unregistered hfresh hshape
  | some s =>
    by_cases hkind : s.kind = .interface
    · cases hopted : r.isOptedIn name with
      | false =>
        obtain ⟨hnext, htold⟩ := told_of_hidden hshape hkind hopted
        rw [hnext] at h
        cases h
        rw [toldWith, htold]
        exact .hidden hfresh hshape hkind hopted
      | true =>
        obtain ⟨hnext, htold⟩ := told_of_interface hshape hkind hopted
        rw [hnext] at h
        rw [toldWith, htold]
        exact .told hfresh hshape hkind hopted h
    · obtain ⟨hnext, htold⟩ := told_of_other hshape hkind
      rw [hnext] at h
      rw [toldWith, htold]
      exact .passed hfresh hshape hkind h

/-- The names that wait are visited after the supertypes of the first one. -/
theorem visitsAll_fresh {name : String} {pending visited visited' emitted : List String}
    (hfresh : name ∉ visited)
    (h : VisitsAll r (name :: visited) (r.toldSupertypes name ++ pending) visited' emitted) :
    VisitsAll r visited (name :: pending) visited' (r.toldWith name emitted) := by
  obtain ⟨between, front, back, hfront, hback, rfl⟩ := h.split
  rw [toldWith_append]
  exact .cons (visits_of_toldSupertypes hfresh hfront) hback

/-- The visit of the names that wait comes to an end, and emits what the walk tells. -/
theorem visitsAll_walk (r : Registry ω) (pending visited : List String) :
    ∃ visited', VisitsAll r visited pending visited'
      ((walk r.toldSupertypes r.names pending visited).filter r.isTold) := by
  fun_induction walk r.toldSupertypes r.names pending visited with
  | case1 visited => exact ⟨visited, .nil⟩
  | case2 name pending visited hv ih =>
    obtain ⟨visited', h⟩ := ih
    exact ⟨visited', .cons (.again hv) h⟩
  | case3 name pending visited hv hr ih =>
    obtain ⟨visited', h⟩ := ih
    rw [filter_isTold_cons]
    exact ⟨visited', visitsAll_fresh hv h⟩
  | case4 name pending visited hv hr ih =>
    obtain ⟨visited', h⟩ := ih
    rw [filter_isTold_cons]
    -- A name that is not registered has no supertypes to be visited before what waits.
    refine ⟨visited', visitsAll_fresh hv ?_⟩
    rwa [toldSupertypes_of_notMem name hr]

/-- What is told behind a name that was not visited: the name itself, its supertypes, and what
waits. -/
theorem filter_walk_fresh {name : String} {pending visited : List String} (h : name ∉ visited) :
    (walk r.toldSupertypes r.names (name :: pending) visited).filter r.isTold =
      r.toldWith name ((walk r.toldSupertypes r.names (r.toldSupertypes name ++ pending)
        (name :: visited)).filter r.isTold) := by
  rw [walk_fresh toldSupertypes_of_notMem h, filter_isTold_cons]

mutual

/-- The walk tells what the visit of the first name emits, and then goes on with what waits. -/
theorem Visits.filter_walk {visited visited' emitted : List String} {name : String} :
    Visits r visited name visited' emitted → ∀ pending,
      (walk r.toldSupertypes r.names (name :: pending) visited).filter r.isTold =
        emitted ++ (walk r.toldSupertypes r.names pending visited').filter r.isTold
  | .again hv, pending => by
    rw [walk_again hv]
    rfl
  -- A fresh type is told if it passes the filter, and the walk goes on with what is told behind it.
  | .unregistered hv hshape, pending => by
    obtain ⟨hnext, htold⟩ := told_of_unregistered hshape
    rw [filter_walk_fresh hv, toldWith, hnext, htold]
    split <;> rfl
  | .hidden hv hshape hkind hopted, pending => by
    obtain ⟨hnext, htold⟩ := told_of_hidden hshape hkind hopted
    rw [filter_walk_fresh hv, toldWith, hnext, htold]
    rfl
  | .told hv hshape hkind hopted h, pending => by
    obtain ⟨hnext, htold⟩ := told_of_interface hshape hkind hopted
    rw [filter_walk_fresh hv, toldWith, hnext, htold, h.filter_walk pending]
    rfl
  | .passed hv hshape hkind h, pending => by
    obtain ⟨hnext, htold⟩ := told_of_other hshape hkind
    rw [filter_walk_fresh hv, toldWith, hnext, htold, h.filter_walk pending]
    rfl

/-- What the visit of some names emits, the walk tells first, and then it goes on with the names
that wait. -/
theorem VisitsAll.filter_walk {visited names visited' emitted : List String} :
    VisitsAll r visited names visited' emitted → ∀ pending,
      (walk r.toldSupertypes r.names (names ++ pending) visited).filter r.isTold =
        emitted ++ (walk r.toldSupertypes r.names pending visited').filter r.isTold
  | .nil, pending => rfl
  | .cons hname h, pending => by
    rw [List.cons_append, hname.filter_walk, h.filter_walk, List.append_assoc]

end

/-! ### What is reached -/

/-- The visit goes on from a registered type to its supertypes, unless it is an interface that is
not opted in. -/
def Opens (r : Registry ω) (name supertype : String) : Prop :=
  ∃ s, r.shape? name = some s ∧ (s.kind = .interface → r.isOptedIn name = true) ∧
    supertype ∈ s.supertypes

/-- An interface, or a name that is not registered, that is opted in. -/
def Tellable (r : Registry ω) (name : String) : Prop :=
  r.isOptedIn name = true ∧ ∀ s, r.shape? name = some s → s.kind = .interface

/-- The walk goes from a name to the supertypes that it opens. -/
theorem mem_toldSupertypes_iff {name supertype : String} :
    supertype ∈ r.toldSupertypes name ↔ r.Opens name supertype := by
  unfold toldSupertypes Opens
  cases r.shape? name with
  | none => simp
  | some s => cases hkind : s.kind <;> cases hopted : r.isOptedIn name <;>
      simp [ShapeKind.isInterface, hkind]

/-- A name is told exactly if it is opted in and is no registered type other than an interface. -/
theorem isTold_iff {name : String} : r.isTold name = true ↔ r.Tellable name := by
  unfold isTold Tellable
  rw [Bool.and_eq_true]
  refine and_congr_right fun _ => ?_
  cases r.shape? name with
  | none => simp
  | some s => cases hkind : s.kind <;> simp [ShapeKind.isInterface, hkind]

/-- What a schema tells of a type is what the recursive visit emits, in this order and without
repeats, on every graph of supertypes: the opted-in interfaces and unregistered names that are
reached without going on from an interface that is not opted in. -/
theorem provides_visits (r : Registry ω) (name : String) :
    (∀ emitted, (∃ visited, r.Visits [] name visited emitted) ↔ emitted = r.provides name) ∧
    (r.provides name).Nodup ∧
    ∀ told, told ∈ r.provides name ↔
      r.Tellable told ∧ Relation.ReflTransGen r.Opens name told := by
  refine ⟨fun emitted => ⟨?_, ?_⟩, (nodup_walk _ _ _ _).filter _, fun told => ?_⟩
  · rintro ⟨visited, h⟩
    have hwalk := h.filter_walk []
    rw [walk, List.filter_nil, List.append_nil] at hwalk
    exact hwalk.symm
  · rintro rfl
    obtain ⟨visited, h⟩ : ∃ visited, VisitsAll r [] [name] visited (r.provides name) :=
      visitsAll_walk r [name] []
    -- Nothing waits behind the first name.
    generalize r.provides name = emitted at h ⊢
    cases h with
    | cons hname hnil =>
      cases hnil
      rw [List.append_nil]
      exact ⟨_, hname⟩
  · have hsteps : (fun a b => b ∈ r.toldSupertypes a) = r.Opens :=
      funext fun a => funext fun b => propext mem_toldSupertypes_iff
    rw [provides, List.mem_filter, mem_walk_iff toldSupertypes_of_notMem, hsteps, isTold_iff,
      and_comm]

end SelfDescribing.Registry
