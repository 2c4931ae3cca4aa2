import SelfDescribing.Factory.Basic
import SelfDescribing.Proofs.Codec.Build

namespace SelfDescribing

open Steps

/-!
# Registering shapes

* `TypeShape.WellFormed` — what is checked of a shape alone.
* `TypeShape.Backed` — what is not checked: that only concrete shapes have a host type.
* `Registry.Taken` — what is checked of the name and the host type of a shape.
* `Registry.register_cases` — which shapes are registered, and what becomes of the registry, from
  what the steps of registering do.
* `Registry.Consistent` — the names of host types and the shapes of names are inverse to each other,
  and the shapes are well-formed.
* `Registry.consistent_after` — what holds after every sequence of calls.

`register_cases` says once what a registration does: it stores the shape, with both tables written,
or it fails at one of the checks, with neither written.  Everything about sequences of calls follows
from it by induction on the calls, without looking at the steps again.
-/

variable {ω : Type}

/-! ### Shapes -/

namespace TypeShape

/-- A shape of distinct properties and constructors of distinct parameters, which objects can be
read with if it has any. -/
structure WellFormed (s : TypeShape ω) : Prop where
  properties : (s.properties.map (·.name)).Nodup
  params : ∀ c ∈ s.constructors, (c.params.map (·.name)).Nodup
  marked : s.kind.isConcrete = true → s.markedConstructors.length ≤ 1
  constructor : s.kind.isConcrete = true → ∃ k ∈ s.constructors, s.constructor = .ok (some k)

/-- Only concrete shapes have a host type, as those have that come from the builders of shapes. -/
def Backed (s : TypeShape ω) : Prop := ∀ {t}, s.hostType? = some t → s.kind = .concrete (some t)

variable {s : TypeShape ω}

/-- The host type of a concrete shape is the one that it gives. -/
theorem hostType?_of_kind {t : HostType} (h : s.kind = .concrete (some t)) :
    s.hostType? = some t := by
  unfold kind at h
  split at h
  · exact ShapeKind.concrete.inj h
  · cases h
  · cases h

/-- The names of a shape are accepted exactly if no property and no parameter of a constructor is
repeated. -/
theorem checkNames_eq_ok_iff : s.checkNames = .ok () ↔ (s.properties.map (·.name)).Nodup ∧
    ∀ c ∈ s.constructors, (c.params.map (·.name)).Nodup := by
  refine ⟨nodup_of_checkNames, fun ⟨hproperties, hparams⟩ => ?_⟩
  have hrepeated : s.repeatedParam? = none :=
    List.findSome?_eq_none_iff.2 fun c hc => firstRepeat?_eq_none_iff.2 (hparams c hc)
  simp only [checkNames, firstRepeat?_eq_none_iff.2 hproperties, hrepeated]

/-- A constructor is chosen for the shape of objects, and none for others. -/
theorem constructor_eq_ok_iff : (∃ k, s.constructor = .ok k) ↔ (s.kind.isConcrete = true →
    s.markedConstructors.length ≤ 1 ∧ ∃ k ∈ s.constructors, s.constructor = .ok (some k)) := by
  constructor
  · rintro ⟨k, hk⟩ hconcrete
    constructor
    -- More than one mark is refused before anything else is looked at.
    · obtain ⟨index, hindex, -⟩ := except_bind_eq_ok.1 hk
      unfold constructorIndex at hindex
      rw [hconcrete] at hindex
      simp only [Bool.not_true, Bool.false_eq_true, if_false] at hindex
      split at hindex
      · cases hindex
      · rename_i hmarked
        exact Nat.le_of_not_lt hmarked
    · cases k with
      | none => exact absurd hk (constructor_ne_none hconcrete)
      | some k => exact ⟨k, mem_of_constructor hk, hk⟩
  · intro h
    cases hconcrete : s.kind.isConcrete with
    | true =>
      obtain ⟨-, k, -, hk⟩ := h hconcrete
      exact ⟨_, hk⟩
    | false =>
      refine ⟨none, ?_⟩
      simp only [TypeShape.constructor, constructorIndex, hconcrete, Bool.not_false, if_true]
      rfl

/-- A shape is well-formed exactly if both checks accept it. -/
theorem wellFormed_iff :
    s.WellFormed ↔ s.checkNames = .ok () ∧ ∃ k, s.constructor = .ok k := by
  rw [checkNames_eq_ok_iff, constructor_eq_ok_iff]
  constructor
  · exact fun h => ⟨⟨h.properties, h.params⟩, fun hc => ⟨h.marked hc, h.constructor hc⟩⟩
  · exact fun h => ⟨h.1.1, h.1.2, fun hc => (h.2 hc).1, fun hc => (h.2 hc).2⟩

end TypeShape

namespace Registry

variable {r r' : Registry ω} {s : TypeShape ω}

/-! ### Names and host types that belong to others -/

/-- The name of a shape belongs to another host type, or its host type has another name. -/
def Taken (r : Registry ω) (s : TypeShape ω) : Prop :=
  (∃ old, r.shape? s.name = some old ∧ old.hostType? ≠ s.hostType?) ∨
    ∃ t name, s.hostType? = some t ∧ r.nameOf? t = some name ∧ name ≠ s.name

/-- The registry with a shape stored under its name and host type. -/
def store (r : Registry ω) (s : TypeShape ω) : Registry ω :=
  { r with
    shapes := r.shapes.insert s.name s
    hostNames := match s.hostType? with
      | some t => r.hostNames.insert t s.name
      | none => r.hostNames }

/-! ### The steps of registering -/

/-- The name of a shape is refused if another host type has it, and the registry stays as it is. -/
theorem checkName_cases (s : TypeShape ω) (r : Registry ω) :
    (∃ old, r.shape? s.name = some old ∧ old.hostType? ≠ s.hostType? ∧
      checkName s r = .error (.duplicateType s.name) r) ∨
    ((∀ old, r.shape? s.name = some old → old.hostType? = s.hostType?) ∧
      checkName s r = .ok () r) := by
  unfold checkName
  rw [get_bind_apply]
  cases hold : r.shape? s.name with
  | none => exact .inr ⟨nofun, rfl⟩
  | some old =>
    by_cases hsame : old.hostType? = s.hostType?
    · refine .inr ⟨fun _ he => Option.some.inj he ▸ hsame, ?_⟩
      simp only [if_neg (not_not_intro hsame)]
      rfl
    · refine .inl ⟨old, rfl, hsame, ?_⟩
      simp only [if_pos hsame]
      rfl

/-- A host type is refused that has another name, before anything is stored. -/
theorem nameHost_cases (t : HostType) (name : String) (r : Registry ω) :
    (∃ old, r.nameOf? t = some old ∧ old ≠ name ∧
      nameHost t name r = .error (.duplicateType name) r) ∨
    ((∀ old, r.nameOf? t = some old → old = name) ∧
      nameHost t name r = .ok () { r with hostNames := r.hostNames.insert t name }) := by
  unfold nameHost
  rw [get_bind_apply]
  cases hold : r.nameOf? t with
  | none => exact .inr ⟨nofun, rfl⟩
  | some old =>
    by_cases hsame : old = name
    · refine .inr ⟨fun _ he => Option.some.inj he ▸ hsame, ?_⟩
      simp only [if_neg (not_not_intro hsame)]
      rfl
    · refine .inl ⟨old, rfl, hsame, ?_⟩
      simp only [if_pos hsame]
      rfl

/-- A shape is registered exactly if it is well-formed and neither its name nor its host type
belongs to another.  Where it is refused, neither table has been changed. -/
theorem register_cases (r : Registry ω) (s : TypeShape ω) :
    (s.WellFormed ∧ ¬ r.Taken s ∧ r.register s = .ok () (r.store s)) ∨
      ((¬ s.WellFormed ∨ r.Taken s) ∧ ∃ e, r.register s = .error e r) := by
  rw [TypeShape.wellFormed_iff]
  unfold register
  cases hnames : s.checkNames with
  | error e => exact .inr ⟨.inl (fun h => nomatch h.1), e, rfl⟩
  | ok =>
    cases hconstructor : s.constructor with
    | error e => exact .inr ⟨.inl (fun ⟨_, _, h⟩ => nomatch h), e, rfl⟩
    | ok k =>
      -- Both checks of the shape alone are passed, and the registry is looked at.
      rw [bind_ok (show (MonadExcept.ofExcept (Except.ok () : Except Error Unit) :
          Step ω Unit) r = .ok () r from rfl),
        bind_ok (show (MonadExcept.ofExcept (Except.ok k : Except Error _) : Step ω _) r =
          .ok k r from rfl)]
      obtain ⟨old, hold, hother, he⟩ | ⟨hown, he⟩ := checkName_cases s r
      · rw [bind_error he]
        exact .inr ⟨.inr (.inl ⟨old, hold, hother⟩), _, rfl⟩
      rw [bind_ok he]
      have hname : ¬ ∃ old, r.shape? s.name = some old ∧ old.hostType? ≠ s.hostType? :=
        fun ⟨old, hold, hother⟩ => hother (hown old hold)
      unfold Taken store
      cases hhost : s.hostType? with
      | none =>
        rw [hhost] at hname
        exact .inl ⟨⟨rfl, k, rfl⟩, fun h => h.elim hname (fun ⟨_, _, h, _⟩ => nomatch h), rfl⟩
      | some t =>
        rw [hhost] at hname
        obtain ⟨old, hold, hother, he⟩ | ⟨hown, he⟩ := nameHost_cases t s.name r
        · exact .inr ⟨.inr (.inr ⟨t, old, rfl, hold, hother⟩), _, bind_error he _⟩
        · refine .inl ⟨⟨rfl, k, rfl⟩, fun h => h.elim hname ?_, bind_ok he _⟩
          rintro ⟨_, old, ⟨⟩, hold, hother⟩
          exact hother (hown old hold)

/-- What comes up by registering a shape. -/
theorem register_eq_ok_iff :
    r.register s = .ok () r' ↔ s.WellFormed ∧ ¬ r.Taken s ∧ r' = r.store s := by
  obtain ⟨hs, hfree, he⟩ | ⟨hrefused, e, he⟩ := r.register_cases s
  · rw [he]
    exact ⟨fun h => by cases h; exact ⟨hs, hfree, rfl⟩, fun h => by rw [h.2.2]⟩
  · rw [he]
    exact iff_of_false nofun fun h => hrefused.elim (fun hs => hs h.1) h.2.1

/-- A shape that is refused changes nothing. -/
theorem eq_of_register_error {e : Error} (h : r.register s = .error e r') : r' = r := by
  obtain ⟨-, -, he⟩ | ⟨-, e', he⟩ := r.register_cases s
  · cases he.symm.trans h
  · cases he.symm.trans h
    rfl

/-- Storing a shape changes the look-up of its own name. -/
theorem shape?_store (r : Registry ω) (s : TypeShape ω) (name : String) :
    (r.store s).shape? name = if s.name = name then some s else r.shape? name :=
  Table.find?_insert _ _ _ _

/-- Storing a shape changes the look-up of its own host type, if it gives one. -/
theorem nameOf?_store (r : Registry ω) (s : TypeShape ω) (t : HostType) :
    (r.store s).nameOf? t = if s.hostType? = some t then some s.name else r.nameOf? t := by
  unfold nameOf? store
  cases s.hostType? with
  | none => simp
  | some t₀ => simp [Table.find?_insert]

/-! ### Consistent registries -/

/-- Host types have the names under which their shapes are stored, and shapes are stored under their
names and well-formed. -/
structure Consistent (r : Registry ω) : Prop where
  nameOf?_iff : ∀ {t name}, r.nameOf? t = some name ↔
    ∃ s, r.shape? name = some s ∧ s.hostType? = some t
  name_eq : ∀ {name s}, r.shape? name = some s → s.name = name
  wellFormed : ∀ {name s}, r.shape? name = some s → s.WellFormed

theorem consistent_empty : (empty : Registry ω).Consistent where
  nameOf?_iff := ⟨nofun, nofun⟩
  name_eq := nofun
  wellFormed := nofun

/-- Allowing a name changes no shape. -/
theorem shape?_allow (r : Registry ω) (allowed name : String) :
    (r.allow allowed).shape? name = r.shape? name := by
  unfold Registry.allow
  split <;> rfl

/-- By induction on the names: allowing several changes no shape. -/
theorem shape?_allowAll (r : Registry ω) (names : List String) (name : String) :
    (names.foldl Registry.allow r).shape? name = r.shape? name := by
  induction names generalizing r with
  | nil => rfl
  | cons allowed names ih => rw [List.foldl_cons, ih, shape?_allow]

/-- Allowing a name changes no host type. -/
theorem nameOf?_allow (r : Registry ω) (allowed : String) (t : HostType) :
    (r.allow allowed).nameOf? t = r.nameOf? t := by
  unfold Registry.allow
  split <;> rfl

/-- Allowing a name changes no look-up. -/
theorem Consistent.allow (h : r.Consistent) (name : String) : (r.allow name).Consistent := by
  unfold Registry.allow
  split
  · exact h
  · exact ⟨h.nameOf?_iff, h.name_eq, h.wellFormed⟩

/-- A well-formed shape whose name and host type are free can be stored. -/
theorem Consistent.store (h : r.Consistent) (hs : s.WellFormed) (hfree : ¬ r.Taken s) :
    (r.store s).Consistent := by
  constructor
  · intro t name
    rw [shape?_store, nameOf?_store]
    by_cases hhost : s.hostType? = some t <;> by_cases hname : s.name = name
    · -- The shape's own name and host type.
      rw [if_pos hhost, if_pos hname, hname]
      exact iff_of_true rfl ⟨s, rfl, hhost⟩
    · -- Its host type has no other name.
      rw [if_pos hhost, if_neg hname]
      refine iff_of_false (fun he => hname (Option.some.inj he)) fun hold => hfree ?_
      exact .inr ⟨t, name, hhost, h.nameOf?_iff.2 hold, Ne.symm hname⟩
    · -- Its name belongs to no other host type.
      rw [if_neg hhost, if_pos hname]
      refine iff_of_false (fun hold => hfree (.inl ?_)) ?_
      · obtain ⟨old, hold, hother⟩ := h.nameOf?_iff.1 hold
        refine ⟨old, hname ▸ hold, fun hsame => hhost ?_⟩
        rw [← hsame, hother]
      · rintro ⟨_, ⟨⟩, hs⟩
        exact hhost hs
    -- Neither concerns this pair.
    · rw [if_neg hhost, if_neg hname]
      exact h.nameOf?_iff
  -- The other two parts hold of the stored shape, and of the shapes that were there.
  · intro name found hfound
    rw [shape?_store] at hfound
    split at hfound
    · cases hfound
      assumption
    · exact h.name_eq hfound
  · intro name found hfound
    rw [shape?_store] at hfound
    split at hfound
    · cases hfound
      exact hs
    · exact h.wellFormed hfound

/-- What registering a shape changes: the look-ups of its name and of its host type. -/
structure Registers (r : Registry ω) (s : TypeShape ω) (r' : Registry ω) : Prop where
  shape? : ∀ name, r'.shape? name = if s.name = name then some s else r.shape? name
  nameOf? : ∀ t, r'.nameOf? t = if s.hostType? = some t then some s.name else r.nameOf? t
  shapeOf? : ∀ t, r'.shapeOf? t = if s.hostType? = some t then some s else r.shapeOf? t
  allowed : r'.allowed = r.allowed

/-- Storing such a shape changes nothing but what belongs to it. -/
theorem Consistent.registers_store (h : r.Consistent) (hfree : ¬ r.Taken s) :
    r.Registers s (r.store s) := by
  refine ⟨shape?_store r s, nameOf?_store r s, fun t => ?_, rfl⟩
  unfold Registry.shapeOf?
  rw [nameOf?_store]
  by_cases hhost : s.hostType? = some t
  · rw [if_pos hhost, if_pos hhost]
    exact (shape?_store r s s.name).trans (if_pos rfl)
  · rw [if_neg hhost, if_neg hhost]
    cases hname : r.nameOf? t with
    | none => rfl
    | some name =>
      show (r.store s).shape? name = r.shape? name
      rw [shape?_store, if_neg]
      -- Another host type has another name.
      rintro rfl
      obtain ⟨old, hold, hother⟩ := h.nameOf?_iff.1 hname
      refine hfree (.inl ⟨old, hold, fun hsame => hhost ?_⟩)
      rw [← hsame, hother]

/-! ### Calls -/

/-- A call that changes a registry, if it does not fail. -/
inductive Call (ω : Type) where
  | register (shape : TypeShape ω)
  | allow (name : String)

/-- The registry after a call, successful or not. -/
def call (r : Registry ω) : Call ω → Registry ω
  | .register s => final (r.register s)
  | .allow name => r.allow name

/-- The registry after some calls. -/
def run (r : Registry ω) (calls : List (Call ω)) : Registry ω := calls.foldl call r

/-- The registry after some calls on the one without shapes. -/
def after (calls : List (Call ω)) : Registry ω := empty.run calls

/-- A call stores a shape that is well-formed and not taken, allows a name, or changes nothing. -/
theorem call_cases (r : Registry ω) (c : Call ω) :
    (∃ s, c = .register s ∧ s.WellFormed ∧ ¬ r.Taken s ∧ r.call c = r.store s) ∨
      (∃ name, c = .allow name ∧ r.call c = r.allow name) ∨ r.call c = r := by
  cases c with
  | allow name => exact .inr (.inl ⟨name, rfl, rfl⟩)
  | register s =>
    rw [call]
    obtain ⟨hs, hfree, he⟩ | ⟨-, e, he⟩ := r.register_cases s
    · rw [he]
      exact .inl ⟨s, rfl, hs, hfree, rfl⟩
    · rw [he]
      exact .inr (.inr rfl)

/-- Each call, successful or not, keeps the registry consistent. -/
theorem Consistent.call (h : r.Consistent) (c : Call ω) : (r.call c).Consistent := by
  obtain ⟨s, -, hs, hfree, he⟩ | ⟨name, -, he⟩ | he := r.call_cases c <;> rw [he]
  · exact h.store hs hfree
  · exact h.allow name
  · exact h

/-- By induction on the calls: a consistent registry stays so through any number of them. -/
theorem Consistent.run (h : r.Consistent) (calls : List (Call ω)) : (r.run calls).Consistent := by
  induction calls generalizing r with
  | nil => exact h
  | cons c calls ih => exact ih (h.call c)

/-- A call keeps the registered names and the host types behind them. -/
theorem exists_shape?_call {name : String} (h : r.shape? name = some s) (c : Call ω) :
    ∃ s', (r.call c).shape? name = some s' ∧ s'.hostType? = s.hostType? := by
  obtain ⟨new, -, -, hfree, he⟩ | ⟨allowed, -, he⟩ | he := r.call_cases c <;> rw [he]
  · rw [shape?_store]
    by_cases hname : new.name = name
    · subst hname
      refine ⟨new, if_pos rfl, ?_⟩
      by_contra hother
      exact hfree (.inl ⟨s, h, Ne.symm hother⟩)
    · exact ⟨s, by rw [if_neg hname, h], rfl⟩
  · exact ⟨s, by rw [shape?_allow, h], rfl⟩
  · exact ⟨s, h, rfl⟩

/-- Once a name has a shape, it keeps one of the same host type. -/
theorem exists_shape?_run {name : String} (h : r.shape? name = some s) (calls : List (Call ω)) :
    ∃ s', (r.run calls).shape? name = some s' ∧ s'.hostType? = s.hostType? := by
  induction calls generalizing r s with
  | nil => exact ⟨s, h, rfl⟩
  | cons c calls ih =>
    obtain ⟨s₁, h₁, hhost₁⟩ := exists_shape?_call h c
    obtain ⟨s', h', hhost'⟩ := ih h₁
    exact ⟨s', h', hhost'.trans hhost₁⟩

/-- A shape that is found after a call was there before, or is the one that the call registers. -/
theorem shape?_call {name : String} {c : Call ω} (h : (r.call c).shape? name = some s) :
    r.shape? name = some s ∨ c = .register s := by
  obtain ⟨new, rfl, -, -, he⟩ | ⟨allowed, -, he⟩ | he := r.call_cases c <;> rw [he] at h
  · rw [shape?_store] at h
    split at h
    · cases h
      exact .inr rfl
    · exact .inl h
  · rw [shape?_allow] at h
    exact .inl h
  · exact .inl h

/-- What is found after some calls was there before or was registered by one of them. -/
theorem shape?_run {name : String} {calls : List (Call ω)}
    (h : (r.run calls).shape? name = some s) : r.shape? name = some s ∨ .register s ∈ calls := by
  induction calls generalizing r with
  | nil => exact .inl h
  | cons c calls ih =>
    obtain h₁ | hlater := ih h
    · obtain hold | rfl := shape?_call h₁
      · exact .inl hold
      · exact .inr List.mem_cons_self
    · exact .inr (List.mem_cons_of_mem c hlater)

/-- After every sequence of calls the registry is consistent; and where only concrete shapes were
given host types, host types have the names of concrete shapes.  The registry refuses exactly the
shapes that are not well-formed or taken, and neither it nor a factory over it is changed then;
others change the look-ups of their own name and host type; and no later calls remove a name or
change the host type behind it. -/
theorem consistent_after (calls : List (Call ω)) :
    (after calls).Consistent ∧
    ((∀ s, .register s ∈ calls → s.Backed) → ∀ t name, (after calls).nameOf? t = some name ↔
      ∃ s, (after calls).shape? name = some s ∧ s.kind = .concrete (some t)) ∧
    (∀ s, (∃ e r, (after calls).register s = .error e r) ↔
      ¬ s.WellFormed ∨ (after calls).Taken s) ∧
    (∀ s e r, (after calls).register s = .error e r → r = after calls ∧
      ∀ f : Factory ω, f.registry = after calls → Factory.register s f = .error e f) ∧
    (∀ s r, (after calls).register s = .ok () r → (after calls).Registers s r) ∧
    ∀ name s, (after calls).shape? name = some s → ∀ later,
      ∃ s', (after (calls ++ later)).shape? name = some s' ∧ s'.hostType? = s.hostType? := by
  have hconsistent : (after calls).Consistent := consistent_empty.run calls
  refine ⟨hconsistent, fun hbacked t name => ?_, fun s => ?_, fun s e r h => ?_, fun s r h => ?_,
    fun name s h later => ?_⟩
  · rw [hconsistent.nameOf?_iff]
    constructor
    -- A host type was taken from a shape that some call registered, and this shape is backed.
    · rintro ⟨s, hs, hhost⟩
      obtain hempty | hcall := shape?_run hs
      · cases hempty
      · exact ⟨s, hs, hbacked s hcall hhost⟩
    · rintro ⟨s, hs, hkind⟩
      exact ⟨s, hs, TypeShape.hostType?_of_kind hkind⟩
  · obtain ⟨hs, hfree, he⟩ | ⟨hrefused, e, he⟩ := (after calls).register_cases s
    · rw [he]
      exact iff_of_false nofun fun hor => hor.elim (fun hn => hn hs) hfree
    · exact iff_of_true ⟨e, _, he⟩ hrefused
  -- A call that fails has written to neither table.
  · obtain rfl := eq_of_register_error h
    refine ⟨rfl, fun f hf => ?_⟩
    rw [Factory.register, Factory.registering, hf, h, ← hf]
  · obtain ⟨-, hfree, rfl⟩ := register_eq_ok_iff.1 h
    exact hconsistent.registers_store hfree
  · rw [after, run, List.foldl_append]
    exact exists_shape?_run h later

/-- The shape of a host type, without properties and under the name `Point`. -/
def point (hostType : String) : TypeShape Unit :=
  ⟨"Point", .concrete, some ⟨hostType⟩, [], [⟨[], false, false, fun _ => .ok ()⟩], [], false⟩

/-- Points are registered twice, and then a name is allowed. -/
def points : List (Call Unit) :=
  [.register (point "a"), .register (point "a"), .allow "Shape"]

/-- A shape may be registered again, but not for another host type. -/
theorem consistent_after_points : (∀ s, .register s ∈ points → s.Backed) ∧
    (after points).nameOf? ⟨"a"⟩ = some "Point" ∧
    ∃ e r, (after points).register (point "b") = .error e r ∧ r = after points := by
  have hbacked : ∀ s, .register s ∈ points → s.Backed := by
    intro s hs t ht
    simp only [points, List.mem_cons, Call.register.injEq, List.not_mem_nil, or_false,
      reduceCtorEq, or_self] at hs
    subst hs
    exact congrArg ShapeKind.concrete ht
  have hpoint : (after [.register (point "a")]).shape? "Point" = some (point "a") := rfl
  obtain ⟨-, -, -, -, -, hkept⟩ := consistent_after [.register (point "a")]
  obtain ⟨s, hs, hhost⟩ := hkept "Point" (point "a") hpoint
    [.register (point "a"), .allow "Shape"]
  obtain ⟨-, hnames, hrefuses, hunchanged, -⟩ := consistent_after points
  have hkind : s.kind = .concrete (some ⟨"a"⟩) := by
    have hwhence : empty.shape? "Point" = some s ∨ .register s ∈ points := shape?_run hs
    obtain h | h := hwhence
    · cases h
    · exact hbacked s h hhost
  have htaken : s.hostType? ≠ (point "b").hostType? := by
    rw [hhost]
    decide
  obtain ⟨e, r, he⟩ := (hrefuses (point "b")).2 (.inr (.inl ⟨s, hs, htaken⟩))
  exact ⟨hbacked, (hnames hbacked _ _).2 ⟨s, hs, hkind⟩, e, r, he, (hunchanged _ _ _ he).1⟩

/-- An interface with a host type, which no builder of shapes makes. -/
def hostedInterface : TypeShape Unit := ⟨"Shape", .interface, some ⟨"a"⟩, [], [], [], false⟩

/-- The shape of a type that is constructed from something that it has no property for. -/
def lossy : TypeShape Unit :=
  ⟨"Point", .concrete, some ⟨"a"⟩, [],
    [⟨[⟨"x", .primitive .int, false⟩], false, false, fun _ => .ok ()⟩], [], false⟩

/-- An interface with a host type is registered, so that its host type has the name of a shape that
is not concrete.  And a constructor may be chosen for a shape that is registered, although the shape
cannot be resolved, because a parameter has no property. -/
theorem not_consistent_after :
    (¬ ∀ (calls : List (Call Unit)) (t : HostType) (name : String),
      (after calls).nameOf? t = some name ↔
        ∃ s, (after calls).shape? name = some s ∧ s.kind = .concrete (some t)) ∧
    ¬ ∀ (calls : List (Call Unit)) (name : String) (s : TypeShape Unit),
      (after calls).shape? name = some s → ∃ resolved, s.resolve (after calls) = .ok resolved := by
  constructor
  · intro h
    have hname : (after [.register hostedInterface]).nameOf? ⟨"a"⟩ = some "Shape" := rfl
    obtain ⟨s, hs, hkind⟩ := (h _ _ _).1 hname
    have hstored : (after [.register hostedInterface]).shape? "Shape" = some hostedInterface := rfl
    cases hstored.symm.trans hs
    cases hkind
  · intro h
    obtain ⟨resolved, hresolved⟩ := h [.register lossy] "Point" lossy rfl
    cases hresolved

end Registry

end SelfDescribing
