import SelfDescribing.Codec.Object
import SelfDescribing.Proofs.Steps

namespace SelfDescribing

open Steps

/-!
# Codecs of shapes

What holds of a codec that was built from a shape: its fields have distinct names, and the
property at each position feeds the constructor's parameter at this position.

* `TypeShape.resolve_eq_ok` — the constructor and the properties that a shape is resolved to.
* `ObjectCodec.build_eq_ok`, `ObjectCodec.build_of_resolve`, `ObjectCodec.nodup_of_build` — the
  codec of a shape.

Building a codec is resolving the shape and wrapping up what comes out, so that everything is said
of `TypeShape.resolve` first.  Later proofs use the equivalences and do not unfold the search for
constructors and properties again.
-/

variable {ω : Type} {s : TypeShape ω} {r : Registry ω}

namespace TypeShape

/-- Checked names are distinct. -/
theorem nodup_of_checkNames (h : s.checkNames = .ok ()) :
    (s.properties.map (·.name)).Nodup ∧
      ∀ c ∈ s.constructors, (c.params.map (·.name)).Nodup := by
  unfold checkNames at h
  split at h
  · cases h
  · rename_i hproperties
    split at h
    · cases h
    · rename_i hparams
      refine ⟨firstRepeat?_eq_none_iff.1 hproperties, fun c hc => ?_⟩
      exact firstRepeat?_eq_none_iff.1 (List.findSome?_eq_none_iff.1 hparams c hc)

/-- The constructor that reading uses is one of the shape's. -/
theorem mem_of_constructor {c : Constructor ω} (h : s.constructor = .ok (some c)) :
    c ∈ s.constructors := by
  obtain ⟨index, -, h⟩ := except_bind_eq_ok.1 h
  obtain ⟨i, -, hi⟩ := Option.bind_eq_some_iff.1 (Except.ok.inj h)
  exact List.mem_of_getElem? hi

/-- A property that is found is one of the shape's, and has the name. -/
theorem mem_of_property? {name : String} {property : Property ω}
    (h : s.property? name = some property) : property ∈ s.properties ∧ property.name = name := by
  rw [property?] at h
  have hname := List.find?_some h
  exact ⟨List.mem_of_find?_eq_some h, of_decide_eq_true hname⟩

/-- The property that feeds a parameter has its name, can be read, and can be passed there. -/
theorem propertyFor_eq_ok {p : Param} {property : Property ω}
    (h : s.propertyFor r p = .ok property) : property ∈ s.properties ∧ property.name = p.name ∧
      property.getter.isSome = true ∧
      r.isAssignable property.type property.nullable p.type p.nullable = true := by
  unfold propertyFor at h
  split at h
  · cases h
  · rename_i found hfound
    split at h
    · cases h
    · rename_i hgetter
      split at h
      · cases h
      · rename_i hassignable
        cases h
        obtain ⟨hmem, hname⟩ := mem_of_property? hfound
        refine ⟨hmem, hname, ?_, ?_⟩
        · exact Option.isSome_iff_ne_none.2 (by simpa using hgetter)
        · simpa using hassignable

/-- The properties of parameters have the names of the parameters. -/
theorem names_of_propertyFor {params : List Param} {properties : List (Property ω)}
    (h : List.Forall₂ (fun p property => s.propertyFor r p = .ok property) params properties) :
    properties.map (·.name) = params.map (·.name) := by
  induction h with
  | nil => rfl
  | cons hp _ ih => rw [List.map_cons, List.map_cons, ih, (propertyFor_eq_ok hp).2.1]

/-- A shape is resolved to all its properties by name, or to those of a constructor's
parameters. -/
theorem resolve_eq_ok {resolved : ResolvedShape ω} (h : s.resolve r = .ok resolved) :
    s.checkNames = .ok () ∧
      ((resolved.constructor = none ∧
          resolved.properties = s.properties.mergeSort (fun a b => decide (a.name ≤ b.name))) ∨
        ∃ c ∈ s.constructors, resolved.constructor = some c ∧
          List.Forall₂ (fun p property => s.propertyFor r p = .ok property) c.params
            resolved.properties) := by
  obtain ⟨⟨⟩, hnames, h⟩ := except_bind_eq_ok.1 h
  obtain ⟨constructor, hconstructor, h⟩ := except_bind_eq_ok.1 h
  refine ⟨hnames, ?_⟩
  cases constructor with
  | none =>
    cases h
    exact .inl ⟨rfl, rfl⟩
  | some c =>
    obtain ⟨properties, hproperties, h⟩ := except_bind_eq_ok.1 h
    cases h
    exact .inr ⟨c, mem_of_constructor hconstructor, rfl, forall₂_of_except_mapM hproperties⟩

/-- A shape is resolved to the constructor that reading uses. -/
theorem constructor_of_resolve {resolved : ResolvedShape ω} (h : s.resolve r = .ok resolved) :
    s.constructor = .ok resolved.constructor := by
  obtain ⟨⟨⟩, -, h⟩ := except_bind_eq_ok.1 h
  obtain ⟨constructor, hconstructor, h⟩ := except_bind_eq_ok.1 h
  rw [hconstructor]
  cases constructor with
  | none =>
    cases h
    rfl
  | some c =>
    obtain ⟨properties, -, h⟩ := except_bind_eq_ok.1 h
    cases h
    rfl

/-- The preferred constructor is one of the constructors. -/
theorem preferred?_lt {index : Nat} (h : s.preferred? = some index) :
    index < s.constructors.length := by
  -- Marked and primary constructors are looked for in the list, and found in it.
  have hmark : ∀ {index}, (s.constructors.findIdx? (·.marked)).or
      (s.constructors.findIdx? (·.primary)) = some index → index < s.constructors.length := by
    intro index h
    obtain h | ⟨-, h⟩ := Option.or_eq_some_iff.1 h
    · exact (List.findIdx?_eq_some_iff_getElem.1 h).1
    · exact (List.findIdx?_eq_some_iff_getElem.1 h).1
  unfold preferred? at h
  dsimp only at h
  -- With one constructor there is no choice; of two, the one with parameters is preferred.
  split at h
  · rename_i hone
    cases h
    rw [hone]
    exact Nat.zero_lt_one
  · rename_i htwo
    split at h
    · cases h
      rw [htwo]
      exact Nat.one_lt_two
    · cases h
      rw [htwo]
      exact Nat.zero_lt_two
    · exact hmark h
  · exact hmark h

/-- Reading a concrete type uses a constructor. -/
theorem constructor_ne_none (hconcrete : s.kind.isConcrete = true) :
    s.constructor ≠ .ok none := by
  intro h
  obtain ⟨index, hindex, h⟩ := except_bind_eq_ok.1 h
  unfold constructorIndex at hindex
  rw [hconcrete] at hindex
  simp only [Bool.not_true, Bool.false_eq_true, if_false] at hindex
  split at hindex
  · cases hindex
  · split at hindex
    · rename_i i hpreferred
      cases hindex
      have hnone : s.constructors[i]? = none := Except.ok.inj h
      rw [List.getElem?_eq_getElem (preferred?_lt hpreferred)] at hnone
      cases hnone
    · cases hindex

end TypeShape

namespace ObjectCodec

variable {c : ObjectCodec ω}

/-- A default codec consists of what the shape is resolved to. -/
theorem build_eq_ok (h : build s r = .ok c) : ∃ resolved, s.resolve r = .ok resolved ∧
    c = ⟨s.hostType?, r.compositeOf s.name resolved.properties,
      resolved.properties.map .ofProperty, resolved.constructor⟩ := by
  obtain ⟨resolved, hresolved, h⟩ := except_bind_eq_ok.1 h
  cases h
  exact ⟨resolved, hresolved, rfl⟩

/-- The codec of a shape that resolves, and of which no other type is told. -/
theorem build_of_resolve {resolved : ResolvedShape ω} (hresolve : s.resolve r = .ok resolved)
    (hprovides : r.provides s.name = []) :
    build s r = .ok ⟨s.hostType?, ⟨s.name, none, [],
        objectDescriptor s.name (resolved.properties.map Property.field),
        resolved.properties.map Property.field⟩,
      resolved.properties.map .ofProperty, resolved.constructor⟩ := by
  rw [build, hresolve, ← hprovides]
  rfl

/-- A codec that is built from a shape has the shape's name. -/
theorem typeName_of_build (h : build s r = .ok c) : c.typeName = s.name := by
  obtain ⟨resolved, -, rfl⟩ := build_eq_ok h
  rfl

/-- The codec of a concrete type can read. -/
theorem constructor_of_build (h : build s r = .ok c) (hconcrete : s.kind.isConcrete = true) :
    ∃ k, c.constructor = some k := by
  obtain ⟨resolved, hresolved, rfl⟩ := build_eq_ok h
  cases hk : resolved.constructor with
  | some k => exact ⟨k, rfl⟩
  | none =>
    have hnone := TypeShape.constructor_of_resolve hresolved
    rw [hk] at hnone
    exact absurd hnone (TypeShape.constructor_ne_none hconcrete)

/-- The properties of a codec are among those of the shape. -/
theorem properties_of_build (h : build s r = .ok c) {p : PropertyCodec ω} (hp : p ∈ c.properties) :
    ∃ property ∈ s.properties, p = .ofProperty property := by
  obtain ⟨resolved, hresolved, rfl⟩ := build_eq_ok h
  obtain ⟨property, hproperty, rfl⟩ := List.mem_map.1 hp
  refine ⟨property, ?_, rfl⟩
  obtain ⟨-, ⟨-, hsorted⟩ | ⟨k, -, -, hproperties⟩⟩ := TypeShape.resolve_eq_ok hresolved
  · rw [hsorted] at hproperty
    exact List.mem_mergeSort.1 hproperty
  · obtain ⟨p, -, hfor⟩ := exists_of_forall₂ hproperties.flip hproperty
    exact (TypeShape.propertyFor_eq_ok hfor).1

/-- The fields of a codec are its properties. -/
theorem fields_of_build (h : build s r = .ok c) :
    c.composite.fields = c.properties.map PropertyCodec.field := by
  obtain ⟨resolved, -, rfl⟩ := build_eq_ok h
  show resolved.properties.map Property.field =
    (resolved.properties.map PropertyCodec.ofProperty).map PropertyCodec.field
  rw [List.map_map]
  rfl

/-- The fields of a codec have distinct names. -/
theorem nodup_of_build (h : build s r = .ok c) : c.composite.fieldNames.Nodup := by
  obtain ⟨resolved, hresolved, rfl⟩ := build_eq_ok h
  show ((resolved.properties.map Property.field).map (·.name)).Nodup
  rw [List.map_map]
  show (resolved.properties.map (·.name)).Nodup
  obtain ⟨hnames, ⟨-, hsorted⟩ | ⟨k, hk, -, hproperties⟩⟩ := TypeShape.resolve_eq_ok hresolved
  · have hperm := List.mergeSort_perm s.properties fun a b => decide (a.name ≤ b.name)
    rw [hsorted]
    exact (hperm.map (·.name)).nodup_iff.2 (TypeShape.nodup_of_checkNames hnames).1
  · rw [TypeShape.names_of_propertyFor hproperties]
    exact (TypeShape.nodup_of_checkNames hnames).2 k hk

end ObjectCodec

end SelfDescribing
