import SelfDescribing.Proofs.Codec.Reconciling
import SelfDescribing.Proofs.Registry.Registering

namespace SelfDescribing

open Steps

/-!
# Deriving the codec of a shape

What becomes of a registered shape when its codec is built, whatever registry it is built against.

* `TypeShape.Selects` — which constructor is selected; `TypeShape.constructor_eq_some_iff`.
* `TypeShape.Feeds` — a property feeds a parameter; `TypeShape.propertyFor_eq_ok_iff`.
* `TypeShape.resolve_reorder` — the order in which properties are declared does not matter.
* `ObjectCodec.build_of_register` — when a codec is built, and which fields it has.

The rules for choosing a constructor are stated here as a relation, with one constructor of
`Selects` for each rule, and not by the positions that the program searches for.  The equivalence of
the two is proved once, in `preferred?_bind_eq_some_iff`; what is said of built codecs uses the
rules only.
-/

variable {ω : Type} {s : TypeShape ω} {r : Registry ω}

/-! ### Lists -/

/-- The element at the first position of either kind is the first element of either kind. -/
theorem bind_getElem?_or_findIdx? {α : Type} (xs : List α) (p q : α → Bool) :
    ((xs.findIdx? p).or (xs.findIdx? q)).bind (xs[·]?) = (xs.find? p).or (xs.find? q) := by
  cases hp : xs.findIdx? p with
  | none =>
    have hnone : xs.find? p = none := by
      rw [List.find?_eq_bind_findIdx?_getElem?, hp, Option.bind_none]
    rw [Option.none_or, ← List.find?_eq_bind_findIdx?_getElem?, hnone, Option.none_or]
  | some i =>
    have hi : i < xs.length := (List.findIdx?_eq_some_iff_getElem.1 hp).1
    rw [List.find?_eq_bind_findIdx?_getElem?, hp, Option.some_or, Option.bind_some,
      List.getElem?_eq_getElem hi, Option.some_or]

/-- A list of steps fails with the error of one of them. -/
theorem exists_of_except_mapM_eq_error {ε α β : Type} {f : α → Except ε β} {xs : List α} {e : ε}
    (h : xs.mapM f = .error e) : ∃ x ∈ xs, f x = .error e := by
  by_cases hall : ∀ x ∈ xs, ∃ y, f x = .ok y
  · obtain ⟨ys, hys⟩ := except_mapM_eq_ok hall
    cases h.symm.trans hys
  · obtain ⟨before, x, after, rfl, hbefore, hx⟩ := exists_first_not hall
    refine ⟨x, List.mem_append_right _ List.mem_cons_self, ?_⟩
    cases hfx : f x with
    | ok y => exact absurd ⟨y, hfx⟩ hx
    | error e' =>
      cases h.symm.trans (except_mapM_eq_error hbefore hfx)
      rfl

namespace TypeShape

/-! ### The selected constructor -/

/-- The constructor that their number settles: the only one, or the one of two that takes arguments
when the other takes none. -/
inductive Settles (s : TypeShape ω) : Constructor ω → Prop
  | only {k} : s.constructors = [k] → Settles s k
  | other {empty k} : s.constructors = [empty, k] ∨ s.constructors = [k, empty] →
      empty.params = [] → k.params ≠ [] → Settles s k

/-- The constructor that reading uses: the one that is settled, else the only one that is marked,
else the first one that is primary. -/
inductive Selects (s : TypeShape ω) : Constructor ω → Prop
  | settled {k} : s.Settles k → Selects s k
  | marked {k} : (∀ k', ¬ s.Settles k') → s.markedConstructors = [k] → Selects s k
  | primary {k before after} : (∀ k', ¬ s.Settles k') → s.markedConstructors = [] →
      s.constructors = before ++ k :: after → k.primary = true →
      (∀ k' ∈ before, k'.primary = false) → Selects s k

variable {k k' : Constructor ω}

/-- At most one constructor is settled on by its parameters or by its marks. -/
theorem Settles.unique (h : s.Settles k) (h' : s.Settles k') : k' = k := by
  cases h with
  | only hk =>
    cases h' with
    | only hk' => simpa using hk'.symm.trans hk
    | other hk' _ _ => simp [hk] at hk'
  | other hk hempty hparams =>
    cases h' with
    | only hk' => simp [hk'] at hk
    | other hk' hempty' hparams' =>
      -- The one that takes no arguments is the same in both.
      obtain hk | hk := hk <;> obtain hk' | hk' := hk' <;> cases hk.symm.trans hk'
      · rfl
      · exact absurd hempty hparams'
      · exact absurd hempty hparams'
      · rfl

/-- Where one is settled on, no other is selected. -/
theorem selects_iff_of_settles (h : s.Settles k) : s.Selects k' ↔ k' = k := by
  constructor
  · rintro (hk | ⟨hnone, -⟩ | ⟨hnone, -⟩)
    · exact h.unique hk
    · exact absurd h (hnone k)
    · exact absurd h (hnone k)
  · rintro rfl
    exact .settled h

/-- If none is settled, the first marked one is preferred to the first primary one. -/
theorem selects_iff_of_not_settles (h : ∀ k', ¬ s.Settles k')
    (hmarked : s.markedConstructors.length ≤ 1) : s.Selects k ↔
      (s.constructors.find? (·.marked)).or (s.constructors.find? (·.primary)) = some k := by
  rw [← List.head?_filter, ← markedConstructors]
  cases hmarks : s.markedConstructors with
  | nil =>
    rw [List.head?_nil, Option.none_or, List.find?_eq_some_iff_append]
    constructor
    -- Without a mark, the first primary constructor is left.
    · rintro (hk | ⟨-, hk⟩ | ⟨-, -, hk, hprimary, hbefore⟩)
      · exact absurd hk (h k)
      · rw [hmarks] at hk
        cases hk
      · exact ⟨hprimary, _, _, hk, fun k' hk' => by rw [hbefore k' hk', Bool.not_false]⟩
    · rintro ⟨hprimary, before, after, hk, hbefore⟩
      exact .primary h hmarks hk hprimary fun k' hk' => by simpa using hbefore k' hk'
  | cons k₀ rest =>
    rw [hmarks, List.length_cons] at hmarked
    obtain rfl : rest = [] := List.length_eq_zero_iff.1 (by omega)
    rw [List.head?_cons, Option.some_or, Option.some_inj]
    constructor
    -- With one mark, that constructor is chosen, primary or not.
    · rintro (hk | ⟨-, hk⟩ | ⟨-, hk, -⟩)
      · exact absurd hk (h k)
      · rw [hmarks] at hk
        exact List.singleton_inj.1 hk
      · rw [hmarks] at hk
        cases hk
    · rintro rfl
      exact .marked h hmarks

/-- The preferred constructor is the selected one, if at most one is marked. -/
theorem preferred?_bind_eq_some_iff (hmarked : s.markedConstructors.length ≤ 1) :
    s.preferred?.bind (s.constructors[·]?) = some k ↔ s.Selects k := by
  -- Two branches leave the choice to the marks.
  have hunsettled (h : ∀ k', ¬ s.Settles k') :
      ((s.constructors.findIdx? (·.marked)).or (s.constructors.findIdx? (·.primary))).bind
        (s.constructors[·]?) = some k ↔ s.Selects k := by
    rw [bind_getElem?_or_findIdx?, selects_iff_of_not_settles h hmarked]
  unfold preferred?
  dsimp only
  split
  · rename_i only hone
    rw [selects_iff_of_settles (.only hone), hone]
    exact Option.some_inj.trans eq_comm
  · rename_i first second htwo
    split
    · rename_i hfirst hsecond
      have hsettles : s.Settles second :=
        .other (.inl htwo) (List.isEmpty_iff.1 hfirst) (by simpa using hsecond)
      rw [selects_iff_of_settles hsettles, htwo]
      exact Option.some_inj.trans eq_comm
    · rename_i hfirst hsecond
      have hsettles : s.Settles first :=
        .other (.inr htwo) (List.isEmpty_iff.1 hsecond) (by simpa using hfirst)
      rw [selects_iff_of_settles hsettles, htwo]
      exact Option.some_inj.trans eq_comm
    · -- Both of the two take arguments, or none does.
      rename_i hnot hnot'
      refine hunsettled fun k' hk' => ?_
      cases hk' with
      | only hone => simp [hone] at htwo
      | other htwo' hempty hparams =>
        obtain htwo' | htwo' := htwo' <;> cases htwo.symm.trans htwo'
        · exact hnot (by simpa using hempty) (by simpa using hparams)
        · exact hnot' (by simpa using hparams) (by simpa using hempty)
  · rename_i hone htwo
    refine hunsettled fun k' hk' => ?_
    cases hk' with
    | only hk => exact hone _ hk
    | other hk _ _ => exact hk.elim (htwo _ _) (htwo _ _)

/-- Objects of a concrete type are read with the constructor that is selected. -/
theorem constructor_eq_some_iff (hs : s.WellFormed) (hconcrete : s.kind.isConcrete = true) :
    s.constructor = .ok (some k) ↔ s.Selects k := by
  have hmarked := hs.marked hconcrete
  rw [← preferred?_bind_eq_some_iff hmarked, TypeShape.constructor, constructorIndex, hconcrete,
    if_neg (by decide), if_neg (Nat.not_lt.2 hmarked)]
  cases s.preferred? with
  | none =>
    constructor
    · intro h
      cases h
    · intro h
      cases h
  | some index => exact ⟨Except.ok.inj, congrArg Except.ok⟩

/-- Exactly one constructor is selected. -/
theorem WellFormed.exists_selects (hs : s.WellFormed) (hconcrete : s.kind.isConcrete = true) :
    ∃ k, s.Selects k ∧ ∀ k', s.Selects k' → k' = k := by
  obtain ⟨k, -, hk⟩ := hs.constructor hconcrete
  refine ⟨k, (constructor_eq_some_iff hs hconcrete).1 hk, fun k' hk' => ?_⟩
  have hsame := hk.symm.trans ((constructor_eq_some_iff hs hconcrete).2 hk')
  exact (Option.some.inj (Except.ok.inj hsame)).symm

/-! ### The properties of its parameters -/

/-- A property feeds a parameter: it has its name, can be read, and can be passed there. -/
structure Feeds (s : TypeShape ω) (r : Registry ω) (p : Param) (property : Property ω) : Prop where
  declared : property ∈ s.properties
  name_eq : property.name = p.name
  readable : property.getter.isSome = true
  assignable : r.isAssignable property.type property.nullable p.type p.nullable = true

/-- As names are distinct, the first property with a name is the one with this name. -/
theorem property?_eq_some_iff (hs : s.WellFormed) {name : String} {property : Property ω} :
    s.property? name = some property ↔ property ∈ s.properties ∧ property.name = name := by
  refine ⟨mem_of_property?, ?_⟩
  rintro ⟨hmem, rfl⟩
  cases h : s.property? property.name with
  | none =>
    have hother := List.find?_eq_none.1 h property hmem
    simp at hother
  | some found =>
    obtain ⟨hmem', hname⟩ := mem_of_property? h
    rw [List.inj_on_of_nodup_map hs.properties hmem' hmem hname]

/-- A property is found for a parameter exactly if it feeds the parameter. -/
theorem propertyFor_eq_ok_iff (hs : s.WellFormed) {p : Param} {property : Property ω} :
    s.propertyFor r p = .ok property ↔ s.Feeds r p property := by
  constructor
  · intro h
    obtain ⟨hmem, hname, hgetter, hassignable⟩ := propertyFor_eq_ok h
    exact ⟨hmem, hname, hgetter, hassignable⟩
  · intro h
    have hgetter : property.getter.isNone = false := by simpa using h.readable
    rw [propertyFor, (property?_eq_some_iff hs).2 ⟨h.declared, h.name_eq⟩]
    simp only [hgetter, h.assignable, Bool.not_true, Bool.false_eq_true, if_false]

/-- A parameter that no property feeds is told with the shape. -/
theorem propertyFor_eq_error {p : Param} {e : Error} (h : s.propertyFor r p = .error e) :
    ∃ fault, e = .propertyMismatch s.name p.name fault := by
  unfold propertyFor at h
  split at h
  · cases h
    exact ⟨_, rfl⟩
  · split at h
    · cases h
      exact ⟨_, rfl⟩
    · split at h
      · cases h
        exact ⟨_, rfl⟩
      · cases h

/-! ### Resolving -/

/-- The properties of a shape, sorted by name. -/
def sorted (s : TypeShape ω) : List (Property ω) :=
  s.properties.mergeSort (fun a b => decide (a.name ≤ b.name))

/-- Sorted properties come in the order of their names. -/
theorem pairwise_sorted (s : TypeShape ω) : s.sorted.Pairwise (fun a b => a.name ≤ b.name) := by
  have hpairwise : s.sorted.Pairwise (fun a b => decide (a.name ≤ b.name) = true) := by
    refine List.pairwise_mergeSort (fun a b c hab hbc => ?_) (fun a b => ?_) s.properties
    · rw [decide_eq_true_eq] at hab hbc ⊢
      exact String.le_trans hab hbc
    · rw [Bool.or_eq_true, decide_eq_true_eq, decide_eq_true_eq]
      exact String.le_total a.name b.name
  exact hpairwise.imp of_decide_eq_true

/-- Sorted by name, no two properties of a shape have one place. -/
theorem sorted_lt (hs : s.WellFormed) : s.sorted.Pairwise (fun a b => a.name < b.name) := by
  have hnames : (s.sorted.map (·.name)).Nodup :=
    ((List.mergeSort_perm s.properties _).map (·.name)).nodup_iff.2 hs.properties
  rw [List.nodup_iff_pairwise_ne, List.pairwise_map] at hnames
  refine (s.pairwise_sorted.and hnames).imp ?_
  rintro a b ⟨hle, hne⟩
  exact String.not_le.1 fun hge => hne (String.le_antisymm hle hge)

/-- A shape without objects is resolved to its properties in sorted order. -/
theorem resolve_of_not_concrete (hs : s.WellFormed) (h : s.kind.isConcrete = false) :
    s.resolve r = .ok ⟨none, s.sorted⟩ := by
  have hnone : s.constructor = .ok none := by
    rw [TypeShape.constructor, constructorIndex, h]
    rfl
  rw [resolve, checkNames_eq_ok_iff.2 ⟨hs.properties, hs.params⟩, hnone]
  rfl

/-- A concrete shape is resolved by finding a property for each parameter. -/
theorem resolve_of_selects (hs : s.WellFormed) (hconcrete : s.kind.isConcrete = true)
    (hk : s.Selects k) :
    s.resolve r = (k.params.mapM (s.propertyFor r)).map (⟨some k, ·⟩) := by
  rw [resolve, checkNames_eq_ok_iff.2 ⟨hs.properties, hs.params⟩,
    (constructor_eq_some_iff hs hconcrete).2 hk]
  show (k.params.mapM (s.propertyFor r) >>= fun properties =>
    .ok (ResolvedShape.mk (some k) properties)) = _
  cases k.params.mapM (s.propertyFor r) <;> rfl

/-- A well-formed shape that is not resolved has a parameter without a property that fits. -/
theorem resolve_eq_error (hs : s.WellFormed) {e : Error} (h : s.resolve r = .error e) :
    ∃ property fault, e = .propertyMismatch s.name property fault := by
  cases hconcrete : s.kind.isConcrete with
  | false =>
    rw [resolve_of_not_concrete hs hconcrete] at h
    cases h
  | true =>
    obtain ⟨k, hk, -⟩ := hs.exists_selects hconcrete
    rw [resolve_of_selects hs hconcrete hk] at h
    cases hall : k.params.mapM (s.propertyFor r) with
    | ok properties =>
      rw [hall] at h
      cases h
    | error e' =>
      rw [hall] at h
      cases h
      obtain ⟨p, -, hp⟩ := exists_of_except_mapM_eq_error hall
      obtain ⟨fault, he⟩ := propertyFor_eq_error hp
      exact ⟨p.name, fault, he⟩

/-! ### The order of declaration -/

/-- The shape with its properties declared in another order. -/
theorem WellFormed.reorder (hs : s.WellFormed) {properties : List (Property ω)}
    (hperm : properties.Perm s.properties) : WellFormed { s with properties } where
  properties := (hperm.map (·.name)).nodup_iff.2 hs.properties
  params := hs.params
  marked := hs.marked
  constructor := hs.constructor

/-- Sorting does not depend on the order of declaration. -/
theorem sorted_reorder (hs : s.WellFormed) {properties : List (Property ω)}
    (hperm : properties.Perm s.properties) : sorted { s with properties } = s.sorted := by
  have hboth : (sorted { s with properties }).Perm s.sorted :=
    (List.mergeSort_perm _ _).trans (hperm.trans (List.mergeSort_perm _ _).symm)
  refine List.Perm.eq_of_pairwise (fun a b ha hb hab hba => ?_) (pairwise_sorted _)
    (pairwise_sorted _) hboth
  -- Properties of one name are one property.
  have ha : a ∈ s.properties := List.mem_mergeSort.1 (hboth.mem_iff.1 ha)
  exact List.inj_on_of_nodup_map hs.properties ha (List.mem_mergeSort.1 hb)
    (String.le_antisymm hab hba)

/-- Finding properties by name does not either. -/
theorem propertyFor_reorder (hs : s.WellFormed) {properties : List (Property ω)}
    (hperm : properties.Perm s.properties) (r : Registry ω) (p : Param) :
    propertyFor { s with properties } r p = s.propertyFor r p := by
  have hfound : property? { s with properties } p.name = s.property? p.name := by
    refine Option.ext fun property => ?_
    rw [property?_eq_some_iff (hs.reorder hperm), property?_eq_some_iff hs]
    exact and_congr_left' hperm.mem_iff
  simp only [propertyFor, hfound]

/-- Shapes that differ in the order of their properties are resolved alike. -/
theorem resolve_reorder (hs : s.WellFormed) {properties : List (Property ω)}
    (hperm : properties.Perm s.properties) (r : Registry ω) :
    resolve { s with properties } r = s.resolve r := by
  cases hconcrete : s.kind.isConcrete with
  | false =>
    rw [resolve_of_not_concrete hs hconcrete, resolve_of_not_concrete (hs.reorder hperm) hconcrete,
      sorted_reorder hs hperm]
  | true =>
    obtain ⟨k, hk, -⟩ := hs.exists_selects hconcrete
    -- Which constructor is selected does not depend on the properties.
    have hk' : Selects { s with properties } k :=
      (constructor_eq_some_iff (hs.reorder hperm) hconcrete).1
        ((constructor_eq_some_iff hs hconcrete).2 hk)
    rw [resolve_of_selects hs hconcrete hk, resolve_of_selects (hs.reorder hperm) hconcrete hk',
      funext (propertyFor_reorder hs hperm r)]

end TypeShape

namespace ObjectCodec

/-- The codec of a resolved shape. -/
def ofResolved (s : TypeShape ω) (r : Registry ω) (resolved : ResolvedShape ω) : ObjectCodec ω :=
  ⟨s.hostType?, r.compositeOf s.name resolved.properties,
    resolved.properties.map .ofProperty, resolved.constructor⟩

/-- A default codec is built exactly where the shape is resolved. -/
theorem build_eq_map (s : TypeShape ω) (r : Registry ω) :
    build s r = (s.resolve r).map (ofResolved s r) := by
  rw [build]
  cases s.resolve r <;> rfl

/-- A codec is built from the shape of a concrete type if each parameter of the selected constructor
is fed, with the properties that feed them. -/
theorem build_eq_ok_iff (hs : s.WellFormed) (hconcrete : s.kind.isConcrete = true)
    {k : Constructor ω} (hk : s.Selects k) {c : ObjectCodec ω} :
    build s r = .ok c ↔ ∃ properties, List.Forall₂ (s.Feeds r) k.params properties ∧
      c = ofResolved s r ⟨some k, properties⟩ := by
  have hfeeds : s.Feeds r = fun p property => s.propertyFor r p = .ok property :=
    funext₂ fun p property => propext (TypeShape.propertyFor_eq_ok_iff hs).symm
  simp only [hfeeds, ← except_mapM_eq_ok_iff]
  rw [build_eq_map, TypeShape.resolve_of_selects hs hconcrete hk]
  cases k.params.mapM (s.propertyFor r) with
  | error e => exact iff_of_false nofun nofun
  | ok properties =>
    constructor
    · rintro ⟨⟩
      exact ⟨properties, rfl, rfl⟩
    · rintro ⟨properties, ⟨⟩, rfl⟩
      rfl

/-- A codec is built from a registered shape, or a property does not fit.  For a concrete type the
properties have to feed the parameters of the selected constructor, and they are the fields in the
order of these.  For another type all properties are the fields, sorted by name.  The order in which
they are declared does not matter. -/
theorem build_of_register {earlier later : Registry ω} (h : earlier.register s = .ok () later) :
    (∀ r e, build s r = .error e →
      ∃ property fault, e = .propertyMismatch s.name property fault) ∧
    (s.kind.isConcrete = true → ∃ k, s.Selects k ∧ (∀ k', s.Selects k' → k' = k) ∧
      ∀ r, ((∃ c, build s r = .ok c) ↔ ∀ p ∈ k.params, ∃ property, s.Feeds r p property) ∧
        ∀ c, build s r = .ok c → c.constructor = some k ∧ c.composite.fieldNames.Nodup ∧
          ∃ properties, List.Forall₂ (s.Feeds r) k.params properties ∧
            c.properties = properties.map .ofProperty ∧
            c.composite.fields = properties.map fun p => ⟨p.name, p.type.text, !p.nullable⟩) ∧
    (s.kind.isConcrete = false → ∃ fields,
      fields.Perm (s.properties.map fun p => ⟨p.name, p.type.text, !p.nullable⟩) ∧
        fields.Pairwise (fun f g => f.name < g.name) ∧
        ∀ r, ∃ c, build s r = .ok c ∧ c.composite.fields = fields ∧
          c.composite.descriptor = objectDescriptor s.name fields) ∧
    ∀ properties, properties.Perm s.properties →
      ∀ r, build { s with properties } r = build s r := by
  obtain ⟨hs, -, -⟩ := Registry.register_eq_ok_iff.1 h
  refine ⟨fun r e he => ?_, fun hconcrete => ?_, fun hconcrete => ?_, fun properties hperm r => ?_⟩
  -- Building fails only in resolving the shape.
  · rw [build_eq_map] at he
    cases hresolve : s.resolve r with
    | ok resolved =>
      rw [hresolve] at he
      cases he
    | error e' =>
      rw [hresolve] at he
      cases he
      exact TypeShape.resolve_eq_error hs hresolve
  -- The constructor is chosen without looking at the registry, which decides only whether its
  -- parameters are fed.
  · obtain ⟨k, hk, hunique⟩ := hs.exists_selects hconcrete
    refine ⟨k, hk, hunique, fun r => ⟨⟨?_, fun hfed => ?_⟩, fun c hc => ?_⟩⟩
    · rintro ⟨c, hc⟩ p hp
      obtain ⟨properties, hfeeds, -⟩ := (build_eq_ok_iff hs hconcrete hk).1 hc
      obtain ⟨property, -, hproperty⟩ := exists_of_forall₂ hfeeds hp
      exact ⟨property, hproperty⟩
    · obtain ⟨properties, hfeeds⟩ := exists_forall₂ hfed
      exact ⟨_, (build_eq_ok_iff hs hconcrete hk).2 ⟨properties, hfeeds, rfl⟩⟩
    · have hnodup := nodup_of_build hc
      obtain ⟨properties, hfeeds, rfl⟩ := (build_eq_ok_iff hs hconcrete hk).1 hc
      exact ⟨rfl, hnodup, properties, hfeeds, rfl, rfl⟩
  -- Without a constructor the properties are told in the order of their names.
  · refine ⟨s.sorted.map Property.field, (List.mergeSort_perm _ _).map _, ?_, fun r => ?_⟩
    · exact List.pairwise_map.2 (TypeShape.sorted_lt hs)
    · refine ⟨ofResolved s r ⟨none, s.sorted⟩, ?_, rfl, rfl⟩
      rw [build_eq_map, TypeShape.resolve_of_not_concrete hs hconcrete]
      rfl
  -- Neither way depends on the order in which the properties are registered.
  · rw [build_eq_map, build_eq_map, TypeShape.resolve_reorder hs hperm]
    rfl

/-- The shape of gauges, with the unit declared in front of the amount that the constructor takes
first. -/
def gauge : TypeShape Unit where
  name := "Gauge"
  form := .concrete
  hostType? := some ⟨"Gauge"⟩
  properties := [⟨"unit", .primitive .string, false, some fun _ => .ok .null⟩,
    ⟨"amount", .primitive .int, false, some fun _ => .ok .null⟩]
  constructors := [⟨[], false, true, fun _ => .ok ()⟩,
    ⟨[⟨"amount", .primitive .int, true⟩, ⟨"unit", .any, false⟩], false, false, fun _ => .ok ()⟩]
  supertypes := []
  serializable := false

/-- Gauges have the fields of their parameters, in this order. -/
theorem build_of_register_gauge : ∃ later, Registry.empty.register gauge = .ok () later ∧
    ∃ c, build gauge Registry.empty = .ok c ∧ c.composite.fieldNames = ["amount", "unit"] := by
  have hregister : Registry.empty.register gauge = .ok () (Registry.empty.store gauge) := rfl
  refine ⟨_, hregister, ?_⟩
  obtain ⟨-, hconcrete, -⟩ := build_of_register hregister
  obtain ⟨k, -, hunique, hbuild⟩ := hconcrete rfl
  -- The other constructor takes no arguments.
  obtain rfl := hunique _ (.settled (.other (.inl rfl) rfl (List.cons_ne_nil _ _)))
  obtain ⟨hsucceeds, hfields⟩ := hbuild Registry.empty
  have hamount :
      ∃ property, gauge.Feeds Registry.empty ⟨"amount", .primitive .int, true⟩ property :=
    ⟨_, List.mem_cons_of_mem _ List.mem_cons_self, rfl, rfl, rfl⟩
  have hunit : ∃ property, gauge.Feeds Registry.empty ⟨"unit", .any, false⟩ property :=
    ⟨_, List.mem_cons_self, rfl, rfl, rfl⟩
  obtain ⟨c, hc⟩ := hsucceeds.2 (List.forall_mem_cons.2 ⟨hamount,
    List.forall_mem_cons.2 ⟨hunit, List.forall_mem_nil _⟩⟩)
  obtain ⟨-, -, properties, hfeeds, -, hc'⟩ := hfields c hc
  refine ⟨c, hc, ?_⟩
  obtain _ | ⟨hfirst, _ | ⟨hsecond, _ | _⟩⟩ := hfeeds
  rw [CompositeType.fieldNames, hc']
  simp only [List.map_cons, List.map_nil, hfirst.name_eq, hsecond.name_eq]

end ObjectCodec

end SelfDescribing
