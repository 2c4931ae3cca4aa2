import Mathlib.Data.List.Nodup
import SelfDescribing.Proofs.Codec.Evolving

namespace SelfDescribing

open Steps

/-!
# Reconciling an old shape with the live one

An old composite and the live codec are reconciled by the names of fields and parameters, whatever
their order and number on either side.

* `CompositeType.Feeds` — an old shape has what a live parameter needs.
* `CompositeType.Argument` — what a live parameter is given from an old body.
* `EvolutionCodec.make_reconciles` — which old shapes can be read, and how their bodies are read.

`make` looks for the source of each parameter and fails at the first one without.  The relation
`Feeds` says for one parameter what the search does, and the whole is a list of such statements; no
induction on the parameters is needed beyond the one in `mapM`.
-/

variable {ω : Type}

/-! ### Lists of steps -/

/-- Where not all items have a property there is a first one without it. -/
theorem exists_first_not {α : Type} {P : α → Prop} {xs : List α} (h : ¬ ∀ x ∈ xs, P x) :
    ∃ before x after, xs = before ++ x :: after ∧ (∀ y ∈ before, P y) ∧ ¬ P x := by
  induction xs with
  | nil => exact absurd (List.forall_mem_nil P) h
  | cons x xs ih =>
    by_cases hx : P x
    · have hrest : ¬ ∀ y ∈ xs, P y := fun hall => h (List.forall_mem_cons.2 ⟨hx, hall⟩)
      obtain ⟨before, y, after, rfl, hbefore, hy⟩ := ih hrest
      exact ⟨x :: before, y, after, rfl, List.forall_mem_cons.2 ⟨hx, hbefore⟩, hy⟩
    · exact ⟨[], x, xs, rfl, List.forall_mem_nil P, hx⟩

/-- A list of steps fails with the error of the first step that fails. -/
theorem except_mapM_eq_error {ε α β : Type} {f : α → Except ε β} {before after : List α} {x : α}
    {e : ε} (hbefore : ∀ y ∈ before, ∃ b, f y = .ok b) (hx : f x = .error e) :
    (before ++ x :: after).mapM f = .error e := by
  obtain ⟨bs, hbs⟩ := except_mapM_eq_ok hbefore
  rw [List.mapM_append, hbs, List.mapM_cons, hx]
  rfl

/-! ### What a parameter needs, and what it is given -/

namespace CompositeType

variable {old : CompositeType}

/-- An old field of the parameter's name can be passed there, or there is none and the parameter
takes null. -/
def Feeds (old : CompositeType) (r : Registry ω) (p : Param) : Prop :=
  (∃ f ∈ old.fields, f.name = p.name ∧ r.isTypeAssignable (.parse f.type) p.type = true ∧
      (f.mandatory = false → p.nullable = true)) ∨
    ((∀ f ∈ old.fields, f.name ≠ p.name) ∧ p.nullable = true)

/-- The reading of a parameter's argument from the items of an old body: the item at the position of
the old field of its name, by the type that this field declares, or null if there is no such
field. -/
inductive Argument (old : CompositeType) (schema : Schema) (items : List (Value ω)) (p : Param) :
    Reading ω (Value ω) → Prop
  | field {i : Nat} {f : Field} {v : Value ω} (at_old : old.fields[i]? = some f)
      (same_name : f.name = p.name) (at_item : items[i]? = some v) :
      Argument old schema items p ((PropertyCodec.ofField f).read schema v)
  | absent (no_field : ∀ f ∈ old.fields, f.name ≠ p.name) :
      Argument old schema items p (pure .null)

end CompositeType

namespace EvolutionCodec

variable {old : CompositeType} {live : ObjectCodec ω} {s : TypeShape ω} {r r₀ : Registry ω}
  {k : Constructor ω} {x : EvolutionCodec ω}

/-! ### What can be reconciled -/

/-- A field can be assigned to a parameter if its type can and it is not nullable alone. -/
theorem isAssignable_field {f : Field} {p : Param} :
    r.isAssignable (.parse f.type) (!f.mandatory) p.type p.nullable = true ↔
      r.isTypeAssignable (.parse f.type) p.type = true ∧
        (f.mandatory = false → p.nullable = true) := by
  rw [Registry.isAssignable, Bool.and_eq_true, Bool.not_not, Bool.or_eq_true, and_comm]
  cases f.mandatory <;> simp

/-- A parameter is fed, or it is the reason why the old shape cannot be read. -/
theorem sourceFor_cases (hnames : old.fieldNames.Nodup) (r : Registry ω) (typeName : String)
    (p : Param) :
    (old.Feeds r p ∧ ∃ source, sourceFor r typeName (oldFieldsOf old) p = .ok source) ∨
      (¬ old.Feeds r p ∧ ∃ reason, sourceFor r typeName (oldFieldsOf old) p =
        .error (.incompatible typeName p.name reason)) := by
  obtain ⟨hnone, hold⟩ | ⟨y, i, hy, -, hold⟩ :=
    oldField?_cases (ω := ω) (map_bare old.fields) p.name
  · -- No old field has the name, so that null has to do.
    have hbare : ((bare (ω := ω) old.fields).map (·.1.name)).Nodup := by
      rw [names_bare]
      exact hnames
    have habsent : ∀ f ∈ old.fields, f.name ≠ p.name := by
      intro f hf hname
      have hfound : fieldNamed? (bare (ω := ω) old.fields) f.name = some (f, .null) :=
        fieldNamed?_of_mem hbare (List.mem_map.2 ⟨f, hf, rfl⟩)
      cases (hname ▸ hfound).symm.trans hnone
    rw [oldField?] at hold
    rw [sourceFor, hold]
    by_cases hnullable : p.nullable = true
    · exact .inl ⟨.inr ⟨habsent, hnullable⟩, none, by simp only [hnullable, if_true]⟩
    · refine .inr ⟨?_, .absent, by simp only [hnullable]; rfl⟩
      rintro (⟨f, hf, hname, -⟩ | ⟨-, h⟩)
      · exact habsent f hf hname
      · exact hnullable h
  · -- The names of old fields are distinct, so that the field is the only one of the name.
    obtain ⟨hmem, hname⟩ := fieldNamed?_eq_some hy
    obtain ⟨f, hf, rfl⟩ := List.mem_map.1 hmem
    rw [oldField?] at hold
    rw [sourceFor, hold]
    dsimp only [PropertyCodec.ofField]
    by_cases hpasses : r.isAssignable (.parse f.type) (!f.mandatory) p.type p.nullable = true
    · rw [if_pos hpasses]
      exact .inl ⟨.inl ⟨f, hf, hname, isAssignable_field.1 hpasses⟩, _, rfl⟩
    · rw [if_neg hpasses]
      refine .inr ⟨?_, _, rfl⟩
      rintro (⟨g, hg, hname', hfeeds⟩ | ⟨habsent, -⟩)
      · have hsame : g = f :=
          List.inj_on_of_nodup_map hnames hg hf (hname'.trans hname.symm)
        exact hpasses (isAssignable_field.2 (hsame ▸ hfeeds))
      · exact habsent f hf hname

/-- An older shape can be read exactly if there is a constructor and its fields feed each parameter.
-/
theorem make_eq_ok_iff_feeds (hnames : old.fieldNames.Nodup) :
    (∃ x, make old live r = .ok x) ↔
      ∃ k, live.constructor = some k ∧ ∀ p ∈ k.params, old.Feeds r p := by
  constructor
  -- Making succeeds only if every parameter has a source, which it has only if it is fed.
  · rintro ⟨x, hmake⟩
    unfold make at hmake
    split at hmake
    · cases hmake
    · rename_i k hk
      obtain ⟨sources, hsources, -⟩ := except_bind_eq_ok.1 hmake
      refine ⟨k, hk, fun p hp => ?_⟩
      obtain ⟨source, -, hsource⟩ := exists_of_forall₂ (forall₂_of_except_mapM hsources) hp
      obtain ⟨hfed, -⟩ | ⟨-, reason, hreason⟩ := sourceFor_cases hnames r live.typeName p
      · exact hfed
      · cases hsource.symm.trans hreason
  · rintro ⟨k, hk, hfed⟩
    have hsources : ∀ p ∈ k.params,
        ∃ source, sourceFor r live.typeName (oldFieldsOf old) p = .ok source := by
      intro p hp
      obtain ⟨-, hsource⟩ | ⟨hnot, -⟩ := sourceFor_cases hnames r live.typeName p
      · exact hsource
      · exact absurd (hfed p hp) hnot
    obtain ⟨x, hmake, -⟩ := make_of_sources hk hsources
    exact ⟨x, hmake⟩

/-- The first parameter that is not fed is named in the error. -/
theorem make_eq_incompatible (hnames : old.fieldNames.Nodup) (hk : live.constructor = some k)
    (hnot : ¬ ∀ p ∈ k.params, old.Feeds r p) :
    ∃ before p after reason, k.params = before ++ p :: after ∧
      (∀ q ∈ before, old.Feeds r q) ∧ ¬ old.Feeds r p ∧
        make old live r = .error (.incompatible live.typeName p.name reason) := by
  obtain ⟨before, p, after, hparams, hbefore, hp⟩ := exists_first_not hnot
  obtain ⟨hfed, -⟩ | ⟨-, reason, hreason⟩ := sourceFor_cases hnames r live.typeName p
  · exact absurd hfed hp
  refine ⟨before, p, after, reason, hparams, hbefore, hp, ?_⟩
  have hsources : ∀ q ∈ before,
      ∃ source, sourceFor r live.typeName (oldFieldsOf old) q = .ok source := by
    intro q hq
    obtain ⟨-, hsource⟩ | ⟨hnot, -⟩ := sourceFor_cases hnames r live.typeName q
    · exact hsource
    · exact absurd (hbefore q hq) hnot
  rw [make, hk]
  dsimp only
  rw [hparams, except_mapM_eq_error hsources hreason]
  rfl

/-! ### What is read -/

/-- A codec that reads each argument from the item of the old field of the parameter's name, and
nothing else. -/
structure ReadsByName (x : EvolutionCodec ω) (old : CompositeType) (k : Constructor ω) : Prop where
  /-- The constructor is handed one argument for each parameter, in order. -/
  arguments : ∀ (schema : Schema) {items : List (Value ω)}, items.length = old.fields.length →
    ∃ readings, List.Forall₂ (old.Argument schema items) k.params readings ∧
      x.read schema (.list items) = readings.mapM id >>= fun args => k.build args
  /-- The items of fields that no parameter has the name of do not matter. -/
  dropped : ∀ (schema : Schema) {items items' : List (Value ω)},
    items.length = old.fields.length → items'.length = old.fields.length →
    (∀ (i : Nat) (f : Field), old.fields[i]? = some f → (∃ p ∈ k.params, p.name = f.name) →
      items[i]? = items'[i]?) →
      x.read schema (.list items) = x.read schema (.list items')
  /-- All else than a list of one item for each old field is refused. -/
  misfit : ∀ (schema : Schema) {body : Value ω}, ¬ body.HasItems old.fields.length →
    ∃ e, x.read schema body = throw (.malformed e)

/-- What is read by name is the argument of a parameter. -/
theorem argument_readNamed {schema : Schema} {items : List (Value ω)}
    (hnames : old.fieldNames.Nodup) (hlength : items.length = old.fields.length) (p : Param) :
    old.Argument schema items p (readNamed schema (old.fields.zip items) p.name) := by
  have hnodup : ((old.fields.zip items).map (·.1.name)).Nodup := by
    rw [names_zip hlength]
    exact hnames
  rw [readNamed]
  cases hfound : fieldNamed? (old.fields.zip items) p.name with
  | some y =>
    obtain ⟨hmem, hname⟩ := fieldNamed?_eq_some hfound
    obtain ⟨i, hi⟩ := List.mem_iff_getElem?.1 hmem
    obtain ⟨hfield, hitem⟩ := List.getElem?_zip_eq_some.1 hi
    exact .field hfield hname hitem
  | none =>
    refine .absent fun f hf hname => ?_
    rw [← fields_zip hlength] at hf
    obtain ⟨y, hy, rfl⟩ := List.mem_map.1 hf
    have hfind := fieldNamed?_of_mem hnodup hy
    rw [hname, hfound] at hfind
    cases hfind

/-- By names whose items agree, the same is found. -/
theorem fieldNamed?_of_agree {items items' : List (Value ω)} {name : String}
    (hnames : old.fieldNames.Nodup) (hlength : items.length = old.fields.length)
    (hlength' : items'.length = old.fields.length)
    (hagree : ∀ (i : Nat) (f : Field), old.fields[i]? = some f → f.name = name →
      items[i]? = items'[i]?) :
    fieldNamed? (old.fields.zip items) name = fieldNamed? (old.fields.zip items') name := by
  -- One direction is enough, as the two lists play the same part.
  have hfound : ∀ {items items' : List (Value ω)} {y},
      items'.length = old.fields.length →
      (∀ (i : Nat) (f : Field), old.fields[i]? = some f → f.name = name →
        items[i]? = items'[i]?) →
      fieldNamed? (old.fields.zip items) name = some y →
        fieldNamed? (old.fields.zip items') name = some y := by
    intro items items' y hlength' hagree hy
    obtain ⟨hmem, hname⟩ := fieldNamed?_eq_some hy
    obtain ⟨i, hi⟩ := List.mem_iff_getElem?.1 hmem
    obtain ⟨hfield, hitem⟩ := List.getElem?_zip_eq_some.1 hi
    rw [hagree i y.1 hfield hname] at hitem
    have hmem' : y ∈ old.fields.zip items' :=
      List.mem_of_getElem? (List.getElem?_zip_eq_some.2 ⟨hfield, hitem⟩)
    rw [← hname]
    exact fieldNamed?_of_mem (by rwa [names_zip hlength']) hmem'
  cases hy : fieldNamed? (old.fields.zip items) name with
  | some y => exact (hfound hlength' hagree hy).symm
  | none =>
    cases hy' : fieldNamed? (old.fields.zip items') name with
    | none => rfl
    | some y =>
      have hback := hfound hlength (fun i f hf hname => (hagree i f hf hname).symm) hy'
      cases hy.symm.trans hback

/-- The codec of an older shape reads the fields by the names of the parameters. -/
theorem readsByName (hnames : old.fieldNames.Nodup) (hbuild : ObjectCodec.build s r₀ = .ok live)
    (hmake : make old live r = .ok x) (hk : live.constructor = some k) : x.ReadsByName old k := by
  have hparams := (ObjectCodec.params_of_build hbuild hk).1
  -- The codec reads by position, and the positions were found by name.
  have hread : ∀ schema {items : List (Value ω)}, items.length = old.fields.length →
      x.read schema (.list items) = k.readNamed schema (old.fields.zip items) := by
    intro schema items hlength
    have hread := read_named hmake hk hparams (fields_zip hlength).symm schema
    rwa [items_zip hlength] at hread
  have hold : x.composite = old := by
    obtain ⟨k', -, rfl⟩ := make_eq_ok hmake
    rfl
  refine ⟨fun schema items hlength => ?_, fun schema items items' hlength hlength' hagree => ?_,
    fun schema body hbody => read_misfit (hold ▸ hbody) schema⟩
  · refine ⟨k.params.map fun p => readNamed schema (old.fields.zip items) p.name, ?_, ?_⟩
    · rw [List.forall₂_map_right_iff, List.forall₂_same]
      exact fun p _ => argument_readNamed hnames hlength p
    · rw [hread schema hlength, Constructor.readNamed, List.mapM_map, List.mapM_map]
      rfl
  -- Bodies that agree on the fields of parameters agree on all that is looked up.
  · have hsame : ∀ name ∈ k.params.map (·.name), fieldNamed? (old.fields.zip items) name =
        fieldNamed? (old.fields.zip items') name := by
      intro name hname
      obtain ⟨p, hp, rfl⟩ := List.mem_map.1 hname
      exact fieldNamed?_of_agree hnames hlength hlength' fun i f hf hsame =>
        hagree i f hf ⟨p, hp, hsame.symm⟩
    rw [hread schema hlength, hread schema hlength', Constructor.readNamed, Constructor.readNamed]
    congr 1
    refine mapM_eq_of_forall₂ (List.forall₂_same.2 fun name hname => ?_)
    rw [readNamed, readNamed, hsame name hname]

/-- An old shape can be read exactly if the live type has a constructor all of whose parameters are
fed, and is then read by name; else the first parameter that is not fed is named. -/
theorem make_reconciles (hnames : old.fieldNames.Nodup)
    (hbuild : ObjectCodec.build s r₀ = .ok live) (r : Registry ω) :
    ((∃ x, make old live r = .ok x) ↔
      ∃ k, live.constructor = some k ∧ ∀ p ∈ k.params, old.Feeds r p) ∧
    (∀ k, live.constructor = some k → (¬ ∀ p ∈ k.params, old.Feeds r p) →
      ∃ before p after reason, k.params = before ++ p :: after ∧
        (∀ q ∈ before, old.Feeds r q) ∧ ¬ old.Feeds r p ∧
          make old live r = .error (.incompatible live.typeName p.name reason)) ∧
    ∀ x, make old live r = .ok x →
      ∃ k, live.constructor = some k ∧ x.ReadsByName old k := by
  refine ⟨make_eq_ok_iff_feeds hnames, fun k hk hnot => make_eq_incompatible hnames hk hnot,
    fun x hmake => ?_⟩
  obtain ⟨k, hk, -⟩ := make_eq_ok hmake
  exact ⟨k, hk, readsByName hnames hbuild hmake hk⟩

/-! ### Parcels, whose old shape has other fields in another order -/

namespace Parcels

/-- A parcel; its note and its sender may be missing. -/
structure Parcel where
  weight : Int32
  note : Option String
  sender : Option String

/-- A parcel from its weight, note and sender. -/
def parcelOf : List (Value Parcel) → Except Error Parcel
  | [.int weight, .string note, .null] => .ok ⟨weight, some note, none⟩
  | [.int weight, .null, .null] => .ok ⟨weight, none, none⟩
  | args => .error (.malformed (.argumentOutOfRange args.length 3))

/-- The constructor of parcels. -/
def parcelConstructor : Constructor Parcel :=
  ⟨[⟨"weight", .primitive .int, false⟩, ⟨"note", .primitive .string, true⟩,
    ⟨"sender", .primitive .string, true⟩], false, true, parcelOf⟩

/-- The properties of parcels. -/
def parcelProperties : List (Property Parcel) :=
  [⟨"weight", .primitive .int, false, some fun p => .ok (.int p.weight)⟩,
    ⟨"note", .primitive .string, true, some fun p => .ok (.ofOption (p.note.map .string))⟩,
    ⟨"sender", .primitive .string, true, some fun p => .ok (.ofOption (p.sender.map .string))⟩]

/-- The live shape of parcels. -/
def parcel : TypeShape Parcel :=
  ⟨"Parcel", .concrete, some ⟨"Parcel"⟩, parcelProperties, [parcelConstructor], [], false⟩

/-- The live fields. -/
def parcelFields : List Field := parcelProperties.map Property.field

/-- The live codec. -/
def parcelCodec : ObjectCodec Parcel :=
  ⟨some ⟨"Parcel"⟩, ⟨"Parcel", none, [], objectDescriptor "Parcel" parcelFields, parcelFields⟩,
    parcelProperties.map .ofProperty, some parcelConstructor⟩

/-- What an old payload tells of parcels: a note always, a colour, and no sender. -/
def oldParcel : CompositeType :=
  ⟨"Parcel", none, [], ⟨"old parcel", none⟩,
    [⟨"note", "string", true⟩, ⟨"colour", "string", true⟩, ⟨"weight", "int", true⟩]⟩

/-- A registry of parcels. -/
def registry : Registry Parcel :=
  ⟨⟨[("Parcel", parcel)]⟩, ⟨[(⟨"Parcel"⟩, "Parcel")]⟩, []⟩

theorem build_parcel : ObjectCodec.build parcel registry = .ok parcelCodec := by
  have hresolve : parcel.resolve registry = .ok ⟨some parcelConstructor, parcelProperties⟩ := rfl
  have hprovides : registry.provides parcel.name = [] := Registry.provides_eq_nil rfl rfl
  rw [ObjectCodec.build_of_resolve hresolve hprovides]
  rfl

/-- The weight and the note are found by name, and the sender may be null. -/
theorem feeds_parcel : ∀ p ∈ parcelConstructor.params, oldParcel.Feeds registry p := by
  have hint : FieldType.parse "int" = .primitive .int := by decide +kernel
  have hstring : FieldType.parse "string" = .primitive .string := by decide +kernel
  intro p hp
  obtain rfl | hp := List.mem_cons.1 hp
  · refine .inl ⟨⟨"weight", "int", true⟩, by decide, rfl, ?_, by decide⟩
    rw [hint]
    rfl
  obtain rfl | hp := List.mem_cons.1 hp
  · refine .inl ⟨⟨"note", "string", true⟩, by decide, rfl, ?_, by decide⟩
    rw [hstring]
    rfl
  · obtain rfl := List.mem_singleton.1 hp
    exact .inr ⟨by decide, rfl⟩

end Parcels

open Parcels in
theorem make_reconciles_parcel : oldParcel.fieldNames.Nodup ∧
    ObjectCodec.build parcel registry = .ok parcelCodec ∧
    ∃ x, make oldParcel parcelCodec registry = .ok x ∧
      x.ReadsByName oldParcel parcelConstructor := by
  have hnames : oldParcel.fieldNames.Nodup := by decide
  obtain ⟨hmade, -, hread⟩ := make_reconciles hnames build_parcel registry
  obtain ⟨x, hmake⟩ := hmade.2 ⟨parcelConstructor, rfl, feeds_parcel⟩
  obtain ⟨k, hk, hnamed⟩ := hread x hmake
  cases hk
  exact ⟨hnames, build_parcel, x, hmake, hnamed⟩

end EvolutionCodec

end SelfDescribing
