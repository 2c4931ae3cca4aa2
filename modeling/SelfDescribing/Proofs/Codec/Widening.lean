import SelfDescribing.Proofs.Codec.Parts
import Mathlib.Data.List.Nodup

namespace SelfDescribing

open Steps Exchange

/-!
# Shapes that take more

A wider shape of a type has the parameters of the narrower one, in any order, and others that may be
null.  What the narrower shape wrote of an object is read by the wider one, and what the wider one
writes of that is read by the narrower one as the object.

* `ObjectCodec.Widens` — the codecs of two such shapes.
* `ObjectCodec.Carries` — fields with items that tell the properties of an object.
* `Widens.make_wide`, `Widens.make_narrow` — each shape can be read from what the other one tells.
* `Widens.read_wide`, `Widens.write_wide` — what the wider shape reads of what the narrower one
  wrote, and what it writes of that.

The two directions are not symmetric.  Going up, parameters that the narrower shape lacks are given
null, which they accept.  Going down, the fields that the narrower shape lacks are read by nobody.
In between, a property that both shapes have is written alike, and it is found by its name, wherever
either shape has it.
-/

variable {ω : Type}

/-! ### Properties -/

namespace PropertyCodec

variable {p p' : PropertyCodec ω} {object : ω} {v v' w : Value ω} {S S' : Schema}
  {reads reads' : Value ω → Except Error ω}

/-- What is written of an object depends on its value alone. -/
theorem write_of_holds (h : p.Holds object v) (owner : String) :
    p.write owner object = p.writeValue owner v := by
  obtain ⟨getter, hgetter, hv⟩ := h
  rw [write, hgetter]
  dsimp only
  rw [hv]
  rfl

/-- What is written of a value depends on the name and the type of the property alone. -/
theorem writeValue_congr (hname : p'.name = p.name) (htype : p'.type = p.type) :
    p'.writeValue = p.writeValue := by
  funext owner v
  rw [writeValue, writeValue, hname, htype]

/-- Null is written as null, whatever the type of the property. -/
theorem writeValue_null (p : PropertyCodec ω) (owner : String) :
    p.writeValue owner .null = pure .null := by
  rw [writeValue, writeTyped]

/-- A value is read alike by a property of the same name and type that may be null where the other
one may, with a schema that lists the same and the same answers. -/
theorem eval_read_congr (hname : p'.name = p.name) (htype : p'.type = p.type)
    (hnullable : p.nullable = true → p'.nullable = true) (hlists : S.ListsAlike S' w)
    (hreads : ∀ u, u.PartOf w → reads' u = reads u) (h : (p.read S w).eval reads = .ok v) :
    (p'.read S' w).eval reads' = .ok v := by
  have hallowed : ¬ (w.isNull && !p.nullable) = true := by
    intro hnull
    rw [read, if_pos hnull] at h
    cases h
  have hallowed' : ¬ (w.isNull && !p'.nullable) = true := by
    simp only [Bool.and_eq_true, Bool.not_eq_true', not_and, Bool.not_eq_false] at hallowed ⊢
    exact fun hnull => hnullable (hallowed hnull)
  have hsame : p'.read S' w = p.read S w := by
    rw [read, read, if_neg hallowed, if_neg hallowed', hname, htype, readTyped_congr p.name hlists]
  have hparts := p.asksOnly_read S (Value.PartOf.refl (v := w))
  rw [hsame, (eval_congr _ fun q hq => hreads q (hparts.of_mem_asks hq)).1, h]

end PropertyCodec

/-- A property is told as a field of its type that is null where the property may be. -/
def PropertyCodec.ToldAs (p : PropertyCodec ω) (f : Field) : Prop :=
  f.type = p.type.text ∧ (p.nullable = true → f.mandatory = false)

/-- A property is told as its own field. -/
theorem PropertyCodec.toldAs_field (p : PropertyCodec ω) : p.ToldAs p.field := by
  refine ⟨rfl, fun hnullable => ?_⟩
  show (!p.nullable) = false
  rw [hnullable]
  rfl

/-! ### Codecs -/

namespace ObjectCodec

variable {c : ObjectCodec ω} {k : Constructor ω} {owner : String} {object : ω}

/-- An object is written as the described list of what its properties are written as. -/
theorem eval_write_eq_ok {writes : WriteRequest ω → Except Error (Value ω)} {v : Value ω} :
    (c.write owner object).eval writes = .ok v ↔ ∃ ws, List.Forall₂
      (fun p w => (p.write owner object).eval writes = .ok w) c.properties ws ∧
        v = c.composite.descriptor.describe (.list ws) := by
  rw [write, eval_bind, except_bind_eq_ok]
  constructor
  · rintro ⟨ws, hws, ⟨⟩⟩
    exact ⟨ws, eval_mapM_eq_ok.1 hws, rfl⟩
  · rintro ⟨ws, hws, rfl⟩
    exact ⟨ws, eval_mapM_eq_ok.2 hws, rfl⟩

/-- A codec asks for what its properties ask for. -/
theorem mem_asks_write {writes : WriteRequest ω → Except Error (Value ω)} {v : Value ω}
    (h : (c.write owner object).eval writes = .ok v) {q : WriteRequest ω} :
    q ∈ (c.write owner object).asks writes ↔
      ∃ p ∈ c.properties, q ∈ (p.write owner object).asks writes := by
  obtain ⟨ws, hws, -⟩ := eval_write_eq_ok.1 h
  have hmapM := eval_mapM_eq_ok.2 hws
  rw [write, asks_bind _ hmapM, List.mem_append, mem_asks_mapM hmapM]
  show _ ∨ q ∈ [] ↔ _
  simp only [List.not_mem_nil, or_false]

/-- An object is read of a list by reading its items and handing them to the constructor. -/
theorem eval_read_eq_ok {S : Schema} {reads : Value ω → Except Error ω} {items : List (Value ω)}
    (hk : c.constructor = some k) (h : (c.read S (.list items)).eval reads = .ok object) :
    ∃ args, List.Forall₂ (fun x a => (x.1.read S x.2).eval reads = .ok a)
      (c.properties.zip items) args ∧ k.build args = .ok object := by
  have hread : c.read S (.list items) = c.construct S items := rfl
  rw [hread, construct, hk] at h
  dsimp only at h
  split at h
  · rw [eval_bind] at h
    cases h
  · rw [eval_bind, except_bind_eq_ok] at h
    obtain ⟨args, hargs, h⟩ := h
    exact ⟨args, eval_mapM_eq_ok.1 hargs, h⟩

end ObjectCodec

/-- Arguments that are read by the names of the parameters are handed to the constructor. -/
theorem Constructor.eval_readNamed {k : Constructor ω} {S : Schema}
    {pairs : List (Field × Value ω)} {reads : Value ω → Except Error ω} {args : List (Value ω)}
    (h : List.Forall₂ (fun name a => (SelfDescribing.readNamed S pairs name).eval reads = .ok a)
      (k.params.map (·.name)) args) : (k.readNamed S pairs).eval reads = k.build args := by
  rw [readNamed, eval_bind, eval_mapM_eq_ok.2 h]
  rfl

/-! ### Fields with their items -/

section Zip

variable {properties : List (PropertyCodec ω)} {ws : List (Value ω)}
  {R : PropertyCodec ω → Value ω → Prop}

/-- Among the fields that properties are told as, each property finds its own with its item. -/
theorem fieldNamed?_zip (h : List.Forall₂ R properties ws)
    (hnodup : (properties.map (·.name)).Nodup) {p : PropertyCodec ω} (hp : p ∈ properties) :
    ∃ w, R p w ∧ fieldNamed? ((properties.map PropertyCodec.field).zip ws) p.name =
      some (p.field, w) := by
  have hlength : ws.length = (properties.map PropertyCodec.field).length := by
    rw [List.length_map, h.length_eq]
  have hnames : (((properties.map PropertyCodec.field).zip ws).map (·.1.name)).Nodup := by
    rw [names_zip hlength, List.map_map]
    exact hnodup
  have hmem : ∃ w, R p w ∧ (p.field, w) ∈ (properties.map PropertyCodec.field).zip ws := by
    clear hnames hlength hnodup
    induction h with
    | nil => cases hp
    | cons hw _ ih =>
      obtain rfl | hp := List.mem_cons.1 hp
      · exact ⟨_, hw, List.mem_cons_self⟩
      · obtain ⟨w, hw, hmem⟩ := ih hp
        exact ⟨w, hw, List.mem_cons_of_mem _ hmem⟩
  obtain ⟨w, hw, hmem⟩ := hmem
  exact ⟨w, hw, fieldNamed?_of_mem hnames hmem⟩

/-- No field has the name that none of the properties has. -/
theorem fieldNamed?_zip_eq_none {name : String} (h : ∀ p ∈ properties, p.name ≠ name) :
    fieldNamed? ((properties.map PropertyCodec.field).zip ws) name = none := by
  cases hfound : fieldNamed? ((properties.map PropertyCodec.field).zip ws) name with
  | none => rfl
  | some x =>
    obtain ⟨hmem, hname⟩ := fieldNamed?_eq_some hfound
    obtain ⟨p, hp, hfield⟩ := List.mem_map.1 (List.of_mem_zip hmem).1
    rw [← hfield] at hname
    exact absurd hname (h p hp)

end Zip

namespace ObjectCodec

/-! ### Objects and their properties -/

/-- An object that a constructor builds has the properties that it is built from. -/
def Faithful (c : ObjectCodec ω) (k : Constructor ω) : Prop :=
  ∀ args object, args.length = c.properties.length → k.build args = .ok object →
    List.Forall₂ (fun p v => p.Holds object v) c.properties args

/-- Fields with items that tell the properties of an object: under the name of each property there
is what is written of the object's value, and it is read as this value. -/
def Carries (c : ObjectCodec ω) (writes : WriteRequest ω → Except Error (Value ω)) (S : Schema)
    (reads : Value ω → Except Error ω) (object : ω) (pairs : List (Field × Value ω)) : Prop :=
  ∀ p ∈ c.properties, ∃ v f w, p.Holds object v ∧
    (p.writeValue c.typeName v).eval writes = .ok w ∧ (p.read S w).eval reads = .ok v ∧
      fieldNamed? pairs p.name = some (f, w) ∧ p.ToldAs f

variable {s s' : TypeShape ω} {r r' : Registry ω} {c c' : ObjectCodec ω} {k k' : Constructor ω}
  {writes writes' : WriteRequest ω → Except Error (Value ω)} {S S' : Schema}
  {reads reads' : Value ω → Except Error ω} {object object' : ω} {ws : List (Value ω)}
  {pairs : List (Field × Value ω)}

/-- The properties of a default codec have distinct names. -/
theorem nodup_names (hbuild : build s r = .ok c) : (c.properties.map (·.name)).Nodup := by
  have hnodup := nodup_of_build hbuild
  rw [CompositeType.fieldNames, fields_of_build hbuild, List.map_map] at hnodup
  exact hnodup

/-- The parameters of the constructor are named as the properties are, in order. -/
theorem names_params (hbuild : build s r = .ok c) (hk : c.constructor = some k) :
    k.params.map (·.name) = c.properties.map (·.name) := by
  rw [names_of_build hbuild hk, CompositeType.fieldNames, fields_of_build hbuild, List.map_map]
  rfl

/-- A codec has one property of a name. -/
theorem eq_of_name (hbuild : build s r = .ok c) {p p' : PropertyCodec ω} (hp : p ∈ c.properties)
    (hp' : p' ∈ c.properties) (hname : p'.name = p.name) : p' = p :=
  List.inj_on_of_nodup_map (nodup_names hbuild) hp' hp hname

/-- An object is rebuilt from its properties if it was built from what they are told to be. -/
theorem rebuilds_of_faithful (hk : c.constructor = some k) (hfaithful : c.Faithful k)
    {args : List (Value ω)} (hlength : args.length = c.properties.length)
    (hargs : k.build args = .ok object) : c.Rebuilds object := by
  intro values hvalues
  have hunique : Relator.RightUnique fun (p : PropertyCodec ω) v => p.Holds object v :=
    fun _ _ _ hv hv' => PropertyCodec.Holds.unique hv' hv
  have hholds := hfaithful args object hlength hargs
  have hsame : values = args := List.right_unique_forall₂' hunique hvalues hholds
  exact ⟨k, hk, hsame ▸ hargs⟩

/-- What was written of an object tells its properties, if it is read as the object. -/
theorem carries_of_read (hbuild : build s r = .ok c) (hk : c.constructor = some k)
    (hfaithful : c.Faithful k) (hws : List.Forall₂
      (fun p w => (p.write c.typeName object).eval writes = .ok w) c.properties ws)
    (hread : (c.read S (.list ws)).eval reads = .ok object) :
    c.Rebuilds object ∧ c.Carries writes S reads object (c.composite.fields.zip ws) := by
  obtain ⟨args, hargs, hobject⟩ := eval_read_eq_ok hk hread
  have hlength : args.length = c.properties.length := by
    rw [← hargs.length_eq, List.length_zip, hws.length_eq, Nat.min_self]
  have hholds := hfaithful args object hlength hobject
  refine ⟨rebuilds_of_faithful hk hfaithful hlength hobject, fun p hp => ?_⟩
  -- At each position there are a property, what is written of it, and its value.
  have hpositions : List.Forall₂ (fun p w => ∃ v, p.Holds object v ∧
      (p.writeValue c.typeName v).eval writes = .ok w ∧ (p.read S w).eval reads = .ok v)
      c.properties ws := by
    clear hp hread hobject hlength
    revert args
    generalize c.properties = properties at hws ⊢
    induction hws with
    | nil =>
      intro args hargs hholds
      exact .nil
    | @cons p w properties ws hw _ ih =>
      rintro _ (_ | ⟨ha, hargs⟩) (_ | ⟨hv, hholds⟩)
      rw [PropertyCodec.write_of_holds hv] at hw
      exact .cons ⟨_, hv, hw, ha⟩ (ih _ hargs hholds)
  obtain ⟨w, ⟨v, hv, hwritten, hreadBack⟩, hfound⟩ :=
    fieldNamed?_zip hpositions (nodup_names hbuild) hp
  rw [← fields_of_build hbuild] at hfound
  exact ⟨v, p.field, w, hv, hwritten, hreadBack, hfound, p.toldAs_field⟩

namespace Carries

variable (h : c.Carries writes S reads object pairs) (hreparses : c.Reparses)
  (hpairs : ∀ x ∈ pairs, S.ListsAlike S' x.2 ∧ ∀ u : Value ω, u.PartOf x.2 → reads' u = reads u)

include h hreparses hpairs

/-- The value of a property is read by its name, with a schema that lists the same and the same
answers. -/
theorem eval_readNamed {p : PropertyCodec ω} (hp : p ∈ c.properties) :
    ∃ v, p.Holds object v ∧ (readNamed S' pairs p.name).eval reads' = .ok v := by
  obtain ⟨v, f, w, hv, -, hread, hfound, htype, hnullable⟩ := h p hp
  obtain ⟨hmem, hname⟩ := fieldNamed?_eq_some hfound
  obtain ⟨hlists, hreads⟩ := hpairs _ hmem
  refine ⟨v, hv, ?_⟩
  rw [readNamed, hfound]
  refine PropertyCodec.eval_read_congr hname ?_ ?_ hlists hreads hread
  · show FieldType.parse f.type = p.type
    rw [htype, hreparses p hp]
  · intro hnull
    show (!f.mandatory) = true
    rw [hnullable hnull]
    rfl

/-- An object that its constructor rebuilds is read back from fields that tell its properties. -/
theorem readNamed_eq_ok (hbuild : build s r = .ok c) (hk : c.constructor = some k)
    (hrebuilds : c.Rebuilds object) : (k.readNamed S' pairs).eval reads' = .ok object := by
  obtain ⟨values, hvalues⟩ :=
    exists_forall₂ fun p hp => h.eval_readNamed hreparses hpairs (p := p) hp
  obtain ⟨k', hk', hobject⟩ := hrebuilds values (hvalues.imp fun p v hv => hv.1)
  cases hk.symm.trans hk'
  have hargs : List.Forall₂ (fun name a => (readNamed S' pairs name).eval reads' = .ok a)
      (k.params.map (·.name)) values := by
    rw [names_params hbuild hk, List.forall₂_map_left_iff]
    exact hvalues.imp fun p v hv => hv.2
  rw [Constructor.eval_readNamed hargs, hobject]

end Carries

/-! ### Wider shapes -/

/-- The codec of a shape that has the parameters of another one, in any order, and others that may
be null. -/
structure Widens (c c' : ObjectCodec ω) (k k' : Constructor ω) : Prop where
  typeName : c'.typeName = c.typeName
  constructor : c.constructor = some k
  constructor' : c'.constructor = some k'
  params : ∃ added, k'.params.Perm (k.params ++ added) ∧ ∀ p ∈ added, p.nullable = true
  properties : ∀ p ∈ c.properties, ∀ p' ∈ c'.properties, p'.name = p.name →
    p'.type = p.type ∧ (p.nullable = true → p'.nullable = true)
  reparses : c.Reparses

/-- What a property is expected to be of an object that an object of a narrower shape turns into:
the value that it was there, or null. -/
def Passes (c : ObjectCodec ω) (object : ω) (p' : PropertyCodec ω) (v : Value ω) : Prop :=
  (∃ p ∈ c.properties, p.name = p'.name ∧ p.Holds object v) ∨
    (∀ p ∈ c.properties, p.name ≠ p'.name) ∧ v = .null

namespace Widens

variable (h : Widens c c' k k') (hbuild : build s r = .ok c) (hbuild' : build s' r' = .ok c')

include h hbuild hbuild'

/-- Each property of the narrower shape is one of the wider shape. -/
theorem exists_shared {p : PropertyCodec ω} (hp : p ∈ c.properties) :
    ∃ p' ∈ c'.properties, p'.name = p.name := by
  obtain ⟨added, hperm, -⟩ := h.params
  have hname : p.name ∈ k.params.map (·.name) := by
    rw [names_params hbuild h.constructor]
    exact List.mem_map.2 ⟨p, hp, rfl⟩
  have hname' : p.name ∈ k'.params.map (·.name) := by
    rw [(hperm.map _).mem_iff, List.map_append]
    exact List.mem_append_left _ hname
  rw [names_params hbuild' h.constructor'] at hname'
  exact List.mem_map.1 hname'

/-- The wider shape can be read from what the narrower one tells. -/
theorem make_wide (hassignable : r'.isAssignable = r.isAssignable) :
    ∃ x, EvolutionCodec.make c.composite c' r' = .ok x ∧ x.constructor = k' := by
  obtain ⟨added, hperm, hadded⟩ := h.params
  have hparams' := (params_of_build hbuild' h.constructor').1
  refine EvolutionCodec.make_of_sources h.constructor' fun p hp => ?_
  obtain hp | hp := List.mem_append.1 (hperm.mem_iff.1 hp)
  · obtain ⟨q, hq, hname, hpassed⟩ := exists_of_forall₂ (params_of_build hbuild h.constructor).2 hp
    have hfield : q.field ∈ c.composite.fields := by
      rw [fields_of_build hbuild]
      exact List.mem_map.2 ⟨q, hq, rfl⟩
    refine EvolutionCodec.sourceFor_of_mem (nodup_of_build hbuild) hfield hname ?_ c'.typeName
    rw [hassignable]
    simpa only [PropertyCodec.field, h.reparses q hq, Bool.not_not] using hpassed
  · refine EvolutionCodec.sourceFor_of_absent (fun f hf hname => ?_) (hadded p hp) c'.typeName
    -- An added parameter has another name than all that were there.
    have hthere : p.name ∈ k.params.map (·.name) := by
      rw [names_of_build hbuild h.constructor]
      exact List.mem_map.2 ⟨f, hf, hname⟩
    have hnodup := (hperm.map (·.name)).nodup_iff.1 hparams'
    rw [List.map_append, List.nodup_append] at hnodup
    exact hnodup.2.2 _ hthere _ (List.mem_map.2 ⟨p, hp, rfl⟩) rfl

/-- The narrower shape can be read from what the wider one tells. -/
theorem make_narrow (hassignable : r'.isAssignable = r.isAssignable) :
    ∃ x, EvolutionCodec.make c'.composite c r = .ok x ∧ x.constructor = k := by
  obtain ⟨added, hperm, -⟩ := h.params
  refine EvolutionCodec.make_of_sources h.constructor fun p hp => ?_
  have hp' : p ∈ k'.params := hperm.mem_iff.2 (List.mem_append_left _ hp)
  obtain ⟨q', hq', hname', hpassed⟩ :=
    exists_of_forall₂ (params_of_build hbuild' h.constructor').2 hp'
  obtain ⟨q, hq, hname, -⟩ := exists_of_forall₂ (params_of_build hbuild h.constructor).2 hp
  have htype := (h.properties q hq q' hq' (hname'.trans hname.symm)).1
  have hfield : q'.field ∈ c'.composite.fields := by
    rw [fields_of_build hbuild']
    exact List.mem_map.2 ⟨q', hq', rfl⟩
  refine EvolutionCodec.sourceFor_of_mem (nodup_of_build hbuild') hfield hname' ?_ c.typeName
  rw [hassignable] at hpassed
  simpa only [PropertyCodec.field, htype, h.reparses q hq, Bool.not_not] using hpassed

/-- Fields that tell an object of the narrower shape give its values to the wider constructor, and
null where there is none. -/
theorem read_wide (hcarries : c.Carries writes S reads object (c.composite.fields.zip ws))
    (hreads : ∀ w ∈ ws, ∀ u : Value ω, u.PartOf w → reads' u = reads u) :
    ∃ args, List.Forall₂ (c.Passes object) c'.properties args ∧
      (k'.readNamed S (c.composite.fields.zip ws)).eval reads' = k'.build args := by
  -- What is written of the narrower shape is listed by its own schema.
  have hpairs : ∀ x ∈ c.composite.fields.zip ws,
      S.ListsAlike S x.2 ∧ ∀ u : Value ω, u.PartOf x.2 → reads' u = reads u :=
    fun x hx => ⟨fun _ _ _ => rfl, hreads _ (List.of_mem_zip hx).2⟩
  have heach : ∀ p' ∈ c'.properties, ∃ v, c.Passes object p' v ∧
      (readNamed S (c.composite.fields.zip ws) p'.name).eval reads' = .ok v := by
    intro p' hp'
    by_cases hshared : ∃ p ∈ c.properties, p.name = p'.name
    · obtain ⟨p, hp, hname⟩ := hshared
      obtain ⟨v, hv, hread⟩ := hcarries.eval_readNamed h.reparses hpairs hp
      exact ⟨v, .inl ⟨p, hp, hname, hv⟩, hname ▸ hread⟩
    -- An added property finds no field of its name, and null is read for it.
    · push Not at hshared
      refine ⟨.null, .inr ⟨hshared, rfl⟩, ?_⟩
      rw [readNamed, fields_of_build hbuild, fieldNamed?_zip_eq_none hshared]
      rfl
  obtain ⟨args, hargs⟩ := exists_forall₂ heach
  refine ⟨args, hargs.imp fun p' v hv => hv.1, Constructor.eval_readNamed ?_⟩
  rw [names_params hbuild' h.constructor', List.forall₂_map_left_iff]
  exact hargs.imp fun p' v hv => hv.2

omit hbuild hbuild' in
/-- A property with the same value in both objects is written alike. -/
theorem write_shared {v : Value ω} (hwrite : (c.write c.typeName object).eval writes = .ok v)
    (hwrites : ∀ q ∈ (c.write c.typeName object).asks writes, writes' q = writes q)
    {p p' : PropertyCodec ω} (hp : p ∈ c.properties) (hp' : p' ∈ c'.properties)
    (hname : p'.name = p.name) {value : Value ω} (hvalue : p.Holds object value)
    (hvalue' : p'.Holds object' value) :
    (p'.write c'.typeName object').eval writes' = (p.writeValue c.typeName value).eval writes ∧
      (p'.write c'.typeName object').asks writes' = (p.write c.typeName object).asks writes := by
  have hasked : ∀ q ∈ (p.write c.typeName object).asks writes, writes' q = writes q :=
    fun q hq => hwrites q ((mem_asks_write hwrite).2 ⟨p, hp, hq⟩)
  have hsame : p'.write c'.typeName object' = p.write c.typeName object := by
    rw [PropertyCodec.write_of_holds hvalue', PropertyCodec.write_of_holds hvalue, h.typeName,
      PropertyCodec.writeValue_congr hname (h.properties p hp p' hp' hname).1]
  rw [hsame, ← PropertyCodec.write_of_holds hvalue]
  exact eval_congr _ hasked

/-- Of an object with the values of the narrower shape and null otherwise, the wider shape writes
what the narrower one does, and null. -/
theorem write_wide {v : Value ω} (hwrite : (c.write c.typeName object).eval writes = .ok v)
    (hcarries : c.Carries writes S reads object pairs)
    (hwrites : ∀ q ∈ (c.write c.typeName object).asks writes, writes' q = writes q)
    (hvalues : ∀ p' ∈ c'.properties, ∃ v, c.Passes object p' v ∧ p'.Holds object' v) :
    (∃ ws', (c'.write c'.typeName object').eval writes' =
        .ok (c'.composite.descriptor.describe (.list ws')) ∧
      c.Carries writes S reads object (c'.composite.fields.zip ws') ∧
      ∀ w ∈ ws', w = .null ∨ ∃ x ∈ pairs, x.2 = w) ∧
    ∀ q, q ∈ (c'.write c'.typeName object').asks writes' ↔
      q ∈ (c.write c.typeName object).asks writes := by
  -- Each property of the wider shape is written as the shared one is, or as null.
  have heach : ∀ p' ∈ c'.properties, ∃ w, (p'.write c'.typeName object').eval writes' = .ok w ∧
      (w = .null ∨ ∃ x ∈ pairs, x.2 = w) := by
    intro p' hp'
    obtain ⟨value, ⟨p, hp, hname, hv⟩ | ⟨-, rfl⟩, hv'⟩ := hvalues p' hp'
    · obtain ⟨value', f, w, hv₁, hwritten, -, hfound, -⟩ := hcarries p hp
      cases hv.unique hv₁
      rw [(h.write_shared hwrite hwrites hp hp' hname.symm hv hv').1]
      exact ⟨w, hwritten, .inr ⟨_, (fieldNamed?_eq_some hfound).1, rfl⟩⟩
    · refine ⟨.null, ?_, .inl rfl⟩
      rw [PropertyCodec.write_of_holds hv', PropertyCodec.writeValue_null]
      rfl
  obtain ⟨ws', hws'⟩ := exists_forall₂ heach
  have hwrite' := eval_write_eq_ok.2 ⟨ws', hws'.imp fun p w hw => hw.1, rfl⟩
  refine ⟨⟨ws', hwrite', fun p hp => ?_, fun w hw => ?_⟩, fun q => ?_⟩
  · -- Under the name of a shared property stands what the narrower shape writes of it.
    obtain ⟨p', hp', hname⟩ := h.exists_shared hbuild hbuild' hp
    obtain ⟨w', ⟨hw', -⟩, hfound'⟩ := fieldNamed?_zip hws' (nodup_names hbuild') hp'
    obtain ⟨value, f, w, hv, hwritten, hread, -, -⟩ := hcarries p hp
    obtain ⟨htype, hnullable⟩ := h.properties p hp p' hp' hname
    obtain ⟨value', ⟨p₁, hp₁, hname₁, hv₁⟩ | ⟨hother, -⟩, hv'⟩ := hvalues p' hp'
    · cases eq_of_name hbuild hp hp₁ (hname₁.trans hname)
      cases hv₁.unique hv
      rw [(h.write_shared hwrite hwrites hp hp' hname hv hv').1, hwritten] at hw'
      cases hw'
      rw [hname, ← fields_of_build hbuild'] at hfound'
      refine ⟨value, p'.field, _, hv, hwritten, hread, hfound', ?_, fun hnull => ?_⟩
      · show p'.type.text = p.type.text
        rw [htype]
      · exact p'.toldAs_field.2 (hnullable hnull)
    · exact absurd hname.symm (hother p hp)
  · obtain ⟨p', -, -, hcases⟩ := exists_of_forall₂ hws'.flip hw
    exact hcases
  · -- What is added asks for nothing.
    rw [mem_asks_write hwrite', mem_asks_write hwrite]
    constructor
    · rintro ⟨p', hp', hq⟩
      obtain ⟨value, ⟨p, hp, hname, hv⟩ | ⟨-, rfl⟩, hv'⟩ := hvalues p' hp'
      · rw [(h.write_shared hwrite hwrites hp hp' hname.symm hv hv').2] at hq
        exact ⟨p, hp, hq⟩
      · rw [PropertyCodec.write_of_holds hv', PropertyCodec.writeValue_null] at hq
        cases hq
    · rintro ⟨p, hp, hq⟩
      obtain ⟨p', hp', hname⟩ := h.exists_shared hbuild hbuild' hp
      obtain ⟨value', ⟨p₁, hp₁, hname₁, hv₁⟩ | ⟨hother, -⟩, hv'⟩ := hvalues p' hp'
      · cases eq_of_name hbuild hp hp₁ (hname₁.trans hname)
        refine ⟨p', hp', ?_⟩
        rw [(h.write_shared hwrite hwrites hp hp' hname hv₁ hv').2]
        exact hq
      · exact absurd hname.symm (hother p hp)

end Widens

end ObjectCodec

end SelfDescribing
