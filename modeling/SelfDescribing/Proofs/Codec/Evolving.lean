import SelfDescribing.Codec.Evolution
import SelfDescribing.Proofs.Codec.Build

namespace SelfDescribing

open Steps

/-!
# Old shapes with the live fields

An evolution codec matches fields by name, and the default codec by position.  Both read an
argument for each parameter from the field of the parameter's name, so that the order of the fields
does not matter.

* `readNamed` — the argument for a parameter, from fields with their items.
* `EvolutionCodec.read_named`, `ObjectCodec.read_named` — what the two codecs read.
* `EvolutionCodec.make_of_perm` — old shapes with the live fields can be read.

The proof goes through `readNamed`, which neither codec uses: reading the argument of a name from
pairs of fields and items.  For the default codec, positions and names agree because its own fields
are in the order of its parameters.  For an evolution codec they agree because the positions were
found by name; an item that is taken for one parameter is never wanted for another one, since their
names differ.
-/

variable {ω : Type}

/-! ### Lists of steps -/

/-- Items that are mapped to the same by two functions are mapped to the same list. -/
theorem mapM_eq_of_forall₂ {α β γ : Type} {m : Type → Type} [Monad m] [LawfulMonad m] {f : α → m γ}
    {g : β → m γ} {xs : List α} {ys : List β} (h : List.Forall₂ (fun x y => f x = g y) xs ys) :
    xs.mapM f = ys.mapM g := by
  induction h with
  | nil => rw [List.mapM_nil, List.mapM_nil]
  | cons hxy _ ih => rw [List.mapM_cons, List.mapM_cons, hxy, ih]

/-- A list can be mapped if each item can. -/
theorem except_mapM_eq_ok {ε α β : Type} {f : α → Except ε β} {xs : List α}
    (h : ∀ x ∈ xs, ∃ y, f x = .ok y) : ∃ ys, xs.mapM f = .ok ys := by
  induction xs with
  | nil => exact ⟨[], List.mapM_nil⟩
  | cons x xs ih =>
    obtain ⟨y, hy⟩ := h x List.mem_cons_self
    obtain ⟨ys, hys⟩ := ih fun x hx => h x (List.mem_cons_of_mem _ hx)
    refine ⟨y :: ys, ?_⟩
    rw [List.mapM_cons, hy, hys]
    rfl

/-- Steps that fail alike, one by one, fail alike as a list. -/
theorem mapM_discard {α β γ : Type} {m : Type → Type} [Monad m] [LawfulMonad m] {f : α → m β}
    {g : α → m γ} {xs : List α}
    (h : ∀ x ∈ xs, (f x >>= fun _ => pure ()) = (g x >>= fun _ => pure ())) :
    (xs.mapM f >>= fun _ => pure ()) = (xs.mapM g >>= fun _ => pure ()) := by
  induction xs with
  | nil => rw [List.mapM_nil, List.mapM_nil, pure_bind, pure_bind]
  | cons x xs ih =>
    have hsplit : ∀ {δ : Type} (k : α → m δ), ((x :: xs).mapM k >>= fun _ => pure ()) =
        (k x >>= fun _ => pure ()) >>= fun _ => (xs.mapM k >>= fun _ => pure ()) := by
      intro δ k
      rw [List.mapM_cons]
      simp only [bind_assoc, pure_bind]
    rw [hsplit, hsplit, h x List.mem_cons_self, ih fun x hx => h x (List.mem_cons_of_mem _ hx)]

/-! ### Fields by name -/

/-- The first of some fields with their items that has a name. -/
def fieldNamed? (pairs : List (Field × Value ω)) (name : String) : Option (Field × Value ω) :=
  pairs.find? (fun x => decide (x.1.name = name))

/-- A list of so many items. -/
def Value.HasItems (v : Value ω) (count : Nat) : Prop :=
  ∃ items, v = .list items ∧ items.length = count

/-- The argument for a parameter, from fields with their items; null if no field has its name. -/
def readNamed (schema : Schema) (pairs : List (Field × Value ω)) (name : String) :
    Reading ω (Value ω) :=
  match fieldNamed? pairs name with
  | some (field, v) => (PropertyCodec.ofField field).read schema v
  | none => return .null

/-- An object from fields with their items, by the names of the constructor's parameters. -/
def Constructor.readNamed (k : Constructor ω) (schema : Schema) (pairs : List (Field × Value ω)) :
    Reading ω ω := do
  k.build (← (k.params.map (·.name)).mapM (SelfDescribing.readNamed schema pairs))

/-- What is found by name is one of the fields, and has the name. -/
theorem fieldNamed?_eq_some {pairs : List (Field × Value ω)} {name : String} {x : Field × Value ω}
    (h : fieldNamed? pairs name = some x) : x ∈ pairs ∧ x.1.name = name := by
  have hname := List.find?_some h
  exact ⟨List.mem_of_find?_eq_some h, of_decide_eq_true hname⟩

/-- Where names are distinct, a field is found by its name. -/
theorem fieldNamed?_of_mem {pairs : List (Field × Value ω)}
    (hnodup : (pairs.map (·.1.name)).Nodup) {x : Field × Value ω} (hx : x ∈ pairs) :
    fieldNamed? pairs x.1.name = some x := by
  induction pairs with
  | nil => cases hx
  | cons y pairs ih =>
    rw [List.map_cons, List.nodup_cons] at hnodup
    rw [fieldNamed?, List.find?_cons]
    obtain rfl | hx := List.mem_cons.1 hx
    · rw [decide_eq_true rfl]
    · have hother : y.1.name ≠ x.1.name := by
        intro hsame
        exact hnodup.1 (hsame ▸ List.mem_map.2 ⟨x, hx, rfl⟩)
      rw [decide_eq_false hother]
      exact ih hnodup.2 hx

/-- The order of fields does not matter for what is found by name. -/
theorem fieldNamed?_perm {pairs pairs' : List (Field × Value ω)} (hperm : pairs'.Perm pairs)
    (hnodup : (pairs.map (·.1.name)).Nodup) (name : String) :
    fieldNamed? pairs' name = fieldNamed? pairs name := by
  have hnodup' : (pairs'.map (·.1.name)).Nodup := (hperm.map _).nodup_iff.2 hnodup
  cases h : fieldNamed? pairs name with
  | some x =>
    obtain ⟨hx, rfl⟩ := fieldNamed?_eq_some h
    exact fieldNamed?_of_mem hnodup' (hperm.mem_iff.2 hx)
  | none =>
    cases h' : fieldNamed? pairs' name with
    | none => rfl
    | some x =>
      obtain ⟨hx, rfl⟩ := fieldNamed?_eq_some h'
      cases (fieldNamed?_of_mem hnodup (hperm.mem_iff.1 hx)).symm.trans h

section Zip

variable {fields : List Field} {items : List (Value ω)}

theorem fields_zip (h : items.length = fields.length) : (fields.zip items).map (·.1) = fields :=
  List.map_fst_zip (Nat.le_of_eq h.symm)

theorem items_zip (h : items.length = fields.length) : (fields.zip items).map (·.2) = items :=
  List.map_snd_zip (Nat.le_of_eq h)

/-- Fields that are paired with items keep their names. -/
theorem names_zip (h : items.length = fields.length) :
    (fields.zip items).map (·.1.name) = fields.map (·.name) := by
  have hcompose : (fields.zip items).map (·.1.name) =
      ((fields.zip items).map (·.1)).map (·.name) := by
    rw [List.map_map]
    rfl
  rw [hcompose, fields_zip h]

end Zip

/-- A constructor takes the same from fields of distinct names in any order. -/
theorem Constructor.readNamed_perm {pairs pairs' : List (Field × Value ω)}
    (hperm : pairs'.Perm pairs) (hnodup : (pairs.map (·.1.name)).Nodup) (k : Constructor ω)
    (schema : Schema) : k.readNamed schema pairs' = k.readNamed schema pairs := by
  have hsame : SelfDescribing.readNamed schema pairs' = SelfDescribing.readNamed schema pairs := by
    funext name
    rw [SelfDescribing.readNamed, SelfDescribing.readNamed, fieldNamed?_perm hperm hnodup]
  rw [readNamed, readNamed, hsame]

namespace EvolutionCodec

/-! ### The fields of an old shape -/

variable {old : CompositeType} {pairs : List (Field × Value ω)}

/-- The old field with a name. -/
def oldField? (old : CompositeType) (name : String) : Option (OldField ω) :=
  (oldFieldsOf old).find? (fun f => decide (f.field.name = name))

/-- The first field with a name, among fields whose positions are counted from `k`, is the one that
stands with its item at the position that is kept for it. -/
theorem find?_positions (name : String) (pairs : List (Field × Value ω)) (k : Nat) :
    (fieldNamed? pairs name = none ∧
      ((pairs.map (·.1)).mapIdx fun i f => (⟨f, k + i, .ofField f⟩ : OldField ω)).find?
        (fun f => decide (f.field.name = name)) = none) ∨
    ∃ x i, fieldNamed? pairs name = some x ∧ pairs[i]? = some x ∧
      ((pairs.map (·.1)).mapIdx fun i f => (⟨f, k + i, .ofField f⟩ : OldField ω)).find?
        (fun f => decide (f.field.name = name)) = some ⟨x.1, k + i, .ofField x.1⟩ := by
  induction pairs generalizing k with
  | nil => exact .inl ⟨rfl, rfl⟩
  | cons y pairs ih =>
    -- The positions of the rest are counted from `k + 1`.
    have hshift : (fun i f => (⟨f, k + (i + 1), .ofField f⟩ : OldField ω)) =
        fun i f => ⟨f, (k + 1) + i, .ofField f⟩ := by
      funext i f
      rw [Nat.add_assoc, Nat.add_comm 1 i]
    rw [List.map_cons, List.mapIdx_cons, hshift, fieldNamed?, List.find?_cons, List.find?_cons]
    by_cases hname : y.1.name = name
    · refine .inr ⟨y, 0, ?_, rfl, ?_⟩
      · rw [decide_eq_true hname]
      · rw [decide_eq_true hname]
    · rw [decide_eq_false hname]
      obtain hnone | ⟨x, i, hx, hi, hfind⟩ := ih (k + 1)
      · exact .inl hnone
      · refine .inr ⟨x, i + 1, hx, hi, ?_⟩
        rw [hfind, Nat.add_assoc, Nat.add_comm 1 i]

/-- The old field that is found by name is the one that stands with its item at the position that
is kept for it. -/
theorem oldField?_cases (hpairs : old.fields = pairs.map (·.1)) (name : String) :
    (fieldNamed? pairs name = none ∧ oldField? (ω := ω) old name = none) ∨
      ∃ x i, fieldNamed? pairs name = some x ∧ pairs[i]? = some x ∧
        oldField? (ω := ω) old name = some ⟨x.1, i, .ofField x.1⟩ := by
  have hstart := find?_positions name pairs 0
  simp only [Nat.zero_add] at hstart
  rw [oldField?, oldFieldsOf, hpairs]
  exact hstart

/-- A parameter takes the field of its name, or null if there is none. -/
theorem sourceFor_eq_ok {r : Registry ω} {typeName : String} {p : Param}
    {source : Option (OldField ω)} (h : sourceFor r typeName (oldFieldsOf old) p = .ok source) :
    source = oldField? old p.name := by
  unfold sourceFor at h
  split at h
  · rename_i f hfind
    split at h
    · cases h
      exact hfind.symm
    · cases h
  · rename_i hfind
    split at h
    · cases h
      exact hfind.symm
    · cases h

/-! ### Reading by name -/

/-- Read the argument for a parameter from items that are all still there. -/
def readSource (schema : Schema) (items : List (Value ω)) :
    Option (OldField ω) → Reading ω (Value ω)
  | some f => f.codec.read schema (items.getD f.index .null)
  | none => return .null

/-- Two parameters that are not fed from the same position. -/
def Apart (a b : Option (OldField ω)) : Prop := ∀ f ∈ a, ∀ g ∈ b, f.index ≠ g.index

/-- Taking out the items that were read does not matter if none is read twice. -/
theorem readSources_of_apart (schema : Schema) {sources : List (Option (OldField ω))}
    (hapart : sources.Pairwise Apart) (items : List (Value ω)) :
    readSources schema sources items = sources.mapM (readSource schema items) := by
  induction hapart generalizing items with
  | nil => rfl
  | @cons source rest hfirst _ ih =>
    rw [List.mapM_cons]
    cases source with
    | none =>
      rw [readSources, ih items, readSource, pure_bind]
    | some f =>
      -- The rest reads other positions, so it does not see that this item was taken out.
      have hsame : rest.mapM (readSource schema (items.set f.index .null)) =
          rest.mapM (readSource schema items) := by
        refine mapM_eq_of_forall₂ (List.forall₂_same.2 fun other hother => ?_)
        cases other with
        | none => rfl
        | some g =>
          have hne : f.index ≠ g.index := hfirst _ hother f rfl g rfl
          rw [readSource, readSource, List.getD_eq_getElem?_getD, List.getElem?_set_ne hne,
            List.getD_eq_getElem?_getD]
      rw [readSources, readSource]
      simp only [ih, hsame]

/-- Names that differ are fed from different positions. -/
theorem apart_of_names (hpairs : old.fields = pairs.map (·.1)) {names : List String}
    (hnodup : names.Nodup) : (names.map (oldField? (ω := ω) old)).Pairwise Apart := by
  rw [List.pairwise_map]
  refine hnodup.imp fun {name name'} hne f hf g hg hsame => hne ?_
  obtain ⟨-, hnone⟩ | ⟨x, i, hx, hi, hfind⟩ := oldField?_cases hpairs name
  · rw [hnone] at hf
    cases hf
  · obtain ⟨-, hnone⟩ | ⟨y, j, hy, hj, hfind'⟩ := oldField?_cases hpairs name'
    · rw [hnone] at hg
      cases hg
    · rw [hfind] at hf
      rw [hfind'] at hg
      cases hf
      cases hg
      -- One position has one field, with one name.
      have hij : i = j := hsame
      rw [hij, hj] at hi
      cases hi
      rw [← (fieldNamed?_eq_some hx).2, (fieldNamed?_eq_some hy).2]

/-- The codec of an older shape takes the old fields in the order of the parameters. -/
theorem make_eq_ok {live : ObjectCodec ω} {r : Registry ω} {x : EvolutionCodec ω}
    (h : make old live r = .ok x) : ∃ k, live.constructor = some k ∧
      x = ⟨live.typeName, old, (k.params.map (·.name)).map (oldField? old), k⟩ := by
  unfold make at h
  split at h
  · cases h
  · rename_i k hk
    obtain ⟨sources, hsources, h⟩ := except_bind_eq_ok.1 h
    cases h
    refine ⟨k, hk, ?_⟩
    have hfound : List.Forall₂ (fun p source => oldField? old p.name = source) k.params sources :=
      (forall₂_of_except_mapM hsources).imp fun p source h => (sourceFor_eq_ok h).symm
    rw [← List.forall₂_map_left_iff, List.forall₂_eq_eq_eq] at hfound
    rw [← hfound, List.map_map]
    rfl

/-- An evolution codec reads the arguments from the fields of the parameters' names. -/
theorem read_named {live : ObjectCodec ω} {r : Registry ω} {x : EvolutionCodec ω}
    {k : Constructor ω} (hmake : make old live r = .ok x) (hk : live.constructor = some k)
    (hparams : (k.params.map (·.name)).Nodup) (hpairs : old.fields = pairs.map (·.1))
    (schema : Schema) :
    x.read schema (.list (pairs.map (·.2))) = k.readNamed schema pairs := by
  obtain ⟨k', hk', rfl⟩ := make_eq_ok hmake
  cases hk.symm.trans hk'
  have hlength : (pairs.map (·.2)).length = old.fields.length := by
    rw [hpairs, List.length_map, List.length_map]
  -- No two parameters have one name, so that taking an item away for one leaves those of the
  -- others.
  have hargs : readSources schema ((k.params.map (·.name)).map (oldField? old))
      (pairs.map (·.2)) = (k.params.map (·.name)).mapM (SelfDescribing.readNamed schema pairs) := by
    rw [readSources_of_apart schema (apart_of_names hpairs hparams), List.mapM_map]
    refine mapM_eq_of_forall₂ (List.forall₂_same.2 fun name _ => ?_)
    show readSource schema _ (oldField? old name) = _
    obtain ⟨hnone, hold⟩ | ⟨y, i, hy, hi, hold⟩ := oldField?_cases hpairs name
    · rw [hold, SelfDescribing.readNamed, hnone]
      rfl
    · rw [hold, SelfDescribing.readNamed, hy, readSource, List.getD_eq_getElem?_getD,
        List.getElem?_map, hi]
      rfl
  rw [read]
  simp only [hlength, ne_eq, not_true_eq_false, if_false, hargs]
  rfl

/-- A body that has not one item for each field is refused. -/
theorem read_misfit {x : EvolutionCodec ω} {body : Value ω}
    (h : ¬ body.HasItems x.composite.fields.length) (schema : Schema) :
    ∃ e, x.read schema body = throw (.malformed e) := by
  cases body with
  | list items =>
    refine ⟨.oldFieldCount x.typeName x.composite.fields.length items.length, ?_⟩
    have hlength : items.length ≠ x.composite.fields.length := fun hsame => h ⟨items, rfl, hsame⟩
    rw [read, if_pos hlength]
    rfl
  | _ => exact ⟨_, rfl⟩

end EvolutionCodec

/-! ### The default codec -/

namespace ObjectCodec

variable {s : TypeShape ω} {r : Registry ω} {live : ObjectCodec ω} {k : Constructor ω}
  {pairs : List (Field × Value ω)} {old : CompositeType}

/-- A codec whose properties have types that their own texts are read as. -/
def Reparses (c : ObjectCodec ω) : Prop :=
  ∀ p ∈ c.properties, FieldType.parse p.type.text = p.type

/-- A default codec has the types of its shape's properties. -/
theorem reparses_of_build (hbuild : build s r = .ok live)
    (htypes : ∀ p ∈ s.properties, FieldType.parse p.type.text = p.type) : live.Reparses := by
  intro p hp
  obtain ⟨property, hproperty, rfl⟩ := properties_of_build hbuild hp
  exact htypes property hproperty

/-- A property is read alike from what a schema tells of it, if its type comes back from the text.
-/
theorem read_ofField {p : PropertyCodec ω} (h : FieldType.parse p.type.text = p.type)
    (schema : Schema) (v : Value ω) :
    (PropertyCodec.ofField p.field).read schema v = p.read schema v := by
  rw [PropertyCodec.read, PropertyCodec.read, PropertyCodec.ofField, PropertyCodec.field]
  simp only [h, Bool.not_not]

/-- The parameters have distinct names, and each is fed by the property at its position. -/
theorem params_of_build (hbuild : build s r = .ok live) (hk : live.constructor = some k) :
    (k.params.map (·.name)).Nodup ∧ List.Forall₂ (fun p q => q.name = p.name ∧
      r.isAssignable q.type q.nullable p.type p.nullable = true) k.params live.properties := by
  obtain ⟨resolved, hresolved, rfl⟩ := build_eq_ok hbuild
  obtain ⟨hnames, ⟨hnone, -⟩ | ⟨k', hmem, hk', hproperties⟩⟩ := TypeShape.resolve_eq_ok hresolved
  · cases hnone.symm.trans hk
  · cases hk'.symm.trans hk
    refine ⟨(TypeShape.nodup_of_checkNames hnames).2 k hmem, ?_⟩
    rw [List.forall₂_map_right_iff]
    exact hproperties.imp fun p property h =>
      ⟨(TypeShape.propertyFor_eq_ok h).2.1, (TypeShape.propertyFor_eq_ok h).2.2.2⟩

/-- The parameters have the names of the fields. -/
theorem names_of_build (hbuild : build s r = .ok live) (hk : live.constructor = some k) :
    k.params.map (·.name) = live.composite.fieldNames := by
  have hnames : k.params.map (·.name) = live.properties.map (·.name) := by
    rw [← List.forall₂_eq_eq_eq, List.forall₂_map_left_iff, List.forall₂_map_right_iff]
    exact (params_of_build hbuild hk).2.imp fun p q h => h.1.symm
  rw [hnames, CompositeType.fieldNames, fields_of_build hbuild, List.map_map]
  rfl

/-- Reading the items by the properties at their positions is reading them by the fields that the
properties are told as. -/
theorem mapM_read_zip (schema : Schema) {properties : List (PropertyCodec ω)}
    (h : List.Forall₂ (fun p x => FieldType.parse p.type.text = p.type ∧ p.field = x.1)
      properties pairs) :
    (properties.zip (pairs.map (·.2))).mapM (fun x => x.1.read schema x.2) =
      pairs.mapM fun x => (PropertyCodec.ofField x.1).read schema x.2 := by
  induction h with
  | nil => rfl
  | @cons p x properties pairs h _ ih =>
    rw [List.map_cons, List.zip_cons_cons, List.mapM_cons, List.mapM_cons, ih, ← h.2,
      read_ofField h.1]

/-- The default codec of a type reads the arguments from the fields of the parameters' names. -/
theorem read_named (hbuild : build s r = .ok live) (hreparses : live.Reparses)
    (hk : live.constructor = some k) (hpairs : live.composite.fields = pairs.map (·.1))
    (schema : Schema) :
    live.read schema (.list (pairs.map (·.2))) = k.readNamed schema pairs := by
  have hparams := (params_of_build hbuild hk).1
  have hfields := (fields_of_build hbuild).symm.trans hpairs
  have hlength : (pairs.map (·.2)).length = live.properties.length := by
    rw [List.length_map, ← List.length_map (·.1), ← hfields, List.length_map]
  -- At each position there is a property, the field that it is told as, and the item.
  have hproperty : List.Forall₂ (fun p x => p.field = x.1) live.properties pairs := by
    rw [← List.forall₂_eq_eq_eq, List.forall₂_map_left_iff, List.forall₂_map_right_iff] at hfields
    exact hfields
  have hpropertyArgs := mapM_read_zip schema
    ((List.forall₂_and_left _ _).2 ⟨hreparses, hproperty⟩)
  -- The parameters come in the order of the fields, so that each finds its own field by name.
  have hnames : k.params.map (·.name) = pairs.map (·.1.name) := by
    rw [names_of_build hbuild hk, CompositeType.fieldNames, hpairs, List.map_map]
    rfl
  have hnamedArgs : (k.params.map (·.name)).mapM (SelfDescribing.readNamed schema pairs) =
      pairs.mapM fun x => (PropertyCodec.ofField x.1).read schema x.2 := by
    rw [hnames, List.mapM_map]
    refine mapM_eq_of_forall₂ (List.forall₂_same.2 fun x hx => ?_)
    rw [hnames] at hparams
    show SelfDescribing.readNamed schema pairs x.1.name = _
    rw [SelfDescribing.readNamed, fieldNamed?_of_mem hparams hx]
  show live.construct schema _ = _
  rw [construct, hk]
  simp only [hlength, ne_eq, not_true_eq_false, if_false]
  rw [Constructor.readNamed, hnamedArgs, ← hpropertyArgs]

/-- A body that has not one item for each property is refused. -/
theorem read_misfit {body : Value ω} (hk : live.constructor = some k)
    (h : ¬ body.HasItems live.properties.length) (schema : Schema) :
    ∃ e, live.read schema body = throw (.malformed e) := by
  cases body with
  | list items =>
    refine ⟨.fieldCount live.typeName live.properties.length items.length, ?_⟩
    have hlength : items.length ≠ live.properties.length := fun hsame => h ⟨items, rfl, hsame⟩
    show live.construct schema items = _
    rw [construct, hk]
    simp only [hlength, ne_eq, not_false_eq_true, if_true]
    rfl
  | _ => exact ⟨_, rfl⟩

end ObjectCodec

/-! ### Old shapes with the live fields -/

namespace EvolutionCodec

variable {s : TypeShape ω} {r : Registry ω} {live : ObjectCodec ω} {k : Constructor ω}
  {old old' : CompositeType}

/-- Fields without items. -/
def bare (fields : List Field) : List (Field × Value ω) := fields.map fun f => (f, .null)

theorem map_bare (fields : List Field) : fields = (bare (ω := ω) fields).map (·.1) := by
  rw [bare, List.map_map]
  exact (List.map_id fields).symm

theorem names_bare (fields : List Field) :
    (bare (ω := ω) fields).map (·.1.name) = fields.map (·.name) := by
  rw [bare, List.map_map]
  rfl

/-- A parameter is fed by the field of its name, if this can be passed there. -/
theorem sourceFor_of_mem (hnodup : old.fieldNames.Nodup) {f : Field} (hf : f ∈ old.fields)
    {p : Param} (hname : f.name = p.name)
    (hassignable : r.isAssignable (.parse f.type) (!f.mandatory) p.type p.nullable = true)
    (typeName : String) :
    ∃ source, sourceFor (ω := ω) r typeName (oldFieldsOf old) p = .ok source := by
  have hnames : ((bare (ω := ω) old.fields).map (·.1.name)).Nodup := by
    rw [names_bare]
    exact hnodup
  have hfound : fieldNamed? (bare (ω := ω) old.fields) p.name = some (f, .null) := by
    rw [← hname]
    exact fieldNamed?_of_mem hnames (List.mem_map.2 ⟨f, hf, rfl⟩)
  obtain ⟨hnone, -⟩ | ⟨x, i, hx, -, hold⟩ := oldField?_cases (map_bare old.fields) p.name
  · cases hnone.symm.trans hfound
  · cases hx.symm.trans hfound
    refine ⟨some ⟨f, i, .ofField f⟩, ?_⟩
    rw [oldField?] at hold
    rw [sourceFor, hold]
    simp only [PropertyCodec.ofField, hassignable, if_true]

/-- A parameter that may be null needs no field. -/
theorem sourceFor_of_absent {p : Param} (habsent : ∀ f ∈ old.fields, f.name ≠ p.name)
    (hnullable : p.nullable = true) (typeName : String) :
    ∃ source, sourceFor (ω := ω) r typeName (oldFieldsOf old) p = .ok source := by
  refine ⟨none, ?_⟩
  obtain ⟨-, hold⟩ | ⟨x, i, hx, -, -⟩ := oldField?_cases (ω := ω) (map_bare old.fields) p.name
  · rw [oldField?] at hold
    rw [sourceFor, hold]
    simp only [hnullable, if_true]
  · obtain ⟨hmem, hname⟩ := fieldNamed?_eq_some hx
    obtain ⟨f, hf, rfl⟩ := List.mem_map.1 hmem
    exact absurd hname (habsent f hf)

/-- An old shape can be read if every parameter is fed. -/
theorem make_of_sources (hk : live.constructor = some k) (h : ∀ p ∈ k.params,
      ∃ source, sourceFor r live.typeName (oldFieldsOf old) p = .ok source) :
    ∃ x, make old live r = .ok x ∧ x.constructor = k := by
  obtain ⟨sources, hsources⟩ := except_mapM_eq_ok h
  refine ⟨⟨live.typeName, old, sources, k⟩, ?_, rfl⟩
  rw [make, hk]
  simp only [hsources]
  rfl

/-- A payload that lists the live fields, in any order, can be read. -/
theorem make_of_perm (hbuild : ObjectCodec.build s r = .ok live) (hreparses : live.Reparses)
    (hk : live.constructor = some k) (hperm : old.fields.Perm live.composite.fields) :
    ∃ x, make old live r = .ok x := by
  have hsources : ∀ p ∈ k.params,
      ∃ source, sourceFor r live.typeName (oldFieldsOf old) p = .ok source := by
    intro p hp
    -- Among the live fields, in any order, each parameter finds the field that feeds it.
    obtain ⟨q, hq, hname, hassignable⟩ :=
      exists_of_forall₂ (ObjectCodec.params_of_build hbuild hk).2 hp
    have hfield : q.field ∈ old.fields := by
      rw [hperm.mem_iff, ObjectCodec.fields_of_build hbuild]
      exact List.mem_map.2 ⟨q, hq, rfl⟩
    have hnodup : old.fieldNames.Nodup :=
      (hperm.map _).nodup_iff.2 (ObjectCodec.nodup_of_build hbuild)
    refine sourceFor_of_mem hnodup hfield hname ?_ live.typeName
    simpa only [PropertyCodec.field, hreparses q hq, Bool.not_not] using hassignable
  obtain ⟨x, hx, -⟩ := make_of_sources hk hsources
  exact ⟨x, hx⟩

/-- Whether a parameter is fed by an old shape does not depend on the order of its fields. -/
theorem sourceFor_discard_perm (hperm : old'.fields.Perm old.fields)
    (hnodup : old.fieldNames.Nodup) (typeName : String) (p : Param) :
    (sourceFor (ω := ω) r typeName (oldFieldsOf old') p >>= fun _ => pure ()) =
      (sourceFor r typeName (oldFieldsOf old) p >>= fun _ => pure ()) := by
  have hnodup' : ((bare (ω := ω) old.fields).map (·.1.name)).Nodup := by
    rw [names_bare]
    exact hnodup
  have hnamed := fieldNamed?_perm (hperm.map fun f => (f, (.null : Value ω))) hnodup' p.name
  have hcases := oldField?_cases (ω := ω) (map_bare old.fields) p.name
  have hcases' := oldField?_cases (ω := ω) (map_bare old'.fields) p.name
  rw [show fieldNamed? (bare old'.fields) p.name = fieldNamed? (bare old.fields) p.name from
    hnamed] at hcases'
  unfold oldField? at hcases hcases'
  -- Both orders have the same field of the name, or none.
  obtain ⟨hnone, hold⟩ | ⟨x, i, hx, -, hold⟩ := hcases
  · obtain ⟨-, hold'⟩ | ⟨x', i', hx', -, hold'⟩ := hcases'
    · rw [sourceFor, sourceFor, hold, hold']
    · cases hnone.symm.trans hx'
  · obtain ⟨hnone', -⟩ | ⟨x', i', hx', -, hold'⟩ := hcases'
    · cases hnone'.symm.trans hx
    · cases hx.symm.trans hx'
      rw [sourceFor, sourceFor, hold, hold']
      dsimp only
      split <;> rfl

/-- Whether an old shape can be read does not depend on the order of its fields. -/
theorem make_discard_perm (hperm : old'.fields.Perm old.fields) (hnodup : old.fieldNames.Nodup) :
    (make old' live r >>= fun _ => pure ()) = (make old live r >>= fun _ => pure ()) := by
  unfold make
  cases live.constructor with
  | none => rfl
  | some k =>
    simp only [bind_assoc, pure_bind]
    exact mapM_discard fun p _ => sourceFor_discard_perm hperm hnodup live.typeName p

/-- In another order, an old shape can be read with the same constructor, or cannot be read for the
same reason. -/
theorem make_perm (hperm : old'.fields.Perm old.fields) (hnodup : old.fieldNames.Nodup) :
    (∃ e, make old live r = .error e ∧ make old' live r = .error e) ∨
      ∃ x x', make old live r = .ok x ∧ make old' live r = .ok x' ∧
        x'.constructor = x.constructor := by
  -- Up to what is made, the order of fields does not show: both fail with one error, or none does.
  have hdiscard : (make old' live r >>= fun _ => pure ()) =
      (make old live r >>= fun _ => pure ()) := make_discard_perm hperm hnodup
  cases hmake : make old live r with
  | error e =>
    cases hmake' : make old' live r with
    | error e' =>
      rw [hmake, hmake'] at hdiscard
      cases hdiscard
      exact .inl ⟨e, rfl, rfl⟩
    | ok x' =>
      rw [hmake, hmake'] at hdiscard
      cases hdiscard
  | ok x =>
    cases hmake' : make old' live r with
    | error e' =>
      rw [hmake, hmake'] at hdiscard
      cases hdiscard
    | ok x' =>
      obtain ⟨k, hk, hx⟩ := make_eq_ok hmake
      obtain ⟨k', hk', hx'⟩ := make_eq_ok hmake'
      cases hk.symm.trans hk'
      refine .inr ⟨x, x', rfl, rfl, ?_⟩
      rw [hx, hx']

/-- An evolution codec that reads items which moved along with their fields as the default codec
reads them in place, and refuses the bodies that the default codec refuses. -/
structure ReadsLike (x : EvolutionCodec ω) (live : ObjectCodec ω) : Prop where
  moved : ∀ (schema : Schema) {items items' : List (Value ω)},
    items.length = live.composite.fields.length → items'.length = x.composite.fields.length →
    (x.composite.fields.zip items').Perm (live.composite.fields.zip items) →
      x.read schema (.list items') = live.read schema (.list items)
  misfit : ∀ (schema : Schema) {body body' : Value ω},
    ¬ body.HasItems live.composite.fields.length → ¬ body'.HasItems x.composite.fields.length →
      ∃ e e', live.read schema body = throw (.malformed e) ∧
        x.read schema body' = throw (.malformed e')

/-- A payload that lists the live fields, in any order, is read like one that lists them in the live
order. -/
theorem readsLike_of_perm (hbuild : ObjectCodec.build s r = .ok live)
    (hconcrete : s.kind.isConcrete = true) (hreparses : live.Reparses)
    (hperm : old.fields.Perm live.composite.fields) :
    ∃ x, make old live r = .ok x ∧ x.ReadsLike live := by
  obtain ⟨k, hk⟩ := ObjectCodec.constructor_of_build hbuild hconcrete
  obtain ⟨x, hmake⟩ := make_of_perm hbuild hreparses hk hperm
  have hparams := (ObjectCodec.params_of_build hbuild hk).1
  have hold : x.composite = old := by
    obtain ⟨k', -, rfl⟩ := make_eq_ok hmake
    rfl
  refine ⟨x, hmake, ⟨fun schema items items' hlength hlength' hmoved => ?_,
    fun schema body body' hbody hbody' => ?_⟩⟩
  · -- Both read the arguments by name, and moving fields with their items keeps what a name finds.
    rw [hold] at hlength' hmoved
    have hread := ObjectCodec.read_named hbuild hreparses hk (fields_zip hlength).symm schema
    have hread' := read_named hmake hk hparams (fields_zip hlength').symm schema
    have hnames : ((live.composite.fields.zip items).map (·.1.name)).Nodup := by
      rw [names_zip hlength]
      exact ObjectCodec.nodup_of_build hbuild
    rw [items_zip hlength] at hread
    rw [items_zip hlength'] at hread'
    rw [hread, hread', Constructor.readNamed_perm hmoved hnames]
  -- A body of another length is refused by both, though in different words.
  · rw [ObjectCodec.fields_of_build hbuild, List.length_map] at hbody
    obtain ⟨e, he⟩ := ObjectCodec.read_misfit hk hbody schema
    obtain ⟨e', he'⟩ := read_misfit hbody' schema
    exact ⟨e, e', he, he'⟩

end EvolutionCodec

end SelfDescribing
