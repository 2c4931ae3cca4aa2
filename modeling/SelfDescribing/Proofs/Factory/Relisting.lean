import SelfDescribing.Proofs.Codec.Restoring
import SelfDescribing.Proofs.Factory.Uncached

namespace SelfDescribing

open Steps

/-!
# Payloads that list fields in another order

Two payloads may differ in the order in which their schemas list the fields of a type, the items
of its bodies being moved along, and in the descriptors that their types claim.  Reading them gives
the same objects, or errors of one kind.

* `Setting.Relists` — values that differ in these ways alone.
* `matches_readAny`, `matches_readTyped` — what reading such values asks for.
* `ObjectCodec.matches_read`, `Constructor.matches_readNamed` — what codecs and constructors ask for
  at such bodies.

`Matches` from `Proofs/Codec/Matching` is shown here for all that reading is made of, from values to
the codecs of shapes.  Named parameters find their items by the names of fields, so that these may
be listed in any order.
-/

variable {ω : Type}

/-- A value without values in it. -/
def Value.isLeaf : Value ω → Bool
  | .list _ | .map _ | .described .. => false
  | _ => true

/-- Values of two payloads, with the schemas `S` and `S'`, that differ at most in the descriptors
of described values and in the order in which the items of bodies stand, which is that of the
fields in the schemas. -/
inductive Setting.Relists (s : Setting ω) (S S' : Schema) : Value ω → Value ω → Prop
  | leaf {v} : v.isLeaf = true → Relists s S S' v v
  | list {items items'} : List.Forall₂ (Relists s S S') items items' →
      Relists s S S' (.list items) (.list items')
  | map {entries entries'} :
      List.Forall₂ (Relists s S S') (entries.map (·.1)) (entries'.map (·.1)) →
      List.Forall₂ (Relists s S S') (entries.map (·.2)) (entries'.map (·.2)) →
      Relists s S S' (.map entries) (.map entries')
  /-- A described value that neither schema lists; a custom codec may read it all the same. -/
  | unlisted {descriptor body} : S.findByDescriptor? descriptor = none →
      S'.findByDescriptor? descriptor = none →
      (∀ b, s.customs.codecFor? descriptor = some b → Relists s S S' body body) →
      Relists s S S' (.described descriptor body) (.described descriptor body)
  /-- A value of a type with a custom codec. -/
  | custom {descriptor descriptor' body body' type type'} :
      S.findByDescriptor? descriptor = some type → S'.findByDescriptor? descriptor' = some type' →
      type'.name = type.name → (s.customs.codec? type.name).isSome = true →
      Relists s S S' body body' →
      Relists s S S' (.described descriptor body) (.described descriptor' body')
  /-- A value of a type that is told as a restricted one. -/
  | restricted {descriptor body body' type type'} :
      S.findByDescriptor? descriptor = some (.restricted type) →
      S'.findByDescriptor? descriptor = some (.restricted type') → type'.name = type.name →
      Relists s S S' body body' →
      Relists s S S' (.described descriptor body) (.described descriptor body')
  /-- A value of a type with fields: first the items differ in place, then they are moved along
  with their fields. -/
  | fields {descriptor descriptor' old old' items middle items'} :
      S.findByDescriptor? descriptor = some (.composite old) →
      S'.findByDescriptor? descriptor' = some (.composite old') →
      old'.name = old.name → s.customs.codec? old.name = none →
      items.length = old.fields.length → items'.length = old'.fields.length →
      List.Forall₂ (Relists s S S') items middle →
      (old'.fields.zip items').Perm (old.fields.zip middle) →
      Relists s S S' (.described descriptor (.list items)) (.described descriptor' (.list items'))
  /-- A value of a concrete type whose body has not one item for each field. -/
  | misfit {descriptor descriptor' old old' body body'} :
      S.findByDescriptor? descriptor = some (.composite old) →
      S'.findByDescriptor? descriptor' = some (.composite old') →
      old'.name = old.name → s.customs.codec? old.name = none →
      (∀ shape, s.registry.shape? old.name = some shape → shape.kind.isConcrete = true) →
      old'.fields.Perm old.fields → ¬ body.HasItems old.fields.length →
      ¬ body'.HasItems old.fields.length →
      Relists s S S' (.described descriptor body) (.described descriptor' body')

variable {s : Setting ω} {S S' : Schema}

namespace Setting.Relists

variable {v v' : Value ω}

/-- Nulls correspond to nulls. -/
theorem isNull_eq (h : s.Relists S S' v v') : v'.isNull = v.isNull := by cases h <;> rfl

/-- A value is null if the other one is. -/
theorem eq_null_iff (h : s.Relists S S' v v') : v' = .null ↔ v = .null := by
  constructor
  · rintro rfl
    cases h
    rfl
  · rintro rfl
    cases h
    rfl

/-- Lists correspond to lists, item by item. -/
theorem list_iff {items : List (Value ω)} : s.Relists S S' (.list items) v' ↔
    ∃ items', v' = .list items' ∧ List.Forall₂ (s.Relists S S') items items' := by
  constructor
  · intro h
    cases h with
    | leaf h => cases h
    | list h => exact ⟨_, rfl, h⟩
  · rintro ⟨items', rfl, h⟩
    exact .list h

/-- What is no list corresponds to no list. -/
theorem ne_list (h : s.Relists S S' v v') (hv : ∀ items, v ≠ .list items) :
    ∀ items', v' ≠ .list items' := by
  rintro items' rfl
  cases h with
  | leaf h => cases h
  | list h => exact hv _ rfl

/-- Relisting keeps what is primitive. -/
theorem primitive?_eq (h : s.Relists S S' v v') : v'.primitive? = v.primitive? := by
  cases h <;> rfl

/-- Primitive values are the same in both payloads. -/
theorem eq_of_primitive? (h : s.Relists S S' v v') {p : Primitive} (hp : v.primitive? = some p) :
    v' = v := by
  cases h with
  | leaf _ => rfl
  | _ => cases hp

/-- A described value that one schema lists is listed by the other one. -/
theorem listed_iff {descriptor descriptor' body body' : Value ω}
    (h : s.Relists S S' (.described descriptor body) (.described descriptor' body')) :
    (S'.findByDescriptor? descriptor').isSome = (S.findByDescriptor? descriptor).isSome := by
  cases h with
  | leaf h => cases h
  | unlisted h h' => rw [h, h']
  | custom h h' => rw [h, h']; rfl
  | restricted h h' => rw [h, h']; rfl
  | fields h h' => rw [h, h']; rfl
  | misfit h h' => rw [h, h']; rfl

end Setting.Relists

/-! ### What reading asks for -/

open Exchange

/-- A value without values in it is read as it is. -/
theorem readAny_leaf {v : Value ω} (h : v.isLeaf = true) (schema : Schema) :
    readAny schema v = pure v := by
  cases v with
  | list | map | described => cases h
  | _ => rfl

mutual

/-- By recursion on the value, together with its items and entries: lists and maps are read part by
part, and a described value is asked for if its tag is listed, which it is in both schemas or in
none. -/
theorem matches_readAny : ∀ (v : Value ω) {v' : Value ω}, s.Relists S S' v v' →
    (readAny S v).Matches (s.Relists S S') (readAny S' v')
  | .list items, v', h => by
    cases h with
    | leaf h => cases h
    | list h =>
      rw [readAny, readAny]
      exact (matches_readItems items h).bind fun _ => .pure _
  | .map entries, v', h => by
    cases h with
    | leaf h => cases h
    | map hkeys hvalues =>
      rw [readAny, readAny]
      exact (matches_readEntries entries hkeys hvalues).bind fun _ => .pure _
  | .described descriptor body, v', h => by
    cases v' with
    | described descriptor' body' =>
      have hlisted := h.listed_iff
      rw [readAny, readAny]
      cases hfind : S.findByDescriptor? descriptor with
      | some type =>
        rw [hfind] at hlisted
        rw [hlisted, if_pos Option.isSome_some, if_pos Option.isSome_some]
        exact (Matches.request h).bind fun _ => .pure _
      | none =>
        -- What neither schema lists is taken as it is, so it must be the same in both.
        rw [hfind] at hlisted
        have hunlisted : ¬ (none : Option TypeNotation).isSome = true := Bool.false_ne_true
        rw [hlisted, if_neg hunlisted, if_neg hunlisted]
        cases h with
        | leaf h => cases h
        | unlisted => exact .pure _
        | custom h | restricted h | fields h | misfit h => cases hfind.symm.trans h
    | _ => cases h
  | .null, v', h | .bool _, v', h | .ubyte _, v', h | .ushort _, v', h | .uint _, v', h
  | .ulong _, v', h | .byte _, v', h | .short _, v', h | .int _, v', h | .long _, v', h
  | .float _, v', h | .double _, v', h | .char _, v', h | .timestamp _, v', h
  | .binary _, v', h | .string _, v', h | .symbol _, v', h | .live _, v', h => by
    cases h with
    | leaf h =>
      rw [readAny_leaf h, readAny_leaf h]
      exact .pure _

/-- The items of a list are read in their order. -/
theorem matches_readItems : ∀ (items : List (Value ω)) {items' : List (Value ω)},
    List.Forall₂ (s.Relists S S') items items' →
    (readItems S items).Matches (s.Relists S S') (readItems S' items')
  | [], _, .nil => .pure _
  | v :: rest, _, .cons hv hrest => by
    rw [readItems, readItems]
    exact (matches_readAny v hv).bind fun _ => (matches_readItems rest hrest).bind fun _ => .pure _

/-- The entries of a map are read in their order, each key in front of its value. -/
theorem matches_readEntries : ∀ (entries : List (Value ω × Value ω))
    {entries' : List (Value ω × Value ω)},
    List.Forall₂ (s.Relists S S') (entries.map (·.1)) (entries'.map (·.1)) →
    List.Forall₂ (s.Relists S S') (entries.map (·.2)) (entries'.map (·.2)) →
    (readEntries S entries).Matches (s.Relists S S') (readEntries S' entries')
  | [], [], _, _ => .pure _
  | [], _ :: _, h, _ => nomatch h
  | _ :: _, [], h, _ => nomatch h
  | (k, v) :: rest, (k', v') :: rest', .cons hk hkeys, .cons hv hvalues => by
    rw [readEntries, readEntries]
    exact (matches_readAny k hk).bind fun _ => (matches_readAny v hv).bind fun _ =>
      (matches_readEntries rest hkeys hvalues).bind fun _ => .pure _

end

/-- By recursion on the type: a primitive type asks for nothing, a list type for its items, and any
other type for the value. -/
theorem matches_readTyped (property : String) {type : FieldType} :
    ∀ {v v' : Value ω}, s.Relists S S' v v' →
      (readTyped S property type v).Matches (s.Relists S S') (readTyped S' property type v') := by
  induction type with
  -- Without a declared type the value is read as what it is.
  | any =>
    intro v v' h
    rw [readTyped_any, readTyped_any]
    exact matches_readAny v h
  | named name =>
    intro v v' h
    -- Null is read as null for every other type.
    by_cases hv : v = .null
    · subst hv
      rw [h.eq_null_iff.2 rfl, readTyped_null, readTyped_null]
      exact .pure _
    · have hv' : v' ≠ .null := mt h.eq_null_iff.1 hv
      rw [readTyped_named S property name hv, readTyped_named S' property name hv']
      exact (Matches.request h).bind fun _ => .pure _
  | list element ih =>
    intro v v' h
    by_cases hv : v = .null
    · subst hv
      rw [h.eq_null_iff.2 rfl, readTyped_null, readTyped_null]
      exact .pure _
    · by_cases hlist : ∃ items, v = .list items
      · obtain ⟨items, rfl⟩ := hlist
        obtain ⟨items', rfl, hitems⟩ := Setting.Relists.list_iff.1 h
        rw [readTyped_list, readTyped_list]
        exact (Matches.mapM (hitems.imp fun _ _ hitem => ih hitem)).bind fun _ => .pure _
      -- What is no list is refused with its kind, which relisting keeps.
      · have hlist : ∀ items, v ≠ .list items := fun items hv => hlist ⟨items, hv⟩
        rw [readTyped_not_list S property element hv hlist,
          readTyped_not_list S' property element (mt h.eq_null_iff.1 hv) (h.ne_list hlist)]
        exact .throw rfl
  | primitive p =>
    intro v v' h
    by_cases hv : v = .null
    · subst hv
      rw [h.eq_null_iff.2 rfl, readTyped_null, readTyped_null]
      exact .pure _
    · have hv' : v' ≠ .null := mt h.eq_null_iff.1 hv
      rw [readTyped_primitive S property p hv, readTyped_primitive S' property p hv',
        h.primitive?_eq]
      by_cases hp : v.primitive? = some p
      · rw [if_pos hp, if_pos hp, h.eq_of_primitive? hp]
        exact .pure _
      · rw [if_neg hp, if_neg hp]
        exact .throw rfl

/-- A property is read by its type, or as any value. -/
theorem PropertyCodec.matches_read (p : PropertyCodec ω) {v v' : Value ω}
    (h : s.Relists S S' v v') : (p.read S v).Matches (s.Relists S S') (p.read S' v') := by
  rw [read, read, h.isNull_eq]
  by_cases hnull : (v.isNull && !p.nullable) = true
  · rw [if_pos hnull, if_pos hnull]
    exact .throw rfl
  · rw [if_neg hnull, if_neg hnull]
    exact matches_readTyped p.name h

/-- Constructing an object asks for nothing. -/
theorem Constructor.matches_build (k : Constructor ω) (args : List (Value ω)) :
    Matches (s.Relists S S') (k.build args : Reading ω ω) (k.build args) := .done (.refl _)

/-- The same fields with related items have related items of each name. -/
theorem fieldNamed?_relists {fields : List Field} {items items' : List (Value ω)}
    (h : List.Forall₂ (s.Relists S S') items items') (name : String) :
    (fieldNamed? (fields.zip items) name = none ∧ fieldNamed? (fields.zip items') name = none) ∨
      ∃ f v v', fieldNamed? (fields.zip items) name = some (f, v) ∧
        fieldNamed? (fields.zip items') name = some (f, v') ∧ s.Relists S S' v v' := by
  induction h generalizing fields with
  | nil =>
    rw [List.zip_nil_right]
    exact .inl ⟨rfl, rfl⟩
  | @cons v v' _ _ hv _ ih =>
    cases fields with
    | nil => exact .inl ⟨rfl, rfl⟩
    | cons f fields =>
      rw [List.zip_cons_cons, List.zip_cons_cons, fieldNamed?, fieldNamed?, List.find?_cons,
        List.find?_cons]
      by_cases hname : f.name = name
      · rw [decide_eq_true hname]
        exact .inr ⟨f, v, v', rfl, rfl, hv⟩
      · rw [decide_eq_false hname]
        exact ih

/-- Parameters are found by the names of fields, so both payloads read the same ones. -/
theorem Constructor.matches_readNamed (k : Constructor ω) {fields : List Field}
    {items items' : List (Value ω)} (h : List.Forall₂ (s.Relists S S') items items') :
    (k.readNamed S (fields.zip items)).Matches (s.Relists S S')
      (k.readNamed S' (fields.zip items')) := by
  refine (Matches.mapM (List.forall₂_same.2 fun name _ => ?_)).bind fun _ => k.matches_build _
  rw [SelfDescribing.readNamed, SelfDescribing.readNamed]
  obtain ⟨hnone, hnone'⟩ | ⟨f, v, v', hv, hv', hrel⟩ := fieldNamed?_relists h name
  · rw [hnone, hnone']
    exact .pure _
  · rw [hv, hv']
    exact (PropertyCodec.ofField f).matches_read hrel

/-- Two lists in relation stay so when both are paired with a third one. -/
theorem forall₂_zip_left {α β γ : Type} {R : β → γ → Prop} {Q : α × β → α × γ → Prop}
    {xs : List α} {ys : List β} {zs : List γ} (h : List.Forall₂ R ys zs)
    (hQ : ∀ x y z, R y z → Q (x, y) (x, z)) : List.Forall₂ Q (xs.zip ys) (xs.zip zs) := by
  induction h generalizing xs with
  | nil =>
    rw [List.zip_nil_right, List.zip_nil_right]
    exact .nil
  | cons hyz _ ih =>
    cases xs with
    | nil => exact .nil
    | cons x xs => exact .cons (hQ x _ _ hyz) ih

/-- The default codec refuses a body that is no list, with its kind named. -/
theorem ObjectCodec.read_not_list {live : ObjectCodec ω} {body : Value ω}
    (h : ∀ items, body ≠ .list items) (schema : Schema) :
    live.read schema body = throw (.malformed (.notFieldList live.typeName body.kind)) := by
  cases body with
  | list items => exact absurd rfl (h items)
  | _ => rfl

/-- The default codec of a type asks for the same at related bodies. -/
theorem ObjectCodec.matches_read (live : ObjectCodec ω) {body body' : Value ω}
    (h : s.Relists S S' body body') :
    (live.read S body).Matches (s.Relists S S') (live.read S' body') := by
  by_cases hlist : ∃ items, body = .list items
  · obtain ⟨items, rfl⟩ := hlist
    obtain ⟨items', rfl, hitems⟩ := Setting.Relists.list_iff.1 h
    show (live.construct S items).Matches _ (live.construct S' items')
    rw [construct, construct, hitems.length_eq]
    cases live.constructor with
    | none => exact .throw rfl
    | some k =>
      dsimp only
      by_cases hlength : items'.length ≠ live.properties.length
      · rw [if_pos hlength, if_pos hlength]
        exact .throw rfl
      · rw [if_neg hlength, if_neg hlength]
        exact (Matches.mapM (forall₂_zip_left hitems fun p _ _ hv => p.matches_read hv)).bind
          fun _ => k.matches_build _
  · have hlist : ∀ items, body ≠ .list items := fun items hv => hlist ⟨items, hv⟩
    rw [read_not_list hlist, read_not_list (h.ne_list hlist)]
    exact .throw rfl

end SelfDescribing
