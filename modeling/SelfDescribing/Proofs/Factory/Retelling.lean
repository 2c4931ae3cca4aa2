import SelfDescribing.Proofs.Factory.Differing

namespace SelfDescribing

open Steps

/-!
# Schemas with another root

The schema of a payload tells the type at its root and the types inside it.  Where the types inside
are told apart, schemas of other roots with the same types inside tell the same of all tags that
belong to neither root.

* `Codec.ToldApart` — codecs whose types are not taken for each other.
* `Setting.schemaOf` — the schema of a root and the codecs inside it.
* `Setting.agreesOff_schemaOf` — what schemas of two roots tell alike.

A schema that was carried to another setting differs at its root, and it may tell other supertypes
of the types inside.  Both kinds of difference are covered by `AgreesOff`, which reading in
`Proofs/Factory/Differing` asks for.
-/

variable {ω : Type}

/-- Codecs of one type, or of types that share neither the name nor a tag. -/
def Codec.ToldApart (c c' : Codec ω) : Prop :=
  (c'.type.name = c.type.name ∨
    ∃ d : Value ω, c.descriptor.admits d = true ∧ c'.descriptor.admits d = true) →
      c'.type = c.type

/-- Codecs that may tell other supertypes, in any order and as often as they like. -/
structure Codec.RetellsAll (codecs codecs' : List (Codec ω)) : Prop where
  left : ∀ c ∈ codecs, ∃ c' ∈ codecs', c.Retells c'
  right : ∀ c' ∈ codecs', ∃ c ∈ codecs, c.Retells c'

namespace Codec.RetellsAll

variable {codecs codecs' : List (Codec ω)}

/-- Every codec retells itself. -/
theorem refl (codecs : List (Codec ω)) : RetellsAll codecs codecs where
  left c hc := ⟨c, hc, .same c⟩
  right c hc := ⟨c, hc, .same c⟩

/-- Codecs that retell each other one by one do so together, and the order of their owners does not
matter. -/
theorem flatMap {α : Type} {xs xs' : List α} (hxs : ∀ x, x ∈ xs' ↔ x ∈ xs)
    {f f' : α → List (Codec ω)} (h : ∀ x ∈ xs, List.Forall₂ Retells (f x) (f' x)) :
    RetellsAll (xs.flatMap f) (xs'.flatMap f') := by
  constructor
  · intro c hc
    obtain ⟨x, hx, hc⟩ := List.mem_flatMap.1 hc
    obtain ⟨c', hc', hretells⟩ := exists_of_forall₂ (h x hx) hc
    exact ⟨c', List.mem_flatMap.2 ⟨x, (hxs x).2 hx, hc'⟩, hretells⟩
  · intro c' hc'
    obtain ⟨x, hx, hc'⟩ := List.mem_flatMap.1 hc'
    have hx' := (hxs x).1 hx
    obtain ⟨c, hc, hretells⟩ := exists_of_forall₂ (h x hx').flip hc'
    exact ⟨c, List.mem_flatMap.2 ⟨x, hx', hc⟩, hretells⟩

end Codec.RetellsAll

namespace Setting

/-- The schema of a payload, from the codec of its root and those of the objects inside it. -/
def schemaOf (root : Codec ω) (nested : List (Codec ω)) : Schema :=
  ⟨(root :: nested).foldl noted []⟩

variable {root root' : Codec ω} {nested nested' : List (Codec ω)} {d : Value ω}

/-- A schema tells the types of its codecs and nothing else. -/
theorem mem_schemaOf {type : TypeNotation} (h : type ∈ (schemaOf root nested).types) :
    type = root.type ∨ ∃ c ∈ nested, type = c.type := by
  obtain h | ⟨c, hc, rfl⟩ := mem_foldl_noted h
  · cases h
  · obtain rfl | hc := List.mem_cons.1 hc
    · exact .inl rfl
    · exact .inr ⟨c, hc, rfl⟩

/-- The root's type is told first. -/
theorem prefix_schemaOf (root : Codec ω) (nested : List (Codec ω)) :
    [root.type] <+: (schemaOf root nested).types :=
  prefix_foldl_noted (noted [] root) nested

/-- The root's own tag is listed as the root's. -/
theorem find_root (root : Codec ω) (nested : List (Codec ω)) :
    (schemaOf root nested).findByDescriptor? (root.type.descriptor.toValue : Value ω) =
      some root.type := by
  obtain ⟨rest, hrest⟩ := prefix_schemaOf root nested
  rw [Schema.findByDescriptor?, ← hrest, List.singleton_append, List.find?_cons,
    Descriptor.admits_toValue]

/-- The type at the root is the one of the root's codec. -/
theorem rootType_schemaOf (root : Codec ω) (nested : List (Codec ω)) (inner : Value ω) :
    Factory.rootType ⟨root.type.descriptor.describe inner, schemaOf root nested⟩ =
      .ok root.type.name := Factory.rootType_of_find (find_root root nested)

/-- A tag of none of the types is not listed. -/
theorem find_eq_none (hroot : root.descriptor.admits d = false)
    (hnested : ∀ c ∈ nested, c.descriptor.admits d = false) :
    (schemaOf root nested).findByDescriptor? d = none := by
  refine List.find?_eq_none.2 fun type htype hadmits => ?_
  obtain rfl | ⟨c, hc, rfl⟩ := mem_schemaOf htype
  · exact Bool.false_ne_true (hroot.symm.trans hadmits)
  · exact Bool.false_ne_true ((hnested c hc).symm.trans hadmits)

/-- A tag of a type inside the root is told as one of a type inside the root. -/
theorem find_nested (hroot : root.descriptor.admits d = false)
    (hnames : ∀ c ∈ nested, c.type.name ≠ root.type.name)
    (hsame : ∀ c ∈ nested, ∀ c' ∈ nested, c'.type.name = c.type.name →
      c'.descriptor = c.descriptor) {c : Codec ω} (hc : c ∈ nested)
    (hadmits : c.descriptor.admits d = true) :
    ∃ c' ∈ nested, c'.descriptor.admits d = true ∧
      (schemaOf root nested).findByDescriptor? d = some c'.type := by
  -- A type of this name is listed, and has the same tags.
  obtain ⟨type, htype, hname⟩ := exists_mem_foldl_noted [] (List.mem_cons_of_mem root hc)
  have hlisted : type.descriptor.admits d = true := by
    obtain rfl | ⟨c₁, hc₁, rfl⟩ := mem_schemaOf htype
    · exact absurd hname.symm (hnames c hc)
    · have hdescriptor : c₁.type.descriptor = c.descriptor := hsame c hc c₁ hc₁ hname
      rw [hdescriptor]
      exact hadmits
  cases hfind : (schemaOf root nested).findByDescriptor? d with
  | none => exact absurd hlisted (List.find?_eq_none.1 hfind type htype)
  | some found =>
    have hfound : found.descriptor.admits d = true := by
      have hsatisfies := List.find?_some hfind
      exact hsatisfies
    obtain rfl | ⟨c', hc', rfl⟩ := mem_schemaOf (List.mem_of_find?_eq_some hfind)
    · exact absurd hfound (Bool.eq_false_iff.1 hroot)
    · exact ⟨c', hc', hfound, rfl⟩

section Retold

variable (hretells : Codec.RetellsAll nested nested')
  (hapart : ∀ c ∈ nested, ∀ c' ∈ nested, c.ToldApart c')
  (hnames : ∀ c ∈ nested, c.type.name ≠ root.type.name)

include hretells hapart hnames

/-- What the other schema tells of a type inside the root, the first one tells too. -/
theorem mem_schemaOf_retold {type' : TypeNotation} (h : type' ∈ (schemaOf root' nested').types) :
    type' = root'.type ∨ ∃ type ∈ (schemaOf root nested).types, type.Agrees type' := by
  obtain h | ⟨c', hc', rfl⟩ := mem_schemaOf h
  · exact .inl h
  · obtain ⟨c, hc, hretold⟩ := hretells.right c' hc'
    obtain ⟨type, htype, hname⟩ := exists_mem_foldl_noted [] (List.mem_cons_of_mem root hc)
    refine .inr ⟨type, htype, ?_⟩
    obtain rfl | ⟨c₁, hc₁, rfl⟩ := mem_schemaOf htype
    · exact absurd hname.symm (hnames c hc)
    · rw [hapart c hc c₁ hc₁ (.inl hname)]
      exact hretold.agrees

/-- Types list distinct fields in the other schema if they do in the first one. -/
theorem distinct_retold (hdistinct : (schemaOf root nested).Distinct)
    (hroot' : root'.type.Distinct) : (schemaOf root' nested').Distinct := by
  intro type' htype'
  obtain rfl | ⟨type, htype, hagrees⟩ := mem_schemaOf_retold hretells hapart hnames htype'
  · exact hroot'
  · exact hagrees.distinct (hdistinct type htype)

/-- Off the two roots, the same tags find notations that agree. -/
theorem rel_find (hname : root'.type.name = root.type.name)
    (hroot : root.descriptor.admits d = false) (hroot' : root'.descriptor.admits d = false) :
    Option.Rel TypeNotation.Agrees ((schemaOf root nested).findByDescriptor? d)
      ((schemaOf root' nested').findByDescriptor? d) := by
  by_cases hnested : ∃ c ∈ nested, c.descriptor.admits d = true
  · obtain ⟨c, hc, hadmits⟩ := hnested
    obtain ⟨c', hc', hretold⟩ := hretells.left c hc
    have hnames' : ∀ c' ∈ nested', c'.type.name ≠ root'.type.name := by
      intro c' hc'
      obtain ⟨c, hc, hretold⟩ := hretells.right c' hc'
      rw [hretold.agrees.name_eq, hname]
      exact hnames c hc
    have hsame : ∀ c ∈ nested, ∀ c' ∈ nested, c'.type.name = c.type.name →
        c'.descriptor = c.descriptor := fun c hc c' hc' hname =>
      congrArg TypeNotation.descriptor (hapart c hc c' hc' (.inl hname))
    have hsame' : ∀ c ∈ nested', ∀ c' ∈ nested', c'.type.name = c.type.name →
        c'.descriptor = c.descriptor := by
      intro c hc c' hc' hname
      obtain ⟨c₁, hc₁, hretold₁⟩ := hretells.right c hc
      obtain ⟨c₂, hc₂, hretold₂⟩ := hretells.right c' hc'
      rw [hretold₁.agrees.name_eq, hretold₂.agrees.name_eq] at hname
      rw [hretold₁.descriptor_eq, hretold₂.descriptor_eq]
      exact hsame c₁ hc₁ c₂ hc₂ hname
    obtain ⟨c₁, hc₁, hadmits₁, hfind₁⟩ := find_nested hroot hnames hsame hc hadmits
    obtain ⟨c₂, hc₂, hadmits₂, hfind₂⟩ := find_nested hroot' hnames' hsame' hc'
      (by rwa [hretold.descriptor_eq])
    -- Both schemas tell a type that the tag belongs to, and there is one such type.
    obtain ⟨c₃, hc₃, hretold₃⟩ := hretells.right c₂ hc₂
    rw [hretold₃.descriptor_eq] at hadmits₂
    rw [hfind₁, hfind₂, hapart c₃ hc₃ c₁ hc₁ (.inr ⟨d, hadmits₂, hadmits₁⟩)]
    exact .some hretold₃.agrees
  · push Not at hnested
    have hnone : ∀ c ∈ nested, c.descriptor.admits d = false :=
      fun c hc => Bool.eq_false_iff.2 (hnested c hc)
    have hnone' : ∀ c ∈ nested', c.descriptor.admits d = false := by
      intro c' hc'
      obtain ⟨c, hc, hretold⟩ := hretells.right c' hc'
      rw [hretold.descriptor_eq]
      exact hnone c hc
    rw [find_eq_none hroot hnone, find_eq_none hroot' hnone']
    exact .none

/-- Schemas of two roots of one name, with the same types inside, tell the same of tags that belong
to neither root. -/
theorem agreesOff_schemaOf (hname : root'.type.name = root.type.name) {v : Value ω}
    (htags : ∀ d body, (Value.described d body).PartOf v →
      root.descriptor.admits d = false ∧ root'.descriptor.admits d = false) :
    (schemaOf root nested).AgreesOff (schemaOf root' nested') root.type.name v := by
  intro d body hpart
  obtain ⟨hroot, hroot'⟩ := htags d body hpart
  refine ⟨rel_find hretells hapart hnames hname hroot hroot', fun type hfind => ?_⟩
  obtain rfl | ⟨c, hc, rfl⟩ := mem_schemaOf (List.mem_of_find?_eq_some hfind)
  · have hsatisfies := List.find?_some hfind
    exact absurd hsatisfies (Bool.eq_false_iff.1 hroot)
  · exact hnames c hc

end Retold

end Setting

end SelfDescribing
