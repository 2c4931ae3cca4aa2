import SelfDescribing.Proofs.Envelope.Overflowing
import SelfDescribing.Proofs.Factory.RootCodec

namespace SelfDescribing

open Steps

/-!
# Values come back

`Factory.values_of_decode`: the values of an encoded object are read back one by one.  The reader
asks the schema for the tag of a described value, and leaves it as it is where the tag is not
listed.  So a value comes back exactly if its live objects stand outside its described values: the
writer writes the objects inside them all the same.
-/

variable {ω : Type} [LiveObject ω]

namespace Factory

/-- An encoded object of a shape is decoded as what the constructor of the shape makes of its
values.  Each value is as the getter gave it exactly if its live objects stand outside its
described values, if no tag in the values is in the schema and the objects inside are read back. -/
theorem values_of_decode {f f' g : Factory ω} {object : ω} {bytes : List UInt8} {body : Value ω}
    {schema : Schema} {codec : ObjectCodec ω} {k : Constructor ω} (hf : f.Reachable)
    (hencode : encode object f = .ok bytes f')
    (hwriting : writing (writeObject object) f = .ok (body, schema) f')
    (hbetween : f'.Continues g)
    (hroot : (f.reached object).head? = some (object, .object codec))
    (hk : codec.constructor = some k)
    (hvalues : ∀ p ∈ codec.properties, ∀ v, p.Holds object v →
      schema.ListsNone v ∧ (v = .null → p.nullable = true))
    (hundoes : ∀ x ∈ (f.reached object).tail, x.2.UndoesIn schema x.1)
    (hapart : f.toSetting.NamesApart)
    (hdescriptors : ∀ x ∈ f.reached object, ∀ y ∈ f.reached object,
      x.2.descriptor.admits (y.2.descriptor.toValue : Value ω) = true →
        x.2.typeName = y.2.typeName)
    (hfields : ∀ o b, (o, Codec.custom b) ∈ f.reached object → b.type.Distinct)
    (hnesting : (⟨body, schema⟩ : Envelope ω).toValue.nesting ≤ f.config.maxDepth) :
    ∃ values trees, List.Forall₂ (fun p v => p.Holds object v) codec.properties values ∧
      List.Forall₂ (fun v tree => tree = v ↔ v.ObjectsOutside) values trees ∧
      outcome (decode (LiveObject.hostType object) bytes g) =
        k.build trees >>= Value.downcast (.ofHost (LiveObject.hostType object)) := by
  obtain ⟨body, c, hwritten, hwrite, rfl, hbytes⟩ := encode_eq_ok hencode
  cases hwriting.symm.trans hwritten
  have hreached := reached_of_writeWithin hf.coherent hapart hwrite
  have hfound := hreached.findByDescriptor? hdescriptors
  have hmem := List.mem_of_mem_head? hroot
  -- What was reached is still there when the payload is read.
  obtain ⟨-, hconfig, hname, hheld⟩ := (hreached.serves hf.coherent hmem).continues hbetween
  have hholds : ∀ x ∈ f.reached object, g.toSetting.Holds g.caches x.2 :=
    fun x hx => hheld _ (List.mem_map.2 ⟨x, hx, rfl⟩)
  -- What was written is data, with the tag of the object's shape.
  have hdata := Value.holdsNoObject_of_complete (Envelope.complete_body hbytes)
  obtain ⟨values, trees, hgiven, hreturns, hread⟩ :=
    Setting.readWithin_root hwrite hroot (hholds _ hmem) (hfound _ hmem) hvalues
      (fun x hx => ⟨hundoes x hx, hholds x (List.mem_of_mem_tail hx),
        hfound x (List.mem_of_mem_tail hx)⟩) hdata
  obtain ⟨-, writer, -, inner, -, -, hhead, rfl, -⟩ := Setting.root_of_writeWithin hwrite
  obtain ⟨-, rfl⟩ := Prod.mk.inj (Option.some.inj (hhead.symm.trans hroot))
  -- The payload is parsed as what was written, and its root is read.
  have hparse : Envelope.parse bytes g.config.maxDepth =
      .ok (⟨(Codec.object codec).descriptor.describe inner, ⟨c.types⟩⟩ : Envelope ω) :=
    Envelope.parse_toBytes hbytes (hreached.distinct hfields) (hconfig ▸ hnesting)
  have hopen := (openPayload_eq_parse hname fun e he => by
    cases hparse.symm.trans he
    exact rootType_of_find (hfound _ hmem)).trans hparse
  refine ⟨values, trees, hgiven, hreturns, ?_⟩
  rw [outcome_decode_of_open hopen, hconfig]
  exact congrArg (· >>= _) (hread k hk g.caches (refl g.caches))

end Factory

/-! ### Boxes with tagged values -/

namespace Boxes

/-- A note in a list, one in a map, and a tagged value, with one or with a text. -/
def filling (inside : Bool) : Value Entity :=
  .list [.live aNote, .map [(.string "note", .live aNote)],
    .described (.symbol "tag") (if inside then .live aNote else .string "hi")]

/-- A box with these. -/
def aFilledBox (inside : Bool) : Entity := .record 0 [("item", filling inside)]

/-- A note as it is written. -/
def writtenNote : Value Entity := Descriptor.describe ⟨"note", none⟩ (.list [.string "hi"])

/-- The envelope of the box's payload. -/
def filledEnvelope (inside : Bool) : Envelope Entity :=
  ⟨boxType.descriptor.describe (.list [.list [writtenNote, .map [(.string "note", writtenNote)],
    .described (.symbol "tag") (if inside then writtenNote else .string "hi")]]),
    ⟨[.composite boxType, .composite (noteType false)]⟩⟩

/-- What the box is written as, found by running. -/
theorem writing_filled (inside : Bool) :
    Factory.writing (writeObject (aFilledBox inside)) (factory false) =
      .ok ((filledEnvelope inside).body, (filledEnvelope inside).schema) (factory false) := by
  cases inside <;> rfl

/-- The payload of the box. -/
theorem encode_filled (inside : Bool) : Factory.encode (aFilledBox inside) (factory false) =
    .ok (header ++ (filledEnvelope inside).toValue.encode.bytes) (factory false) := by
  have hbytes : (filledEnvelope inside).toBytes =
      .ok (header ++ (filledEnvelope inside).toValue.encode.bytes) := by
    refine Envelope.toBytes_eq_ok_iff.2 ⟨Option.isNone_iff_eq_none.1 ?_, rfl⟩
    cases inside <;> decide +kernel
  rw [Factory.encode, bind_ok (writing_filled inside)]
  exact Factory.inspecting_eq_ok.2 ⟨hbytes, rfl⟩

/-- The payload of the box is nested within the usual limit. -/
theorem nesting_filled (inside : Bool) : (filledEnvelope inside).toValue.nesting ≤ 64 := by
  cases inside <;> decide +kernel

/-- The box is met first, and then nothing but notes. -/
theorem reached_filled (inside : Bool) : ∃ notes, (factory false).reached (aFilledBox inside) =
    (aFilledBox inside, .object boxCodec) :: notes ∧
      ∀ x ∈ notes, x = (aNote, .custom (noteCodec false)) := by
  cases inside
  · refine ⟨[(aNote, .custom (noteCodec false)), (aNote, .custom (noteCodec false))], rfl, ?_⟩
    simp
  · refine ⟨[(aNote, .custom (noteCodec false)), (aNote, .custom (noteCodec false)),
      (aNote, .custom (noteCodec false))], rfl, ?_⟩
    simp

/-- Whatever is met on the way through the box is the box or a note. -/
theorem reached_of_filled {inside : Bool} {x : Entity × Codec Entity}
    (h : x ∈ (factory false).reached (aFilledBox inside)) :
    x = (aFilledBox inside, .object boxCodec) ∨ x = (aNote, .custom (noteCodec false)) := by
  obtain ⟨notes, hreached, hnotes⟩ := reached_filled inside
  rw [hreached, List.mem_cons] at h
  exact h.imp id (hnotes x)

/-- The schema does not list the tag in the box. -/
theorem listsNone_filling (inside : Bool) :
    (filledEnvelope inside).schema.ListsNone (filling inside) := by
  have htag : (filledEnvelope inside).schema.findByDescriptor? (.symbol "tag" : Value Entity) =
      none := by cases inside <;> decide +kernel
  have hbody : (if inside then .live aNote else .string "hi" : Value Entity).isPlain = true := by
    cases inside <;> rfl
  refine Value.eachDescribed_list.2 ?_
  rw [List.forall_mem_cons, List.forall_mem_cons, List.forall_mem_singleton]
  exact ⟨Value.eachDescribed_of_isPlain rfl, Value.eachDescribed_of_isPlain rfl,
    Value.eachDescribed_described.2 ⟨htag, Value.eachDescribed_of_isPlain hbody⟩⟩

/-- The objects in the box stand outside its tag if the tag holds a text. -/
theorem objectsOutside_filling (inside : Bool) :
    (filling inside).ObjectsOutside ↔ inside = false := by
  refine Value.eachDescribed_list.trans ?_
  rw [List.forall_mem_cons, List.forall_mem_cons, List.forall_mem_singleton,
    Value.eachDescribed_described]
  cases inside with
  | true =>
    refine iff_of_false ?_ (fun h => nomatch h)
    rintro ⟨-, -, hbody, -⟩
    exact hbody aNote .refl
  | false =>
    refine iff_of_true ⟨?_, ?_, ?_, ?_⟩ rfl
    · exact Value.eachDescribed_of_isPlain rfl
    · exact Value.eachDescribed_of_isPlain rfl
    · intro object hpart
      cases hpart
    · exact Value.eachDescribed_of_isPlain rfl

/-- The one value of the box has no listed tag and is not null. -/
theorem values_filled (inside : Bool) : ∀ p ∈ boxCodec.properties, ∀ v,
    p.Holds (aFilledBox inside) v → (filledEnvelope inside).schema.ListsNone v ∧
      (v = .null → p.nullable = true) := by
  rintro p hp v ⟨getter, hgetter, hv⟩
  obtain rfl := List.mem_singleton.1 hp
  cases hgetter
  cases hv
  exact ⟨listsNone_filling inside, fun h => nomatch h⟩

/-- A note comes back from its body. -/
theorem undoes_filled (inside : Bool) : ∀ x ∈ ((factory false).reached (aFilledBox inside)).tail,
    x.2.UndoesIn (filledEnvelope inside).schema x.1 := by
  obtain ⟨notes, hreached, hnotes⟩ := reached_filled inside
  rw [hreached]
  intro x hx
  rw [hnotes x hx]
  have hnote : (aNote, Codec.custom (noteCodec false)) ∈ (factory false).reached aBox := by
    rw [reached_box]
    exact List.mem_cons_of_mem _ List.mem_cons_self
  exact (undoes_box false _ hnote).undoesIn _

/-- Boxes and notes have different descriptors. -/
theorem descriptors_filled (inside : Bool) :
    ∀ x ∈ (factory false).reached (aFilledBox inside),
      ∀ y ∈ (factory false).reached (aFilledBox inside),
        x.2.descriptor.admits (y.2.descriptor.toValue : Value Entity) = true →
          x.2.typeName = y.2.typeName := by
  -- The codecs are those that are reached from a box with a list of a note.
  have hcodecs : ∀ x ∈ (factory false).reached (aFilledBox inside),
      ∃ y ∈ (factory false).reached aBox, y.2 = x.2 := by
    intro x hx
    rw [reached_box]
    obtain rfl | rfl := reached_of_filled hx
    · exact ⟨_, List.mem_cons_self, rfl⟩
    · exact ⟨_, List.mem_cons_of_mem _ List.mem_cons_self, rfl⟩
  intro x hx y hy
  obtain ⟨x', hx', he⟩ := hcodecs x hx
  obtain ⟨y', hy', he'⟩ := hcodecs y hy
  rw [← he, ← he']
  exact descriptors_box false x' hx' y' hy'

/-- A note has one field. -/
theorem fields_filled (inside : Bool) : ∀ o b,
    (o, Codec.custom b) ∈ (factory false).reached (aFilledBox inside) → b.type.Distinct := by
  intro o b h
  obtain h | h := reached_of_filled h
  · cases h
  · cases h
    exact List.pairwise_singleton _ _

end Boxes

namespace Factory

open Boxes

/-- A box comes back with the notes in its lists and maps and with tagged values, but not where a
note is in one of these. -/
theorem values_of_decode_boxes :
    (∃ g, decode (Entity.slotType 0) (header ++ (filledEnvelope false).toValue.encode.bytes)
      (factory false) = .ok (aFilledBox false) g) ∧
    ¬ ∃ g, decode (Entity.slotType 0) (header ++ (filledEnvelope true).toValue.encode.bytes)
      (factory false) = .ok (aFilledBox true) g := by
  -- What is decoded is a box with a tree that may differ from what was in the box.
  have hdecode : ∀ inside, ∃ tree, (tree = filling inside ↔ (filling inside).ObjectsOutside) ∧
      outcome (decode (Entity.slotType 0) (header ++ (filledEnvelope inside).toValue.encode.bytes)
        (factory false)) = .ok (.record 0 [("item", tree)]) := by
    intro inside
    obtain ⟨notes, hreached, -⟩ := reached_filled inside
    obtain ⟨values, trees, hvalues, htrees, hdecode⟩ :=
      values_of_decode (reachable_factory false) (encode_filled inside) (writing_filled inside)
        (.refl _) (congrArg List.head? hreached) rfl (values_filled inside) (undoes_filled inside)
        (namesApart_factory false) (descriptors_filled inside) (fields_filled inside)
        (nesting_filled inside)
    obtain _ | ⟨⟨getter, hgetter, hvalue⟩, ⟨⟩⟩ := hvalues
    cases hgetter
    cases hvalue
    obtain _ | ⟨htree, ⟨⟩⟩ := htrees
    exact ⟨_, htree, hdecode⟩
  constructor
  · obtain ⟨tree, htree, hbox⟩ := hdecode false
    rw [htree.2 ((objectsOutside_filling false).2 rfl)] at hbox
    exact ⟨_, eq_ok_of_outcome hbox⟩
  · rintro ⟨g, hbox⟩
    obtain ⟨tree, htree, houtcome⟩ := hdecode true
    rw [hbox] at houtcome
    cases houtcome
    cases (objectsOutside_filling true).1 (htree.1 rfl)

end Factory

end SelfDescribing
