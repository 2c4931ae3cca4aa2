import SelfDescribing.Entity.Record
import SelfDescribing.Proofs.Envelope.Reading
import SelfDescribing.Proofs.Factory.Continuing
import SelfDescribing.Proofs.Factory.Restoring

namespace SelfDescribing

open Steps

/-!
# Objects come back from their payloads

`Factory.decode_encode`: an object that a factory writes is read back, by the same factory after
anything that happened to it in between but for registering its types anew.

* `Factory.Reached` — what is known of the codecs and notations once an object is written.
* `Factory.restores_of_encode` — what decoding needs of an object that was written.
* `Boxes` — boxes with notes, which come back if no field of notes is told twice.

Writing leaves a factory that holds every codec it used, and a schema that lists their types;
`Reached` says this at the end of writing.  Parsing gives the envelope back, and from there on it is
`Proofs/Factory/Restoring`.
-/

variable {ω : Type} [LiveObject ω]

namespace Factory

/-- The objects that are handed to codecs while an object is encoded, with these codecs. -/
def reached (f : Factory ω) (object : ω) : List (ω × Codec ω) :=
  f.toSetting.reached f.config.maxDepth ⟨object, none⟩ ⟨f.caches, []⟩

/-- An encoded object was written at the outermost level. -/
theorem encode_eq_ok {f f' : Factory ω} {object : ω} {bytes : List UInt8}
    (h : encode object f = .ok bytes f') : ∃ body c,
      writing (writeObject object) f = .ok (body, ⟨c.types⟩) f' ∧
      f.toSetting.writeWithin f.config.maxDepth ⟨object, none⟩ ⟨f.caches, []⟩ = .ok body c ∧
      f' = { f with caches := c.caches } ∧
      (⟨body, ⟨c.types⟩⟩ : Envelope ω).toBytes = .ok bytes := by
  obtain ⟨⟨body, schema⟩, f₁, hwriting, hbytes⟩ := bind_eq_ok.1 h
  have hrun : f.toSetting.writing (writeObject object) ⟨f.caches, []⟩ =
      f.toSetting.writeWithin f.config.maxDepth ⟨object, none⟩ ⟨f.caches, []⟩ :=
    Exchange.run_request _ _
  have hstart := hwriting
  rw [writing, hrun] at hstart
  cases hwrite : f.toSetting.writeWithin f.config.maxDepth ⟨object, none⟩ ⟨f.caches, []⟩ with
  | error e c =>
    rw [hwrite] at hstart
    cases hstart
  | ok v c =>
    rw [hwrite] at hstart
    cases hstart
    obtain ⟨htoBytes, rfl⟩ := inspecting_eq_ok.1 hbytes
    exact ⟨body, c, hwriting, rfl, rfl, htoBytes⟩

/-- What is known of the codecs that were reached and of the notations, once an object is
written: the codecs are held, they have the names of their host types, and the notations are
theirs. -/
structure Reached (f : Factory ω) (object : ω) (c : WriteContext ω) : Prop where
  holds : ∀ x ∈ f.reached object, f.toSetting.Holds c.caches x.2
  nameOfHost : ∀ x ∈ f.reached object,
    f.nameOfHost (LiveObject.hostType x.1) = .ok x.2.typeName
  listed : ∀ x ∈ f.reached object, ∃ t ∈ c.types, t.name = x.2.type.name
  of_listed : ∀ t ∈ c.types, ∃ x ∈ f.reached object, x.2.type = t
  caches : c.caches.Coherent

section Reached

variable {f : Factory ω} {object : ω} {c : WriteContext ω} {body : Value ω}

/-- Writing an object at the outermost level leaves caches and notations that fit all the objects
reached. -/
theorem reached_of_writeWithin (hf : f.Coherent) (hapart : f.toSetting.NamesApart)
    (hwrite : f.toSetting.writeWithin f.config.maxDepth ⟨object, none⟩ ⟨f.caches, []⟩ =
      .ok body c) : f.Reached object c := by
  have hreached := fun x (hx : x ∈ f.reached object) =>
    Setting.holds_of_reached hf.registry hf.customs hapart hf.caches hx
  have hnotes := (f.toSetting.moves_writeWithin f.config.maxDepth ⟨object, none⟩).to_final
    ⟨f.caches, []⟩
  simp only [hwrite] at hreached hnotes
  refine ⟨fun x hx => (hreached x hx).1, fun x hx => (hreached x hx).2.1,
    fun x hx => (hreached x hx).2.2, fun t ht => ?_, hf.caches.extends hf.registry hnotes.caches⟩
  have hfinal : t ∈ (final (f.toSetting.writeWithin f.config.maxDepth ⟨object, none⟩
      ⟨f.caches, []⟩)).types := by rwa [hwrite]
  obtain hstart | hreached := Setting.reached_of_listed hfinal
  · cases hstart
  · exact hreached

/-- The schema tells the type of each reached codec by its descriptor, if descriptors tell the
types apart. -/
theorem Reached.findByDescriptor? (h : f.Reached object c)
    (hdescriptors : ∀ x ∈ f.reached object, ∀ y ∈ f.reached object,
      x.2.descriptor.admits (y.2.descriptor.toValue : Value ω) = true →
        x.2.typeName = y.2.typeName) :
    ∀ x ∈ f.reached object, (⟨c.types⟩ : Schema).findByDescriptor?
      (x.2.descriptor.toValue : Value ω) = some x.2.type := by
  have hsame : ∀ x ∈ f.reached object, ∀ y ∈ f.reached object, x.2.typeName = y.2.typeName →
      x.2 = y.2 := fun x hx y hy => (h.holds x hx).unique (h.holds y hy)
  intro x hx
  -- The type is listed under its name, and no other type has the name.
  obtain ⟨t, ht, hname⟩ := h.listed x hx
  obtain ⟨y, hy, rfl⟩ := h.of_listed t ht
  rw [(h.holds y hy).type_name, (h.holds x hx).type_name] at hname
  rw [hsame y hy x hx hname] at ht
  unfold Schema.findByDescriptor?
  cases hfind : c.types.find?
      (fun t => t.descriptor.admits (x.2.descriptor.toValue : Value ω)) with
  | none => exact absurd (Descriptor.admits_toValue _) (List.find?_eq_none.1 hfind _ ht)
  | some t =>
    obtain ⟨z, hz, rfl⟩ := h.of_listed t (List.mem_of_find?_eq_some hfind)
    have hadmits := List.find?_some hfind
    rw [hsame z hz x hx (hdescriptors z hz x hx hadmits)]

/-- The records in the schema list distinct fields, if those of the custom codecs do. -/
theorem Reached.distinct (h : f.Reached object c)
    (hfields : ∀ o b, (o, Codec.custom b) ∈ f.reached object → b.type.Distinct) :
    (⟨c.types⟩ : Schema).Distinct := by
  intro t ht
  obtain ⟨⟨o, codec⟩, hx, rfl⟩ := h.of_listed t ht
  have hholds := h.holds _ hx
  cases codec with
  | evolution e => exact absurd hholds id
  | custom b => exact hfields o b hx
  | object k =>
    obtain ⟨shape, r, -, hbuild⟩ := h.caches _ _ hholds.2.2
    exact ObjectCodec.nodup_of_build hbuild

/-- What was reached is there when the payload is read, by a factory that went on. -/
theorem Reached.serves (h : f.Reached object c) (hf : f.Coherent) {codec : Codec ω}
    (hroot : (object, codec) ∈ f.reached object) :
    (⟨f.toSetting, c.caches⟩ : Factory ω).Serves f.config (LiveObject.hostType object)
      codec.typeName ((f.reached object).map (·.2)) := by
  refine ⟨⟨hf.registry, hf.customs, h.caches⟩, rfl, h.nameOfHost _ hroot, fun codec hcodec => ?_⟩
  obtain ⟨x, hx, rfl⟩ := List.mem_map.1 hcodec
  exact h.holds x hx

end Reached

/-- An object that a factory encodes is decoded as the same object, also after the factory went
on, if the constructors and the custom codecs that are reached undo their getters and writing, the
descriptors tell the reached types apart, their records list distinct fields, and the payload is
not nested too deep. -/
theorem decode_encode {f f' g : Factory ω} {object : ω} {bytes : List UInt8} (hf : f.Reachable)
    (hencode : encode object f = .ok bytes f') (hbetween : f'.Continues g)
    (hundoes : ∀ x ∈ f.reached object, x.2.Undoes x.1)
    (hapart : f.toSetting.NamesApart)
    (hdescriptors : ∀ x ∈ f.reached object, ∀ y ∈ f.reached object,
      x.2.descriptor.admits (y.2.descriptor.toValue : Value ω) = true →
        x.2.typeName = y.2.typeName)
    (hfields : ∀ o b, (o, Codec.custom b) ∈ f.reached object → b.type.Distinct)
    (hnesting : ∀ body schema f₁, writing (writeObject object) f = .ok (body, schema) f₁ →
      (⟨body, schema⟩ : Envelope ω).toValue.nesting ≤ f.config.maxDepth) :
    ∃ g', decode (LiveObject.hostType object) bytes g = .ok object g' := by
  obtain ⟨body, c, hwriting, hwrite, rfl, hbytes⟩ := encode_eq_ok hencode
  have hreached := reached_of_writeWithin hf.coherent hapart hwrite
  have hfound := hreached.findByDescriptor? hdescriptors
  obtain ⟨⟨codec, inner, hroot, rfl⟩, -⟩ := Setting.readWithin_of_writeWithin hwrite
    fun x hx => ⟨hundoes x hx, hreached.holds x hx, hfound x hx⟩
  -- What was reached is still there when the payload is read.
  obtain ⟨-, hconfig, hname, hheld⟩ := (hreached.serves hf.coherent hroot).continues hbetween
  obtain ⟨-, hread⟩ := Setting.readWithin_of_writeWithin hwrite
    fun x hx => ⟨hundoes x hx, hheld _ (List.mem_map.2 ⟨x, hx, rfl⟩), hfound x hx⟩
  -- The payload is parsed as what was written, and its root has the object's type.
  have hnested := hnesting _ _ _ hwriting
  rw [← hconfig] at hnested
  have hparse := Envelope.parse_toBytes hbytes (hreached.distinct hfields) hnested
  have hrootType : rootType (⟨codec.descriptor.describe inner, ⟨c.types⟩⟩ : Envelope ω) =
      .ok codec.typeName := by
    rw [← (hreached.holds _ hroot).type_name]
    exact rootType_of_find (hfound _ hroot)
  refine decode_of_outcome hname hparse hrootType ?_
  rw [hconfig]
  exact hread g.caches (refl g.caches)

/-- Part by part: the payload is parsed as what the codec of the object wrote, everything inside it
is read back one level deeper, and the whole is decoded as the object. -/
theorem restores_of_encode {f f' g : Factory ω} {object : ω} {bytes : List UInt8}
    (hf : f.Coherent) (hencode : encode object f = .ok bytes f') (hbetween : f'.Continues g)
    (hundoes : ∀ x ∈ f.reached object, x.2.Undoes x.1)
    (hapart : f.toSetting.NamesApart)
    (hdescriptors : ∀ x ∈ f.reached object, ∀ y ∈ f.reached object,
      x.2.descriptor.admits (y.2.descriptor.toValue : Value ω) = true →
        x.2.typeName = y.2.typeName)
    (hfields : ∀ o b, (o, Codec.custom b) ∈ f.reached object → b.type.Distinct)
    (hnesting : ∀ body schema f₁, writing (writeObject object) f = .ok (body, schema) f₁ →
      (⟨body, schema⟩ : Envelope ω).toValue.nesting ≤ f.config.maxDepth) :
    ∃ codec inner schema room written, (object, codec) ∈ f.reached object ∧
      g.config.maxDepth = room + 1 ∧
      Envelope.parse bytes g.config.maxDepth = .ok ⟨codec.descriptor.describe inner, schema⟩ ∧
      (codec.write codec.typeName object).Ends written
        (.ok (codec.descriptor.describe inner)) ∧
      Restores schema written (g.toSetting.ReadFrom schema g.caches room) ∧
      ∃ g', decode (LiveObject.hostType object) bytes g = .ok object g' := by
  obtain ⟨body, c, hwriting, hwrite, rfl, hbytes⟩ := encode_eq_ok hencode
  have hreached := reached_of_writeWithin hf hapart hwrite
  have hfound := hreached.findByDescriptor? hdescriptors
  obtain ⟨room, codec, c₁, hroom, hwriter, hrun⟩ := Setting.exists_writer hwrite
  have hroot : (object, codec) ∈ f.reached object := by
    rw [reached, hroom, Setting.reached_of_writer hwriter]
    exact List.mem_cons_self
  obtain ⟨-, hconfig, hname, hheld⟩ := (hreached.serves hf hroot).continues hbetween
  have hrecovers : ∀ x ∈ f.reached object, g.toSetting.Recovers ⟨c.types⟩ g.caches x :=
    fun x hx => ⟨(hundoes x hx).undoesIn _, hheld _ (List.mem_map.2 ⟨x, hx, rfl⟩), hfound x hx⟩
  -- The root's codec asked for its parts, each of which is read back.
  have hends := Exchange.ends_run (f.toSetting.writeWithin room)
    (codec.write codec.typeName object) (final (WriteContext.note codec.type c₁))
  rw [hrun] at hends
  have hinside := Setting.Rereads.restores
    (Setting.rereads f.toSetting g.toSetting ⟨c.types⟩ g.caches room)
    fun y hy => hrecovers y <| by
      rw [reached, hroom, Setting.reached_of_writer hwriter]
      exact List.mem_cons_of_mem _ hy
  obtain ⟨inner, rfl, hgives⟩ := Codec.read_write hinside (hrecovers _ hroot).undoes hends
  have hread := Setting.readWithin_described (hrecovers _ hroot).holds (hrecovers _ hroot).listed
    hgives (refl g.caches)
  have hnested := hnesting _ _ _ hwriting
  rw [← hconfig] at hroom hnested
  have hparse := Envelope.parse_toBytes hbytes (hreached.distinct hfields) hnested
  have hrootType : rootType (⟨codec.descriptor.describe inner, ⟨c.types⟩⟩ : Envelope ω) =
      .ok codec.typeName := by
    rw [← (hreached.holds _ hroot).type_name]
    exact rootType_of_find (hfound _ hroot)
  refine ⟨codec, inner, ⟨c.types⟩, room, _, hroot, hroom, hparse, hends, hinside,
    decode_of_outcome hname hparse hrootType ?_⟩
  rw [hroom]
  exact hread

end Factory

/-! ### Boxes with notes -/

namespace Boxes

/-- Boxes, records that hold anything. -/
def box : RecordShape :=
  ⟨"Box", .concrete 0, [⟨"item", .any, false, true, "item"⟩],
    [⟨[⟨"item", .any, false, none⟩], .plain, false, none⟩], [], false⟩

/-- What is told of notes; their text may be told twice. -/
def noteType (twice : Bool) : CompositeType :=
  ⟨"Note", none, [], ⟨"note", none⟩,
    List.replicate (if twice then 2 else 1) ⟨"text", "string", true⟩⟩

/-- Notes, records with a text, by a codec that tells it once or twice. -/
def note (twice : Bool) : RecordCodec :=
  ⟨1, "Note", ["text"], false, "Note", .composite (noteType twice).fields,
    some (noteType twice).descriptor⟩

/-- What is told of boxes. -/
def boxType : CompositeType :=
  ⟨"Box", none, [], objectDescriptor "Box" [⟨"item", "*", true⟩], [⟨"item", "*", true⟩]⟩

/-- The default codec of boxes. -/
def boxCodec : ObjectCodec Entity :=
  ⟨some (Entity.slotType 0), boxType, box.toShape.properties.map .ofProperty,
    box.toShape.constructors.head?⟩

/-- The codec of notes with what it tells of them. -/
def noteCodec (twice : Bool) : BoundCodec Entity :=
  ⟨(note twice).toCodec, .composite (noteType twice)⟩

/-- The registry of boxes. -/
def registry : Registry Entity :=
  ⟨⟨[("Box", box.toShape)]⟩, ⟨[(Entity.slotType 0, "Box")]⟩, []⟩

/-- A factory of boxes and notes. -/
def factory (twice : Bool) : Factory Entity :=
  ⟨⟨registry, ⟨⟨[("Note", noteCodec twice)]⟩, ⟨[(Entity.slotType 1, "Note")]⟩, .inserted⟩,
      .default⟩,
    ⟨⟨[("Box", boxCodec)]⟩, .empty⟩⟩

/-- A note. -/
def aNote : Entity := .record 1 [("text", .string "hi")]

/-- A box with a list of a note. -/
def aBox : Entity := .record 0 [("item", .list [.live aNote])]

/-- The codec of boxes, built from the shape. -/
theorem build_box : ObjectCodec.build box.toShape registry = .ok boxCodec := by
  have hresolve : box.toShape.resolve registry =
    .ok ⟨box.toShape.constructors.head?, box.toShape.properties⟩ := rfl
  have hprovides : registry.provides "Box" = [] := Registry.provides_eq_nil rfl rfl
  rw [ObjectCodec.build_of_resolve hresolve hprovides]
  rfl

/-- The codec of notes is the same wherever nothing else is told of notes. -/
theorem bind_note (twice : Bool) {r : Registry Entity} (hprovides : r.provides "Note" = []) :
    BoundCodec.bind (note twice).toCodec r = .ok (noteCodec twice) := by
  have hdescribe : (note twice).toCodec.describe r = .ok (noteCodec twice).type := by
    show Except.ok (TypeNotation.composite _) = _
    simp only [show (note twice).describedName = "Note" from rfl, hprovides]
    rfl
  rw [BoundCodec.bind, hdescribe]
  rfl

/-- The factory comes from a new one by its registrations and one build. -/
theorem reachable_factory (twice : Bool) : (factory twice).Reachable := by
  have hregistry : registry.Reachable := .register .empty (show
    Registry.empty.register box.toShape = .ok () registry from rfl)
  have hnote : Factory.Reachable ⟨(factory twice).toSetting, .empty⟩ :=
    (Factory.Reachable.new hregistry).registerCustom
      (bind_note twice (Registry.provides_eq_nil rfl rfl))
  exact hnote.liveCodec rfl rfl build_box

/-- The body of the box's payload. -/
def body : Value Entity :=
  boxType.descriptor.describe (.list [.list [Descriptor.describe ⟨"note", none⟩
    (.list [.string "hi"])]])

/-- The envelope of the box's payload. -/
def envelope (twice : Bool) : Envelope Entity :=
  ⟨body, ⟨[.composite boxType, .composite (noteType twice)]⟩⟩

/-- What the box is written as, found by running. -/
theorem writing_box (twice : Bool) : Factory.writing (writeObject aBox) (factory twice) =
    .ok (body, (envelope twice).schema) (factory twice) := by
  cases twice <;> rfl

/-- The payload can be written. -/
theorem toBytes_box (twice : Bool) : (envelope twice).toBytes =
    .ok (header ++ (envelope twice).toValue.encode.bytes) := by
  refine Envelope.toBytes_eq_ok_iff.2 ⟨Option.isNone_iff_eq_none.1 ?_, rfl⟩
  cases twice <;> decide +kernel

/-- Encoding the box gives its payload, and builds nothing more. -/
theorem encode_box (twice : Bool) : Factory.encode aBox (factory twice) =
    .ok (header ++ (envelope twice).toValue.encode.bytes) (factory twice) := by
  rw [Factory.encode, bind_ok (writing_box twice)]
  exact Factory.inspecting_eq_ok.2 ⟨toBytes_box twice, rfl⟩

/-- The payload of the box is nested within the usual limit. -/
theorem nesting_box (twice : Bool) : (envelope twice).toValue.nesting ≤ 64 := by
  cases twice <;> decide +kernel

/-- The box is met, and the note in it. -/
theorem reached_box (twice : Bool) : (factory twice).reached aBox =
    [(aBox, .object boxCodec), (aNote, .custom (noteCodec twice))] := by
  cases twice <;> rfl

/-- The box and the note come back from their bodies. -/
theorem undoes_box (twice : Bool) : ∀ x ∈ (factory twice).reached aBox, x.2.Undoes x.1 := by
  rw [reached_box]
  simp only [List.forall_mem_cons]
  refine ⟨⟨?_, ?_⟩, ?_, fun x hx => nomatch hx⟩
  · rintro values (_ | ⟨⟨getter, hgetter, hv⟩, ⟨⟩⟩)
    cases hgetter
    cases hv
    exact ⟨_, rfl, rfl⟩
  · rintro p hp v ⟨getter, hgetter, hv⟩
    obtain rfl := List.mem_singleton.1 hp
    cases hgetter
    cases hv
    exact ⟨rfl, fun h => nomatch h⟩
  · rintro schema written answers body - hwrite
    cases Exchange.Ends.pure_iff.1 hwrite
    exact .pure _

/-- No name stands for both a shape and a custom codec. -/
theorem namesApart_factory (twice : Bool) : (factory twice).toSetting.NamesApart := by
  intro name b shape t hb hshape _
  have hnote : name = "Note" := by
    by_contra hother
    simp [factory, CustomCodecs.codec?, Table.find?, Ne.symm hother] at hb
  subst hnote
  cases hshape

/-- Boxes and notes have different descriptors. -/
theorem descriptors_box (twice : Bool) : ∀ x ∈ (factory twice).reached aBox,
    ∀ y ∈ (factory twice).reached aBox,
      x.2.descriptor.admits (y.2.descriptor.toValue : Value Entity) = true →
        x.2.typeName = y.2.typeName := by
  have hbox : ¬ boxType.descriptor.admits (.symbol "note" : Value Entity) = true := by
    decide +kernel
  have hnote : ¬ Descriptor.admits ⟨"note", none⟩
      (.symbol boxType.descriptor.name : Value Entity) = true := by decide +kernel
  rw [reached_box]
  simp only [List.forall_mem_cons]
  refine ⟨⟨fun _ => trivial, fun h => ?_, fun x hx => nomatch hx⟩,
    ⟨fun h => ?_, fun _ => trivial, fun x hx => nomatch hx⟩, fun x hx => nomatch hx⟩
  · exact absurd h hbox
  · exact absurd h hnote

end Boxes

namespace Factory

open Boxes

/-- A box with a note comes back, also after a name was allowed. -/
theorem decode_encode_box : ∃ bytes f g',
    encode aBox (factory false) = .ok bytes f ∧
      decode (Entity.slotType 0) bytes (f.perform (.allow "Held")) = .ok aBox g' := by
  have hfields : ∀ o b, (o, Codec.custom b) ∈ (factory false).reached aBox →
      b.type.Distinct := by
    intro o b h
    rw [reached_box] at h
    simp only [List.mem_cons, Prod.mk.injEq, reduceCtorEq, and_false, Codec.custom.injEq,
      false_or, List.not_mem_nil, or_false] at h
    rw [h.2]
    exact List.pairwise_singleton _ _
  obtain ⟨g', hdecode⟩ := decode_encode (reachable_factory false) (encode_box false)
    (.perform (.allow "Held") (.refl _) trivial) (undoes_box false) (namesApart_factory false)
    (descriptors_box false) hfields fun body schema f₁ h => by
      rw [writing_box] at h
      cases h
      exact nesting_box false
  exact ⟨_, _, g', encode_box false, hdecode⟩

/-- With a custom codec that tells a field twice, all else holds but the payload is refused. -/
theorem not_decode_encode_repeated :
    (factory true).Reachable ∧
    (∀ x ∈ (factory true).reached aBox, x.2.Undoes x.1) ∧
    (factory true).toSetting.NamesApart ∧
    (∀ x ∈ (factory true).reached aBox, ∀ y ∈ (factory true).reached aBox,
      x.2.descriptor.admits (y.2.descriptor.toValue : Value Entity) = true →
        x.2.typeName = y.2.typeName) ∧
    ∃ body schema bytes f, writing (writeObject aBox) (factory true) = .ok (body, schema) f ∧
      (⟨body, schema⟩ : Envelope Entity).toValue.nesting ≤ (factory true).config.maxDepth ∧
      encode aBox (factory true) = .ok bytes f ∧
      decode (Entity.slotType 0) bytes f =
        .error (.malformed (.repeatedField "Note" "text")) f := by
  refine ⟨reachable_factory true, undoes_box true, namesApart_factory true, descriptors_box true,
    _, _, _, _, writing_box true, nesting_box true, encode_box true, ?_⟩
  have hname : (factory true).nameOfHost (Entity.slotType 0) = .ok "Box" := rfl
  -- The notation of notes tells a field twice, and such a schema is refused.
  have hparse : Envelope.parse (header ++ (envelope true).toValue.encode.bytes)
      (factory true).config.maxDepth =
        .error (.malformed (.repeatedField "Note" "text")) :=
    (Envelope.parse_eq_ofValue (toBytes_box true) (nesting_box true)).trans rfl
  have hopen : openPayload (Entity.slotType 0) (header ++ (envelope true).toValue.encode.bytes)
      (factory true) = .error (.malformed (.repeatedField "Note" "text")) := by
    simp only [openPayload, hname, hparse, bind, Except.bind]
  exact bind_error (inspecting_error hopen) _

end Factory

end SelfDescribing
