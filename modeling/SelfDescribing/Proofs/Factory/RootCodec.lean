import SelfDescribing.Proofs.Factory.Listing

namespace SelfDescribing

open Steps

/-!
# The codec at the root

A payload is written by the codec for the object's host type and read by the codec for the name
that its schema tells.  Both are the same one, unless a custom codec of another host type has the
name.

* `Setting.Shadowed` — the shape of a host type has the name of a custom codec of another one.
* `Setting.readerOf` — the codec that reads what a codec wrote.
* `Setting.readerFor_of_writer` — this is the codec that is chosen, with whatever codecs were built
  in between.
* `Factory.reader_of_encode` — the codec that decoding chooses for the root of an encoded object.

Writing chooses by host type and prefers custom codecs; reading chooses by name and prefers custom
codecs as well.  Following both choices through the tables leaves one case in which they differ, and
`Shadowed` is this case.
-/

variable {ω : Type}

namespace Setting

variable {s : Setting ω} {c c₁ : Caches ω} {t : HostType} {name : String}

/-- A host type has no custom codec, and its name leads to a custom codec. -/
def Shadowed (s : Setting ω) (t : HostType) : Prop :=
  s.customs.codecOf? t = none ∧
    ∃ name b, s.registry.nameOf? t = some name ∧ s.customs.codec? name = some b

/-- The codec that reads what a codec wrote: the custom one of its name if there is one. -/
def readerOf (s : Setting ω) (writer : Codec ω) : Codec ω :=
  match s.customs.codec? writer.type.name with
  | some b => .custom b
  | none => writer

/-- The codec for a host type is its custom one, or the default one of its name. -/
theorem codecForHost_cases {writer : Codec ω} (h : s.codecForHost t c = .ok writer c₁) :
    (∃ b, s.customs.codecOf? t = some b ∧ writer = .custom b) ∨
      ∃ name x, s.customs.codecOf? t = none ∧ s.registry.nameOf? t = some name ∧
        s.liveCodec name c = .ok x c₁ ∧ writer = .object x := by
  unfold codecForHost at h
  cases hcustom : s.customs.codecOf? t with
  | some b =>
    rw [hcustom] at h
    cases h
    exact .inl ⟨b, rfl, rfl⟩
  | none =>
    rw [hcustom] at h
    cases hname : s.registry.nameOf? t with
    | none =>
      rw [hname] at h
      cases h
    | some name =>
      rw [hname] at h
      obtain ⟨x, c₂, hlive, hret⟩ := bind_eq_ok.1 h
      cases hret
      exact .inr ⟨name, x, rfl, rfl, hlive, rfl⟩

/-- A default codec has the name that it was asked for under. -/
theorem typeName_of_liveCodec (hregistry : s.registry.Coherent) (hcaches : c.Coherent)
    {x : ObjectCodec ω} (h : s.liveCodec name c = .ok x c₁) : x.typeName = name := by
  have hextends := (s.moves_liveCodec name).to_final c
  rw [h] at hextends
  obtain ⟨shape, r, hshape, hbuild⟩ :=
    hcaches.extends hregistry hextends name x (find?_of_liveCodec h)
  exact (ObjectCodec.typeName_of_build hbuild).trans hshape

/-- A default codec that is found once is found again, with more codecs built. -/
theorem liveCodec_of_extends {c' : Caches ω} {x : ObjectCodec ω}
    (h : s.liveCodec name c = .ok x c₁) (hextends : s.Extends c c') :
    ∃ c₂, s.liveCodec name c' = .ok x c₂ := by
  obtain ⟨y, hcached, hy⟩ | ⟨shape, y, hfree, hshape, hbuild, hy⟩ | ⟨-, e, he, -⟩ :=
    s.liveCodec_cases name c
  · cases hy.symm.trans h
    exact ⟨_, liveCodec_of_find? (hextends.live_stays hcached)⟩
  · cases hy.symm.trans h
    -- It was built from the name's shape, from which it is built again if it was not since.
    cases hcached : c'.live.find? name with
    | none => exact ⟨_, liveCodec_of_shape hcached hshape hbuild⟩
    | some z =>
      obtain hold | ⟨shape', hshape', hbuild'⟩ := hextends.live_new hcached
      · cases hfree.symm.trans hold
      · cases hshape.symm.trans hshape'
        cases hbuild.symm.trans hbuild'
        exact ⟨_, liveCodec_of_find? hcached⟩
  · cases he.symm.trans h

section Writer

variable {writer : Codec ω} (hregistry : s.registry.Coherent) (hcustoms : s.customs.Coherent)
  (hcaches : c.Coherent) (h : s.codecForHost t c = .ok writer c₁)

include hregistry hcustoms hcaches h

/-- The codec for a host type is its custom one, which is found by its name, or the default one that
is found by its name. -/
theorem writer_cases :
    (∃ b, s.customs.codecOf? t = some b ∧ s.customs.codec? b.type.name = some b ∧
      b.typeName = b.type.name ∧ writer = .custom b) ∨
    ∃ x, s.customs.codecOf? t = none ∧ s.registry.nameOf? t = some x.typeName ∧
      s.liveCodec x.typeName c = .ok x c₁ ∧ writer = .object x := by
  obtain ⟨b, hcustom, rfl⟩ | ⟨name, x, hcustom, hname, hlive, rfl⟩ := codecForHost_cases h
  · obtain ⟨name, -, hb⟩ := Option.bind_eq_some_iff.1 hcustom
    obtain rfl := hcustoms.type_name_eq hb
    exact .inl ⟨b, hcustom, hb, hcustoms.typeName_eq hb, rfl⟩
  · obtain rfl := typeName_of_liveCodec hregistry hcaches hlive
    exact .inr ⟨x, hcustom, hname, hlive, rfl⟩

/-- The codec of a host type reads what it wrote, unless its name is shadowed. -/
theorem readerOf_eq_iff : s.readerOf writer = writer ↔ ¬ s.Shadowed t := by
  obtain ⟨b, hcustom, hfound, -, rfl⟩ | ⟨x, hcustom, hname, -, rfl⟩ :=
    writer_cases hregistry hcustoms hcaches h
  · have hreader : s.readerOf (.custom b) = .custom b := by
      rw [readerOf, show s.customs.codec? (Codec.custom b).type.name = some b from hfound]
    refine iff_of_true hreader ?_
    rintro ⟨hnone, -⟩
    cases hcustom.symm.trans hnone
  · -- A default codec is the reader where its name has no custom codec.
    rw [readerOf, show (Codec.object x).type.name = x.typeName from rfl]
    cases hfound : s.customs.codec? x.typeName with
    | none =>
      refine iff_of_true rfl ?_
      rintro ⟨-, name, b, hname', hb⟩
      cases hname.symm.trans hname'
      cases hfound.symm.trans hb
    | some b =>
      refine iff_of_false (fun he => nomatch he) fun hapart => hapart ?_
      exact ⟨hcustom, x.typeName, b, hname, hfound⟩

/-- The name of a host type is that of its codec's type. -/
theorem nameOfHost_of_writer : s.nameOfHost t = .ok writer.type.name := by
  unfold nameOfHost
  obtain ⟨b, hcustom, -, hname, rfl⟩ | ⟨x, hcustom, hname, -, rfl⟩ :=
    writer_cases hregistry hcustoms hcaches h
  · rw [hcustom]
    exact congrArg Except.ok hname
  · rw [hcustom, hname]
    rfl

/-- What the codec of a host type wrote is read by the custom codec of its name if there is one, and
by itself if not, whatever codecs were built before. -/
theorem readerFor_of_writer [LiveObject ω] {schema : Schema} {c' : Caches ω}
    (hextends : s.Extends c c')
    (hlisted : schema.findByDescriptor? (writer.descriptor.toValue : Value ω) = some writer.type) :
    ∃ c₂, s.readerFor schema writer.descriptor.toValue c' = .ok (s.readerOf writer) c₂ := by
  unfold readerFor readerOf
  rw [hlisted]
  dsimp only
  obtain ⟨b, -, hfound, -, rfl⟩ | ⟨x, -, -, hlive, rfl⟩ :=
    writer_cases hregistry hcustoms hcaches h
  · rw [show s.customs.codec? (Codec.custom b).type.name = some b from hfound]
    exact ⟨c', rfl⟩
  · cases s.customs.codec? (Codec.object x).type.name with
    | some b => exact ⟨c', rfl⟩
    | none =>
      -- The default codec is found again, and the payload lists its very fields.
      obtain ⟨c₂, hagain⟩ := liveCodec_of_extends hlive hextends
      have hagain : s.liveCodec (Codec.object x).type.name c' = .ok x c₂ := hagain
      have hsame : sameFields (Codec.object x).type x = true := decide_eq_true rfl
      have hadmits : x.composite.descriptor.admits
          ((Codec.object x).descriptor.toValue : Value ω) = true := Descriptor.admits_toValue _
      refine ⟨c₂, ?_⟩
      simp only [bind_ok hagain, hsame, hadmits, Bool.and_self, if_true]
      rfl

end Writer

variable [LiveObject ω]

/-- An object that is written at the start is described by its codec, whose type the schema tells
for it. -/
theorem root_of_writeWithin {room : Nat} {q : WriteRequest ω} {v : Value ω} {x : WriteContext ω}
    (h : s.writeWithin room q ⟨c, []⟩ = .ok v x) : ∃ inner writer c₁ body, room = inner + 1 ∧
      s.codecForHost (LiveObject.hostType q.object) c = .ok writer c₁ ∧
      (s.reached room q ⟨c, []⟩).head? = some (q.object, writer) ∧
      v = writer.descriptor.describe body ∧
      (⟨x.types⟩ : Schema).findByDescriptor? (writer.descriptor.toValue : Value ω) =
        some writer.type := by
  obtain ⟨inner, writer, x₁, rfl, hwriter, hrun⟩ := exists_writer h
  obtain ⟨htypes, hhost⟩ := writerFor_ok hwriter
  have hends := Exchange.ends_run (s.writeWithin inner) (writer.write writer.typeName q.object)
    (final (WriteContext.note writer.type x₁))
  rw [hrun] at hends
  obtain ⟨body, rfl⟩ := Codec.eq_describe_of_write hends
  refine ⟨inner, writer, x₁.caches, body, rfl, hhost, ?_, rfl, ?_⟩
  · rw [reached_of_writer hwriter, List.head?_cons]
  · -- Its type was noted first, so that it is the first one found.
    have hnotes := (Exchange.moves_run (s.moves_writeWithin inner)
      (writer.write writer.typeName q.object)).to_final (final (WriteContext.note writer.type x₁))
    rw [hrun, final_note, htypes] at hnotes
    obtain ⟨later, hlater⟩ := hnotes.types
    have hadmits : writer.type.descriptor.admits (writer.descriptor.toValue : Value ω) = true :=
      Descriptor.admits_toValue _
    rw [Schema.findByDescriptor?, ← show _ = x.types from hlater]
    exact List.find?_cons_of_pos hadmits

end Setting

namespace Factory

variable [LiveObject ω] {f f' g : Factory ω} {object : ω} {t : HostType} {bytes : List UInt8}
  {e : Envelope ω} {name : String}

/-- A payload whose root has the expected type is opened as it is parsed. -/
theorem openPayload_eq_parse (hname : g.nameOfHost t = .ok name)
    (hroot : ∀ e : Envelope ω, Envelope.parse bytes g.config.maxDepth = .ok e →
      rootType e = .ok name) :
    openPayload t bytes g = Envelope.parse bytes g.config.maxDepth := by
  simp only [openPayload, hname, bind, Except.bind]
  cases hparse : Envelope.parse (ω := ω) bytes g.config.maxDepth with
  | error err => rfl
  | ok e =>
    simp only [hroot e hparse]
    rw [if_neg (not_not_intro rfl)]
    rfl

/-- The payload of an encoded object is opened if it is parsed, and decoded by the codec that wrote
its root, exactly if the object's host type is not shadowed. -/
theorem reader_of_encode (hf : f.Reachable) (hencode : encode object f = .ok bytes f')
    (hg : Builds f g) :
    ∃ writer reader, (f.reached object).head? = some (object, writer) ∧
      openPayload (LiveObject.hostType object) bytes g =
        Envelope.parse bytes g.config.maxDepth ∧
      (∀ e, Envelope.parse bytes g.config.maxDepth = .ok e →
        ∃ room descriptor body caches, g.config.maxDepth = room + 1 ∧
          e.body = .described descriptor body ∧
          g.toSetting.readerFor e.schema descriptor g.caches = .ok reader caches ∧
          outcome (decode (LiveObject.hostType object) bytes g) =
            outcome ((reader.read e.schema body).run (g.toSetting.readWithin e.schema room)
              caches) >>= Value.downcast (.ofHost (LiveObject.hostType object))) ∧
      (reader = writer ↔ ¬ f.toSetting.Shadowed (LiveObject.hostType object)) := by
  obtain ⟨body, c, -, hwrite, -, hbytes⟩ := encode_eq_ok hencode
  obtain ⟨hregistry, hcustoms, hcaches⟩ := hf.coherent
  obtain ⟨hsetting, hextends⟩ := hg
  obtain ⟨room, writer, c₁, inner, hroom, hhost, hhead, rfl, hlisted⟩ :=
    Setting.root_of_writeWithin hwrite
  obtain ⟨c₂, hreader⟩ :=
    Setting.readerFor_of_writer hregistry hcustoms hcaches hhost hextends hlisted
  rw [← hsetting] at hreader
  have hname : g.nameOfHost (LiveObject.hostType object) = .ok writer.type.name := by
    rw [hsetting, Setting.nameOfHost_of_writer hregistry hcustoms hcaches hhost]
  have hdepth : g.config.maxDepth = room + 1 := by
    rw [hsetting, hroom]
  -- What is parsed is what was written, and its root has the name of the host type.
  have hopen := openPayload_eq_parse hname fun e hparse => by
    obtain rfl := Envelope.eq_of_parse_toBytes hbytes hparse
    exact rootType_of_find hlisted
  refine ⟨writer, g.toSetting.readerOf writer, hhead, hopen, fun e hparse => ?_, ?_⟩
  · have hdecode := outcome_decode_of_open (hopen.trans hparse)
    obtain rfl := Envelope.eq_of_parse_toBytes hbytes hparse
    refine ⟨room, _, inner, c₂, hdepth, rfl, hreader, ?_⟩
    rw [hdecode, hdepth]
    show outcome ((g.toSetting.readerFor ⟨c.types⟩ writer.descriptor.toValue >>= fun codec =>
      (codec.read ⟨c.types⟩ inner).run (g.toSetting.readWithin ⟨c.types⟩ room)) g.caches) >>= _ = _
    rw [bind_ok hreader]
  · rw [hsetting]
    exact Setting.readerOf_eq_iff hregistry hcustoms hcaches hhost

end Factory

/-! ### Shadowed boxes -/

namespace Boxes

/-- A codec for the records of another slot, under the name of boxes. -/
def wrapper : RecordCodec := ⟨1, "Box", ["text"], false, "Box", .restricted "list", none⟩

/-- The codec with what it tells of them. -/
def wrapperCodec : BoundCodec Entity := ⟨wrapper.toCodec, wrapper.describe registry⟩

/-- A factory of boxes whose name has a custom codec of another host type. -/
def shadowing : Factory Entity :=
  ⟨⟨registry, ⟨⟨[("Box", wrapperCodec)]⟩, ⟨[(Entity.slotType 1, "Box")]⟩, .inserted⟩, .default⟩,
    ⟨⟨[("Box", boxCodec)]⟩, .empty⟩⟩

/-- An empty box. -/
def anEmptyBox : Entity := .record 0 []

/-- The envelope of its payload. -/
def emptyEnvelope : Envelope Entity :=
  ⟨boxType.descriptor.describe (.list [.null]), ⟨[.composite boxType]⟩⟩

/-- The factory comes from a new one by its registrations. -/
theorem reachable_shadowing : shadowing.Reachable := by
  have hregistry : registry.Reachable := .register .empty (show
    Registry.empty.register box.toShape = .ok () registry from rfl)
  have hbind : BoundCodec.bind wrapper.toCodec registry = .ok wrapperCodec := rfl
  have hwrapper : Factory.Reachable ⟨shadowing.toSetting, .empty⟩ :=
    (Factory.Reachable.new hregistry).registerCustom hbind
  exact hwrapper.liveCodec rfl rfl build_box

/-- The payload can be written. -/
theorem toBytes_empty : emptyEnvelope.toBytes =
    .ok (header ++ emptyEnvelope.toValue.encode.bytes) :=
  Envelope.toBytes_eq_ok_iff.2 ⟨Option.isNone_iff_eq_none.1 (by decide +kernel), rfl⟩

/-- The empty box is encoded by the codec of its shape. -/
theorem encode_empty : Factory.encode anEmptyBox shadowing =
    .ok (header ++ emptyEnvelope.toValue.encode.bytes) shadowing := by
  have hwriting : Factory.writing (writeObject anEmptyBox) shadowing =
      .ok (emptyEnvelope.body, emptyEnvelope.schema) shadowing := rfl
  rw [Factory.encode, bind_ok hwriting]
  exact Factory.inspecting_eq_ok.2 ⟨toBytes_empty, rfl⟩

end Boxes

namespace Factory

open Boxes

/-- Boxes are read by their own codec, and by another one where they are shadowed. -/
theorem reader_of_encode_boxes :
    (∃ writer reader, ((factory false).reached aBox).head? = some (aBox, writer) ∧
      reader = writer) ∧
    ∃ writer reader, (shadowing.reached anEmptyBox).head? = some (anEmptyBox, writer) ∧
      ∃ descriptor caches, shadowing.toSetting.readerFor emptyEnvelope.schema descriptor
        shadowing.caches = .ok reader caches ∧ reader ≠ writer := by
  constructor
  -- The box is read by the codec that wrote it, as no custom codec has its name.
  · obtain ⟨writer, reader, hhead, -, -, hsame⟩ :=
      reader_of_encode (reachable_factory false) (encode_box false) (refl _)
    refine ⟨writer, reader, hhead, hsame.2 ?_⟩
    rintro ⟨-, name, b, hname, hb⟩
    cases hname
    cases hb
  -- The empty box is not: the custom codec with its name takes over.
  · obtain ⟨writer, reader, hhead, -, hdecode, hsame⟩ :=
      reader_of_encode reachable_shadowing encode_empty (refl _)
    have hparse : Envelope.parse (header ++ emptyEnvelope.toValue.encode.bytes)
        shadowing.config.maxDepth = .ok emptyEnvelope := by
      have hdistinct : emptyEnvelope.schema.Distinct := by
        rintro t ht
        obtain rfl := List.mem_singleton.1 ht
        exact List.pairwise_singleton _ _
      exact Envelope.parse_toBytes toBytes_empty hdistinct (by decide +kernel)
    obtain ⟨room, descriptor, body, caches, -, -, hreader, -⟩ := hdecode _ hparse
    exact ⟨writer, reader, hhead, descriptor, caches, hreader, fun he =>
      hsame.1 he ⟨rfl, "Box", wrapperCodec, rfl, rfl⟩⟩

end Factory

end SelfDescribing
