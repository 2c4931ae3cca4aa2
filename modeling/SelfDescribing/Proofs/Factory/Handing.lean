import SelfDescribing.Proofs.Factory.Opening

namespace SelfDescribing

open Steps Exchange

/-!
# What decoding hands to constructors

* `Setting.hands` — the arguments that are read off an opened value.
* `Setting.accepts_of_hands` — they conform to what is declared for them, where a live object was
  read off a described value that stands where its type is declared.
* `Factory.PlacesFit` — a payload has no object of another type where a registered type is declared.
* `Factory.arguments_of_decode` — all arguments that decoding hands to constructors conform, and
  their objects are of the declared types if the payload's places fit.
* `Crates` — a forged payload, of whose crate the constructor is handed a note.

Decoding opens the described values of a payload from the root, and hands the arguments of each to a
constructor.  By `Proofs/Codec/Conforming` the arguments conform as far as their objects do.  An
object conforms if the value in its place was opened with a codec of a fitting type, which the
descriptor in the payload decides and nobody checks.
-/

variable {ω : Type} [LiveObject ω]

namespace Setting

variable {s : Setting ω} {schema : Schema} {c : Caches ω} {room : Nat} {v : Value ω}
  {x : Opening ω}

/-- The arguments that are read off an opened value. -/
def hands (s : Setting ω) (schema : Schema) (x : Opening ω) : Except Error (List (Value ω)) :=
  outcome ((x.codec.arguments schema x.body).run (s.readWithin schema x.room) x.caches)

/-- What is read is what the constructor makes of the arguments. -/
theorem gives_eq {k : Constructor ω} (hk : x.codec.constructor? = some k) :
    s.gives schema x = s.hands schema x >>= k.build := by
  rw [gives, Codec.read_eq hk, outcome_run_bind_done]
  rfl

/-- The arguments read off an opened value conform to what is declared for them.  A live object
among them was read off a described value that stands where its type is declared. -/
theorem accepts_of_hands (hx : x ∈ s.opened schema room v c) {k : Constructor ω}
    (hk : x.codec.constructor? = some k) (hmade : ∀ y, x.codec = .evolution y → y.Made)
    {args : List (Value ω)} (hargs : s.hands schema x = .ok args) :
    List.Forall₂ (fun p w => p.Accepts (fun name object => ∃ y ∈ s.opened schema room v c,
      (name, y.value) ∈ x.codec.places x.body ∧ s.gives schema y = .ok object) w)
      x.codec.declared args := by
  have hends := ends_run (s.readWithin schema x.room) (x.codec.arguments schema x.body) x.caches
  rw [show outcome _ = .ok args from hargs] at hends
  refine Codec.accepts_of_arguments hmade hends ?_
  rintro ⟨name, u⟩ hplace object ⟨c', hasked, hread⟩
  -- The part that was asked for was opened while the body was read.
  rw [← asked_bind_done _ k.build, ← Codec.read_eq hk] at hasked
  obtain ⟨y, hy, rfl, hgives⟩ := head_opened hread
  have hinside : y ∈ s.openedInside schema x :=
    mem_openedInside.2 ⟨_, c', hasked, List.mem_of_head? hy⟩
  exact ⟨y, mem_opened_of_inside hx hinside, hplace, hgives⟩

end Setting

namespace Factory

/-- The described values that are opened while the body of an envelope is read. -/
def opened (f : Factory ω) (e : Envelope ω) : List (Opening ω) :=
  f.toSetting.opened e.schema f.config.maxDepth e.body f.caches

/-- Whether the objects of an envelope are of the registered types that are declared where they
stand. -/
def PlacesFit (f : Factory ω) (e : Envelope ω) : Prop :=
  ∀ x ∈ f.opened e, ∀ y ∈ f.opened e, ∀ name, (name, y.value) ∈ x.codec.places x.body →
    f.registry.isSubtype y.codec.typeName name = true

/-- Whatever payload is decoded, each described value in it is read by a codec of the type that its
schema tells, and the arguments that are handed to a constructor conform to the declared types: they
are null only where this is allowed, primitive values are of the declared primitives, and so are the
items of lists.  A live object is what one of the codecs read; its type is not checked, and is as
declared if the payload has no object of another type there. -/
theorem arguments_of_decode {f : Factory ω} (hf : f.Reachable) {t : HostType} {bytes : List UInt8}
    {e : Envelope ω} (hopen : openPayload t bytes f = .ok e) :
    (∀ object f', decode t bytes f = .ok object f' → ∃ x, (f.opened e).head? = some x ∧
      f.toSetting.gives e.schema x = .ok object) ∧
    ∀ x ∈ f.opened e,
      ((∃ type, e.schema.findByDescriptor? x.descriptor = some type ∧
          x.codec.typeName = type.name) ∨
        e.schema.findByDescriptor? x.descriptor = none ∧
          ∃ b, f.customs.codecFor? x.descriptor = some b ∧ x.codec = .custom b) ∧
      ∀ k args, x.codec.constructor? = some k → f.toSetting.hands e.schema x = .ok args →
        f.toSetting.gives e.schema x = k.build args ∧
        List.Forall₂ (fun p v => p.Accepts (fun name object => ∃ y ∈ f.opened e,
          f.toSetting.gives e.schema y = .ok object ∧
            (f.PlacesFit e → f.registry.isSubtype y.codec.typeName name = true)) v)
          x.codec.declared args := by
  obtain ⟨hregistry, hcustoms, hcaches⟩ := hf.coherent
  refine ⟨fun object f' hdecode => ?_, fun x hx => ?_⟩
  -- The object that is decoded is the one at the root, which is opened first.
  · have houtcome := outcome_decode_of_open hopen
    rw [hdecode] at houtcome
    obtain ⟨object', hread, hdowncast⟩ := except_bind_eq_ok.1 houtcome.symm
    obtain ⟨rfl, -⟩ := downcast_ofHost_eq_ok_iff.1 hdowncast
    obtain ⟨x, hhead, -, hgives⟩ := Setting.head_opened hread
    exact ⟨x, hhead, hgives⟩
  -- The codec was chosen from caches that came up while other objects were read.
  · obtain ⟨c₀, hextends, hreader⟩ := Setting.readerFor_of_opened hx
    obtain ⟨hmade, hname⟩ := Setting.typeName_of_readerFor hregistry hcustoms
      (hcaches.extends hregistry hextends) (hf.made.extends hcaches hregistry hextends) hreader
    refine ⟨hname, fun k args hk hargs => ⟨?_, ?_⟩⟩
    · rw [Setting.gives_eq hk, hargs]
      rfl
    -- What stands in a place was opened inside the same payload; only its type depends on fitting.
    · refine (Setting.accepts_of_hands hx hk hmade hargs).imp fun p v => ?_
      refine PropertyCodec.Accepts.mono ?_
      rintro name object ⟨y, hy, hplace, hgives⟩
      exact ⟨y, hy, hgives, fun hfit => hfit x hx y hy name hplace⟩

end Factory

/-! ### Crates that hold crates -/

namespace Crates

/-- Crates, records that hold a crate. -/
def crate : RecordShape :=
  ⟨"Crate", .concrete 0, [⟨"held", .named "Crate", false, true, "held"⟩],
    [⟨[⟨"held", .named "Crate", false, none⟩], .plain, false, none⟩], [], false⟩

/-- What is told of crates. -/
def crateType : CompositeType :=
  ⟨"Crate", none, [], objectDescriptor "Crate" [⟨"held", "Crate", true⟩], [⟨"held", "Crate", true⟩]⟩

/-- The default codec of crates. -/
def crateCodec : ObjectCodec Entity :=
  ⟨some (Entity.slotType 0), crateType, crate.toShape.properties.map .ofProperty,
    crate.toShape.constructors.head?⟩

/-- The registry of crates. -/
def registry : Registry Entity :=
  ⟨⟨[("Crate", crate.toShape)]⟩, ⟨[(Entity.slotType 0, "Crate")]⟩, []⟩

/-- A factory of crates and notes. -/
def factory : Factory Entity :=
  ⟨⟨registry, (Boxes.factory false).customs, .default⟩, ⟨⟨[("Crate", crateCodec)]⟩, .empty⟩⟩

/-- A described note. -/
def writtenNote : Value Entity := Descriptor.describe ⟨"note", none⟩ (.list [.string "hi"])

/-- A crate with a note where a crate is declared. -/
def forged : Envelope Entity :=
  ⟨crateType.descriptor.describe (.list [writtenNote]),
    ⟨[.composite crateType, .composite (Boxes.noteType false)]⟩⟩

/-- The crate when it is opened. -/
def openedCrate : Opening Entity :=
  ⟨crateType.descriptor.toValue, .list [writtenNote], .object crateCodec, 63, factory.caches⟩

/-- A crate is a crate. -/
theorem isSubtype_crate : registry.isSubtype "Crate" "Crate" = true := by
  simp [Registry.isSubtype, Registry.ancestors, walk, Registry.names, registry, Table.keys,
    Registry.supertypes, Registry.shape?, Table.find?, crate, RecordShape.toShape]

/-- A note is none, nor is anything told of it. -/
theorem isSubtype_note : registry.isSubtype "Note" "Crate" = false := by
  simp [Registry.isSubtype, Registry.ancestors, walk, Registry.names, registry, Table.keys]

/-- The codec of crates, built from the shape. -/
theorem build_crate : ObjectCodec.build crate.toShape registry = .ok crateCodec := by
  have hassignable : registry.isAssignable (.named "Crate") false (.named "Crate") false = true :=
    isSubtype_crate
  have hresolve : crate.toShape.resolve registry =
      .ok ⟨crate.toShape.constructors.head?, crate.toShape.properties⟩ := by
    have hproperty : crate.toShape.propertyFor registry ⟨"held", .named "Crate", false⟩ =
        .ok (crate.property ⟨"held", .named "Crate", false, true, "held"⟩) := by
      rw [TypeShape.propertyFor]
      show (if !registry.isAssignable (.named "Crate") false (.named "Crate") false then _
        else Except.ok _) = _
      rw [hassignable]
      rfl
    show (([⟨"held", .named "Crate", false⟩] : List Param).mapM (crate.toShape.propertyFor registry)
      >>= fun properties => Except.ok (ResolvedShape.mk crate.toShape.constructors.head?
        properties)) = _
    rw [List.mapM_cons, hproperty]
    rfl
  have hprovides : registry.provides "Crate" = [] := Registry.provides_eq_nil rfl rfl
  rw [ObjectCodec.build_of_resolve hresolve hprovides]
  rfl

/-- The factory comes from a new one by its registrations. -/
theorem reachable_factory : factory.Reachable := by
  have hregistry : registry.Reachable := .register .empty (show
    Registry.empty.register crate.toShape = .ok () registry from rfl)
  have hnote : Factory.Reachable ⟨factory.toSetting, .empty⟩ :=
    (Factory.Reachable.new hregistry).registerCustom
      (Boxes.bind_note false (Registry.provides_eq_nil rfl rfl))
  exact hnote.liveCodec rfl rfl build_crate

/-- The tag of crates finds their notation. -/
theorem find_crate : forged.schema.findByDescriptor? (crateType.descriptor.toValue : Value Entity) =
    some (.composite crateType) :=
  List.find?_cons_of_pos (Descriptor.admits_toValue crateType.descriptor)

/-- The tag of notes finds theirs. -/
theorem find_note : forged.schema.findByDescriptor? (.symbol "note" : Value Entity) =
    some (.composite (Boxes.noteType false)) := by
  have hother : (TypeNotation.composite crateType).descriptor.admits
      (.symbol "note" : Value Entity) = false := by decide +kernel
  rw [Schema.findByDescriptor?, forged, List.find?_cons, hother]
  rfl

/-- The forged payload is opened as one of a crate. -/
theorem openPayload_forged : Factory.openPayload (Entity.slotType 0)
    (header ++ forged.toValue.encode.bytes) factory = .ok forged := by
  have hbytes : forged.toBytes = .ok (header ++ forged.toValue.encode.bytes) :=
    Envelope.toBytes_eq_ok_iff.2 ⟨Option.isNone_iff_eq_none.1 (by decide +kernel), rfl⟩
  have hdistinct : forged.schema.Distinct := by
    intro t ht
    simp only [forged, List.mem_cons, List.not_mem_nil, or_false] at ht
    obtain rfl | rfl := ht <;> exact List.pairwise_singleton _ _
  have hparse : Envelope.parse (header ++ forged.toValue.encode.bytes) factory.config.maxDepth =
      .ok forged := Envelope.parse_toBytes hbytes hdistinct (by decide +kernel)
  have hname : factory.nameOfHost (Entity.slotType 0) = .ok "Crate" := rfl
  refine (Factory.openPayload_eq_parse hname fun e he => ?_).trans hparse
  obtain rfl := Except.ok.inj (hparse.symm.trans he)
  exact Factory.rootType_of_find find_crate

/-- The first object opened in it is the crate. -/
theorem head_opened : (factory.opened forged).head? = some openedCrate := by
  have hholds : factory.toSetting.Holds factory.caches (.object crateCodec) := ⟨rfl, rfl, rfl⟩
  have hreader := Setting.readerFor_of_holds hholds find_crate
  show (Setting.opened _ _ (63 + 1) (.described crateType.descriptor.toValue _) _).head? = _
  rw [Setting.opened, show factory.toSetting.readerFor forged.schema crateType.descriptor.toValue
    factory.caches = _ from hreader]
  rfl

/-- The note is read, and handed to the constructor of crates. -/
theorem hands_crate : factory.toSetting.hands forged.schema openedCrate =
    .ok [.live Boxes.aNote] := by
  have hholds : factory.toSetting.Holds factory.caches (.custom (Boxes.noteCodec false)) :=
    ⟨rfl, rfl⟩
  have hreader : factory.toSetting.readerFor forged.schema (.symbol "note") factory.caches =
      .ok (.custom (Boxes.noteCodec false)) factory.caches :=
    Setting.readerFor_of_holds hholds find_note
  have hread : factory.toSetting.readWithin forged.schema 63 writtenNote factory.caches =
      .ok Boxes.aNote factory.caches := by
    show (factory.toSetting.readerFor forged.schema (.symbol "note") >>= fun codec =>
      (codec.read forged.schema (.list [.string "hi"])).run
        (factory.toSetting.readWithin forged.schema 62)) factory.caches = _
    rw [bind_ok hreader]
    rfl
  show outcome ((ask writtenNote _).run (factory.toSetting.readWithin forged.schema 63)
    factory.caches) = _
  rw [run_ask, hread]
  rfl

end Crates

namespace Factory

open Crates

/-- A forged payload has a note handed to the constructor of crates, which takes a crate. -/
theorem arguments_of_decode_forged : registry.isSubtype "Note" "Crate" = false ∧
    factory.toSetting.hands forged.schema openedCrate = .ok [.live Boxes.aNote] ∧
    List.Forall₂ (fun p v => p.Accepts (fun _ object => ∃ y ∈ factory.opened forged,
      factory.toSetting.gives forged.schema y = .ok object) v)
      openedCrate.codec.declared [.live Boxes.aNote] := by
  obtain ⟨-, hopened⟩ := arguments_of_decode reachable_factory openPayload_forged
  obtain ⟨-, hhanded⟩ := hopened openedCrate (List.mem_of_head? head_opened)
  obtain ⟨-, hconforms⟩ := hhanded _ _ rfl hands_crate
  refine ⟨isSubtype_note, hands_crate, hconforms.imp fun p v => ?_⟩
  exact .mono fun name object ⟨y, hy, hgives, _⟩ => ⟨y, hy, hgives⟩

end Factory

end SelfDescribing
