import SelfDescribing.Proofs.Envelope.Overflowing
import SelfDescribing.Proofs.Factory.Caching
import SelfDescribing.Proofs.Factory.Carrying
import SelfDescribing.Proofs.Factory.Depth

namespace SelfDescribing

open Steps

/-!
# Up to a wider shape and down again

An object that one factory encodes is decoded by a factory with a wider shape of its type, encoded
again, and decoded by the first factory as the same object.

* `Factory.decode_upgraded` — what the factory with the wider shape decodes, and what the first
  factory decodes of that.

The way up is decoding by a factory with the wider shape, the way down decoding by the first one.
Both use `Proofs/Factory/Carrying` for what is read and written, and add the payload around it: it
is written, parsed, and opened with the right host type.
-/

variable {ω : Type}

/-! ### Known shapes -/

namespace Setting

variable {known : CompositeType → Prop}

/-- Shapes that have the name and the fields of known ones. -/
def Resembles (known : CompositeType → Prop) (old : CompositeType) : Prop :=
  ∃ old₀, known old₀ ∧ old.name = old₀.name ∧ old.fields = old₀.fields

/-- A shape resembles itself. -/
theorem resembles_of_known {old : CompositeType} (h : known old) : Resembles known old :=
  ⟨old, h, rfl, rfl⟩

/-- A fingerprint depends on name and fields only, so resembling shapes are told apart as well. -/
theorem TellsApart.resembles (h : TellsApart known) : TellsApart (Resembles known) := by
  have hkey : ∀ {old old₀ : CompositeType}, old.name = old₀.name → old.fields = old₀.fields →
      evolutionKey old = evolutionKey old₀ := by
    intro old old₀ hname hfields
    rw [evolutionKey, evolutionKey, hname, hfields]
  rintro old old' ⟨old₀, hold₀, hname, hfields⟩ ⟨old₁, hold₁, hname', hfields'⟩ hsame
  rw [hkey hname hfields, hkey hname' hfields'] at hsame
  rw [hfields, hfields', h old₀ old₁ hold₀ hold₁ hsame]

/-- The shapes in a schema with another root resemble those in the first one. -/
theorem resembles_retold {root root' : Codec ω} {nested nested' : List (Codec ω)}
    (hretells : Codec.RetellsAll nested nested')
    (hapart : ∀ c ∈ nested, ∀ c' ∈ nested, c.ToldApart c')
    (hnames : ∀ c ∈ nested, c.type.name ≠ root.type.name)
    (hknown : ∀ old, .composite old ∈ (schemaOf root nested).types → known old)
    (hknown' : ∀ old, .composite old = root'.type → known old) :
    ∀ old, .composite old ∈ (schemaOf root' nested').types → Resembles known old := by
  intro old hold
  obtain heq | ⟨type, htype, hagrees⟩ := mem_schemaOf_retold hretells hapart hnames hold
  · exact resembles_of_known (hknown' old heq)
  · cases hagrees with
    | composite hname hfields => exact ⟨_, hknown _ htype, hname, hfields⟩

end Setting

namespace Factory

variable [LiveObject ω] {s s' : Setting ω} {known : CompositeType → Prop} {name : String}
  {t t' : HostType} {live live' : ObjectCodec ω} {k k' : Constructor ω} {f f₁ f₂ g : Factory ω}
  {object object' : ω} {bytes : List UInt8} {e : Envelope ω} {n : Nat}

section Trip

variable {ws : List (Value ω)} {room : Nat} (hapart : Setting.TellsApart known)
  (hknown : ∀ old, .composite old ∈ (s.schemaFor live n object).types → known old)
  (hdistinct : (s.schemaFor live n object).Distinct)
  (h : s.Upgrades s' name t t' live live' k k') (hs : s.Coherent)
  (hcustoms : ∀ b ∈ s.customs.codecs.values, ReadsParts b.read)
  (hp : s.Portable s' t t' live live' n object
    ⟨live.composite.descriptor.describe (.list ws), s.schemaFor live n object⟩)
  (hwrite : (live.write live.typeName object).eval (s.writes n) =
    .ok (live.composite.descriptor.describe (.list ws)))
  (hroom : s.config.maxDepth = room + 1)
  (hcarries : live.Carries (s.writes n) (s.schemaFor live n object)
    (s.reads (s.schemaFor live n object) room) object (live.composite.fields.zip ws))

include hapart hknown hdistinct h hs hcustoms hp hwrite hroom hcarries

/-- The factory with the wider shape decodes the object. -/
theorem decode_wide (hg : KeepsIn s' known g) (hfaithful' : live'.Faithful k')
    (haccepts : ∀ args, List.Forall₂ (live.Passes object) live'.properties args →
      ∃ object', k'.build args = .ok object' ∧ LiveObject.hostType object' = t')
    (hbytes : Envelope.toBytes ⟨live.composite.descriptor.describe (.list ws),
      s.schemaFor live n object⟩ = .ok bytes) :
    ∃ object' g₁, decode t' bytes g = .ok object' g₁ ∧ KeepsIn s' known g₁ ∧
      LiveObject.hostType object' = t' ∧
      ∀ p ∈ live'.properties, ∃ v, live.Passes object p v ∧ p.Holds object' v := by
  obtain ⟨shape, -, hbuild⟩ := Setting.buildLive_eq_ok h.build
  obtain ⟨room', hroom'⟩ : ∃ room', s'.config.maxDepth = room' + 1 := ⟨s'.config.maxDepth - 1, by
    have hlimit := hp.objects'
    omega⟩
  have hlength : ws.length = live.composite.fields.length := by
    obtain ⟨ws₁, hws, heq⟩ := ObjectCodec.eval_write_eq_ok.1 hwrite
    cases heq
    rw [ObjectCodec.fields_of_build hbuild, List.length_map, hws.length_eq]
  obtain ⟨args, hpasses, hread⟩ := hp.reads_wide h hs hcustoms hroom hcarries hroom' hlength
  obtain ⟨object', hobject', rfl⟩ := haccepts args hpasses
  -- The object holds what it was constructed from, as the wider shape is faithful.
  have hvalues : ∀ p ∈ live'.properties, ∃ v, live.Passes object p v ∧ p.Holds object' v := by
    intro p hp
    have hholds := hfaithful' args object' hpasses.length_eq.symm hobject'
    obtain ⟨v, -, hv⟩ := exists_of_forall₂ (forall₂_and hpasses hholds) hp
    exact ⟨v, hv⟩
  -- The host type of the wider shape stands for the type's name in the second setting.
  have hname : s'.nameOfHost (LiveObject.hostType object') = .ok name := by
    rw [Setting.nameOfHost, h.customs.codecOf?,
      h.uncustomHost _ (List.mem_cons_of_mem t List.mem_cons_self), h.host']
  have hroot : rootType ⟨live.composite.descriptor.describe (.list ws),
      s.schemaFor live n object⟩ = .ok name := by
    rw [← h.typeName_eq hs.registry]
    exact Setting.rootType_schemaOf (.object live) _ _
  obtain ⟨g₁, hdecode, hg₁⟩ := decode_of_reads hg hapart hbytes hknown hdistinct hp.nesting' hname
    hroot (by rw [hroom']; exact hread.trans hobject')
  exact ⟨object', g₁, hdecode, hg₁, rfl, hvalues⟩

/-- What the factory with the wider shape encodes then, the first factory decodes as the object. -/
theorem decode_narrow (hf : KeepsIn s known f) (hg : KeepsIn s' known g)
    (hknown' : known live'.composite) (hrebuilds : live.Rebuilds object)
    (hbytes : Envelope.toBytes ⟨live.composite.descriptor.describe (.list ws),
      s.schemaFor live n object⟩ = .ok bytes)
    (hhost : LiveObject.hostType object' = t')
    (hvalues : ∀ p ∈ live'.properties, ∃ v, live.Passes object p v ∧ p.Holds object' v) :
    ∃ e', s'.written object' = .ok e' ∧
      ((∃ n, outcome (encode object' g) = .error (.malformed (.lengthOverflow n))) ∨
        ∃ bytes' g', encode object' g = .ok bytes' g' ∧
          (e'.toValue.nesting ≤ s.config.maxDepth → ∃ f', decode t bytes' f = .ok object f')) := by
  obtain ⟨shape', -, hbuild'⟩ := Setting.buildLive_eq_ok h.build'
  obtain ⟨room', hroom'⟩ : ∃ room', s'.config.maxDepth = room' + 1 := ⟨s'.config.maxDepth - 1, by
    have hlimit := hp.objects'
    omega⟩
  obtain ⟨ws', nested', hwritten, hnested, hcarries', hlength, hitems⟩ :=
    hp.written_wide h hs hcarries hroom' hhost hwrite hvalues
  refine ⟨_, hwritten, ?_⟩
  -- What was written once can be written again, unless the whole is too long now.
  have hinert : (live'.composite.descriptor.describe (.list ws')).Inert := by
    refine Descriptor.inert_describe _ (Value.inert_list fun w hw => ?_)
    obtain rfl | hw := hitems w hw
    · exact Value.inert_null
    · have hbody := Value.complete_of_described (Envelope.complete_body hbytes)
      exact Value.inert_of_complete (Value.complete_of_list hbody hw)
  have houtcome := outcome_encode_of_written hg hwritten
  obtain ⟨bytes', hbytes'⟩ | ⟨size, hlong⟩ := Envelope.toBytes_cases
    (e := ⟨_, Setting.schemaOf (.object live') nested'⟩) hinert
  case inr => exact .inl ⟨size, houtcome.trans hlong⟩
  have hencode := eq_ok_of_outcome (houtcome.trans hbytes')
  refine .inr ⟨bytes', _, hencode, fun hnesting => ?_⟩
  -- The types in the new schema are the wider shape, and those that were told before.
  have hlive : (Codec.object live).type.name = name := h.typeName_eq hs.registry
  have hnames : ∀ c ∈ s.nested n object, c.type.name ≠ (Codec.object live).type.name :=
    hlive ▸ hp.name_ne_of_nested h hs
  have hdistinct' : (Setting.schemaOf (.object live') nested').Distinct :=
    Setting.distinct_retold hnested hp.apart hnames hdistinct (ObjectCodec.nodup_of_build hbuild')
  have hresembles : ∀ old, .composite old ∈ (Setting.schemaOf (.object live') nested').types →
      Setting.Resembles known old :=
    Setting.resembles_retold hnested hp.apart hnames hknown fun old hold => by
      cases hold
      exact hknown'
  have hname : s.nameOfHost (LiveObject.hostType object) = .ok name := by
    rw [hp.host, Setting.nameOfHost, h.uncustomHost t List.mem_cons_self, h.host]
  have hroot : rootType ⟨live'.composite.descriptor.describe (.list ws'),
      Setting.schemaOf (.object live') nested'⟩ = .ok name := by
    rw [← h.typeName_eq hs.registry, ← h.widens.typeName]
    exact Setting.rootType_schemaOf (.object live') _ _
  have hread := hp.reads_narrow h hs hcustoms hroom hnested hrebuilds hcarries' hlength hitems
  obtain ⟨f', hdecode, -⟩ := decode_of_reads (hf.mono fun _ => Setting.resembles_of_known)
    hapart.resembles hbytes' hresembles hdistinct' hnesting hname hroot (by rw [hroom]; exact hread)
  rw [hp.host] at hdecode
  exact ⟨f', hdecode⟩

end Trip

/-- An object that a factory encodes and decodes, and that can be carried to another one with a
wider shape of its type, is decoded there as an object with its values, and null for what was
added.  What is encoded of this one is decoded by the first factory as the object again. -/
theorem decode_upgraded (hreachable : f.Reachable) (hf : KeepsIn s known f)
    (hg : KeepsIn s' known g) (hapart : Setting.TellsApart known)
    (hknown : ∀ old, .composite old ∈ e.schema.types → known old)
    (hknown' : known live'.composite) (h : s.Upgrades s' name t t' live live' k k')
    (hfaithful : live.Faithful k) (hfaithful' : live'.Faithful k')
    (hcustoms : ∀ b ∈ s.customs.codecs.values, ReadsParts b.read)
    (hp : s.Portable s' t t' live live' n object e)
    (haccepts : ∀ args, List.Forall₂ (live.Passes object) live'.properties args →
      ∃ object', k'.build args = .ok object' ∧ LiveObject.hostType object' = t')
    (hencode : encode object f = .ok bytes f₁) (hdecode : decode t bytes f₁ = .ok object f₂) :
    ∃ object' g₁, decode t' bytes g = .ok object' g₁ ∧
      (∀ p ∈ live'.properties, ∃ v, live.Passes object p v ∧ p.Holds object' v) ∧
      ∃ e', s'.written object' = .ok e' ∧
        ((∃ n, outcome (encode object' g₁) = .error (.malformed (.lengthOverflow n))) ∨
          ∃ bytes' g₂, encode object' g₁ = .ok bytes' g₂ ∧
            (e'.toValue.nesting ≤ s.config.maxDepth →
              ∃ f₃, decode t bytes' f₂ = .ok object f₃)) := by
  have hs : s.Coherent := by
    rw [← hf.setting]
    exact ⟨hreachable.coherent.registry, hreachable.coherent.customs⟩
  obtain ⟨room, hroom⟩ : ∃ room, s.config.maxDepth = room + 1 := ⟨s.config.maxDepth - 1, by
    have hlimit := hp.objects
    omega⟩
  -- The first factory encodes and decodes the object as with codecs built anew.
  have hbytes : e.toBytes = .ok bytes := by
    rw [← outcome_encode_of_written hf hp.written, hencode]
    rfl
  have hf₁ : KeepsIn s known f₁ := by
    have hkeeps := hf.encode object
    rwa [hencode] at hkeeps
  obtain ⟨hparse, hread, hf₂⟩ := reads_of_decode hf₁ hapart hbytes hknown hdecode
  have hdistinct := Envelope.distinct_of_parse hparse
  obtain ⟨ws, rfl, hwrite⟩ := hp.eq_of_written h
  rw [hroom] at hread
  obtain ⟨hrebuilds, hcarries⟩ := h.carries_of_reads hs hfaithful hwrite hread
  obtain ⟨object', g₁, hdecode', hg₁, hhost, hvalues⟩ := decode_wide hapart hknown hdistinct h hs
    hcustoms hp hwrite hroom hcarries hg hfaithful' haccepts hbytes
  exact ⟨object', g₁, hdecode', hvalues, decode_narrow hapart hknown hdistinct h hs hcustoms hp
    hwrite hroom hcarries hf₂ hg₁ hknown' hrebuilds hbytes hhost hvalues⟩

end Factory

/-! ### Boxes with labels -/

namespace Boxes

/-- Boxes that have a label too, which may be missing. -/
def labelled : RecordShape :=
  ⟨"Box", .concrete 2, [⟨"label", .primitive .string, true, true, "label"⟩,
      ⟨"item", .any, false, true, "item"⟩],
    [⟨[⟨"label", .primitive .string, true, none⟩, ⟨"item", .any, false, none⟩], .plain, false,
      none⟩], [], false⟩

/-- The fields of boxes with labels. -/
def labelledFields : List Field := [⟨"label", "string", false⟩, ⟨"item", "*", true⟩]

/-- What is told of boxes with labels. -/
def labelledType : CompositeType :=
  ⟨"Box", none, [], objectDescriptor "Box" labelledFields, labelledFields⟩

/-- How boxes are constructed. -/
def boxConstructor : Constructor Entity := box.toShape.constructors.head (List.cons_ne_nil _ _)

/-- How boxes with labels are constructed. -/
def labelledConstructor : Constructor Entity :=
  labelled.toShape.constructors.head (List.cons_ne_nil _ _)

/-- The default codec of boxes with labels. -/
def labelledCodec : ObjectCodec Entity :=
  ⟨some (Entity.slotType 2), labelledType, labelled.toShape.properties.map .ofProperty,
    some labelledConstructor⟩

/-- The registry of boxes with labels. -/
def labelledRegistry : Registry Entity :=
  ⟨⟨[("Box", labelled.toShape)]⟩, ⟨[(Entity.slotType 2, "Box")]⟩, []⟩

/-- A factory of boxes with labels, and notes, whose codecs are scanned the other way round. -/
def labelledFactory : Factory Entity :=
  ⟨⟨labelledRegistry, { (factory false).customs with order := .reversed }, .default⟩, .empty⟩

/-- The two boxes have different fingerprints. -/
theorem fingerprint_labelled :
    fingerprint "Box" boxType.fields ≠ fingerprint "Box" labelledFields := by decide +kernel

/-- The tag of boxes with labels is not taken for the one of boxes. -/
theorem admits_labelled :
    boxType.descriptor.admits (labelledType.descriptor.toValue : Value Entity) = false :=
  admits_objectDescriptor fingerprint_labelled

/-- The tag of notes is not one of boxes. -/
theorem admits_note (n : String) (fields : List Field) :
    (objectDescriptor n fields).admits (.symbol "note" : Value Entity) = false := by
  have hname : (objectDescriptor n fields).name ≠ "note" := by
    intro hname
    have hfirst := congrArg String.toList hname
    rw [objectDescriptor, String.toList_append] at hfirst
    cases (List.cons.inj hfirst).1
  exact decide_eq_false hname

/-- The codec of notes is the only custom one. -/
theorem apart_note (twice : Bool) : (factory twice).customs.Apart := by
  have hone : ∀ b ∈ (factory twice).customs.codecs.values, b = noteCodec twice :=
    fun _ => List.mem_singleton.1
  exact CustomCodecs.apart_of_forall_eq hone

/-- The codec of boxes with labels, built from the shape. -/
theorem build_labelled :
    ObjectCodec.build labelled.toShape labelledRegistry = .ok labelledCodec := by
  have hresolve : labelled.toShape.resolve labelledRegistry =
    .ok ⟨some labelledConstructor, labelled.toShape.properties⟩ := rfl
  have hprovides : labelledRegistry.provides "Box" = [] := Registry.provides_eq_nil rfl rfl
  rw [ObjectCodec.build_of_resolve hresolve hprovides]
  rfl

/-- The factory comes from a new one by its registrations. -/
theorem reachable_labelledFactory : labelledFactory.Reachable := by
  have hregistry : labelledRegistry.Reachable := .register .empty (show
    Registry.empty.register labelled.toShape = .ok () labelledRegistry from rfl)
  exact (Factory.Reachable.new hregistry).registerCustom
    (bind_note false (Registry.provides_eq_nil rfl rfl))

/-- The declared type of the item reads back from its text. -/
theorem parse_any : FieldType.parse "*" = .any := by
  rw [FieldType.parse, FieldType.parseChars]
  exact if_pos rfl

/-- The types of all fields of a box read back from their texts. -/
theorem reparses_box : boxCodec.Reparses := by
  intro p hp
  obtain rfl := List.mem_singleton.1 hp
  exact parse_any

/-- Boxes with labels take more than boxes. -/
theorem widens_labelled : boxCodec.Widens labelledCodec boxConstructor labelledConstructor where
  typeName := rfl
  constructor := rfl
  constructor' := rfl
  params := ⟨[⟨"label", .primitive .string, true⟩], .swap _ _ _, by
    intro p hp
    obtain rfl := List.mem_singleton.1 hp
    rfl⟩
  properties := by
    intro p hp p' hp' hname
    obtain rfl := List.mem_singleton.1 hp
    obtain rfl | hp' := List.mem_cons.1 hp'
    · exact absurd hname (by decide)
    · obtain rfl := List.mem_singleton.1 hp'
      exact ⟨rfl, id⟩
  reparses := reparses_box

/-- A box takes its one value as it is. -/
theorem faithful_box : boxCodec.Faithful boxConstructor := by
  intro args object hlength hbuild
  obtain ⟨v, rfl⟩ := List.length_eq_one_iff.1 hlength
  cases hbuild
  exact .cons ⟨_, rfl, rfl⟩ .nil

/-- A box with a label takes both of its values as they are. -/
theorem faithful_labelled : labelledCodec.Faithful labelledConstructor := by
  intro args object hlength hbuild
  obtain ⟨v, w, rfl⟩ := List.length_eq_two.1 hlength
  cases hbuild
  exact .cons ⟨_, rfl, rfl⟩ (.cons ⟨_, rfl, rfl⟩ .nil)

/-- The factories have shapes of boxes one of which takes more, and the same codec of notes. -/
theorem upgrades_box : (factory false).toSetting.Upgrades labelledFactory.toSetting "Box"
    (Entity.slotType 0) (Entity.slotType 2) boxCodec labelledCodec boxConstructor
    labelledConstructor where
  build := build_box
  build' := build_labelled
  widens := widens_labelled
  host := rfl
  host' := rfl
  supertypes := rfl
  shape? := by
    intro n hn
    simp [factory, labelledFactory, registry, labelledRegistry, Registry.shape?, Table.find?,
      Ne.symm hn]
  nameOf? := by
    intro t ht
    simp only [List.mem_cons, List.not_mem_nil, or_false, not_or] at ht
    simp [factory, labelledFactory, registry, labelledRegistry, Registry.nameOf?, Table.find?,
      Ne.symm ht.1, Ne.symm ht.2]
  customs := CustomCodecs.Same.answersAs ⟨fun _ => rfl, fun _ => rfl⟩ (apart_note false)
  uncustom := rfl
  uncustomHost := by
    simp only [List.forall_mem_cons]
    exact ⟨rfl, rfl, fun t ht => absurd ht List.not_mem_nil⟩
  evolution := rfl
  evolution' := rfl

/-- The shapes that are told. -/
def Told (old : CompositeType) : Prop := old ∈ [boxType, labelledType, noteType false]

/-- No two of the three shapes have one fingerprint. -/
theorem tellsApart_told : Setting.TellsApart Told := by
  have hkeys : ([boxType, labelledType, noteType false].map Setting.evolutionKey).Nodup := by
    have hbox : Setting.evolutionKey boxType ≠ Setting.evolutionKey labelledType :=
      fun h => fingerprint_labelled (Prod.mk.inj h).2
    have hnames : ∀ {old old' : CompositeType}, old.name ≠ old'.name →
        Setting.evolutionKey old ≠ Setting.evolutionKey old' :=
      fun h hkey => h (Prod.mk.inj hkey).1
    simp only [List.map_cons, List.map_nil, List.nodup_cons, List.mem_cons, List.not_mem_nil,
      or_false, not_or, not_false_eq_true, List.nodup_nil, and_true]
    exact ⟨⟨hbox, hnames (by decide)⟩, hnames (by decide)⟩
  intro old old' hold hold' hkey
  rw [List.inj_on_of_nodup_map hkeys hold hold' hkey]

/-- The factory keeps nothing but default codecs. -/
theorem keepsIn_factory : Factory.KeepsIn (factory false).toSetting Told (factory false) :=
  ⟨rfl, Setting.extends_insert_live (c := .empty) rfl rfl build_box, fun h => nomatch h⟩

/-- The envelope of the box. -/
theorem written_box : (factory false).toSetting.written aBox = .ok (envelope false) :=
  Factory.written_of_writing keepsIn_factory.caches (writing_box false)

/-- The note is the one object in the box. -/
theorem inside_box : (factory false).toSetting.inside 1 ⟨aBox, none⟩ = [⟨aNote, none⟩] := by
  rw [Setting.inside_root (upgrades_box.writerOf_live rfl)]
  rfl

/-- The note in the box has a custom codec. -/
theorem nested_box : (factory false).toSetting.nested 1 aBox = [.custom (noteCodec false)] := by
  rw [Setting.nested, inside_box]
  rfl

/-- The two factories choose alike in all that is told of a box. -/
theorem portable_box : (factory false).toSetting.Portable labelledFactory.toSetting
    (Entity.slotType 0) (Entity.slotType 2) boxCodec labelledCodec 1 aBox (envelope false) where
  host := rfl
  written := written_box
  avoids := by
    -- The note is the only object inside, and has another host type than either box.
    rw [inside_box]
    intro q hq
    obtain rfl := List.mem_singleton.1 hq
    exact ⟨by decide, fun q hq => nomatch hq⟩
  apart := by
    rw [nested_box]
    intro c hc c' hc' _
    rw [List.mem_singleton.1 hc, List.mem_singleton.1 hc']
  tags := by
    rintro tag inner hbody d body hpart
    cases hbody
    -- The one described value in the body is the note.
    have hnote : d = .symbol "note" := by
      cases hpart with
      | item hmem hpart =>
        obtain rfl := List.mem_singleton.1 hmem
        cases hpart with
        | item hmem hpart =>
          obtain rfl := List.mem_singleton.1 hmem
          cases hpart with
          | refl => rfl
          | body hpart =>
            cases hpart with
            | item hmem hpart =>
              obtain rfl := List.mem_singleton.1 hmem
              cases hpart
    rw [hnote]
    exact ⟨admits_note _ _, admits_note _ _⟩
  objects := by decide
  objects' := by decide
  nesting := nesting_box false
  nesting' := nesting_box false

/-- No type of the payload is told twice. -/
theorem distinct_box : (envelope false).schema.Distinct := by
  intro type htype
  obtain rfl | htype := List.mem_cons.1 htype
  · exact ObjectCodec.nodup_of_build build_box
  · obtain rfl := List.mem_singleton.1 htype
    exact List.pairwise_singleton _ _

/-- The payload tells known shapes. -/
theorem told_box : ∀ old, .composite old ∈ (envelope false).schema.types → Told old := by
  intro old hold
  obtain heq | hold := List.mem_cons.1 hold
  · cases heq
    exact List.mem_cons_self
  · cases List.mem_singleton.1 hold
    exact List.mem_of_getElem? (i := 2) rfl

/-- The tag of notes finds their notation. -/
theorem find_note : (envelope false).schema.findByDescriptor? (.symbol "note" : Value Entity) =
    some (.composite (noteType false)) := by
  have hbox : ¬ boxType.descriptor.admits (.symbol "note" : Value Entity) = true :=
    Bool.eq_false_iff.1 (admits_note _ _)
  exact List.find?_cons_of_neg (a := TypeNotation.composite boxType) hbox

/-- A box holds what is read of its item. -/
theorem eval_read_box {S : Schema} {reads : Value Entity → Except Error Entity}
    {v w : Value Entity} (hv : v.isNull = false) (h : (readAny S v).eval reads = .ok w) :
    (boxCodec.read S (.list [v])).eval reads = .ok (holding w) := by
  have hitem : ∀ p ∈ boxCodec.properties, (p.read S v).eval reads = .ok w := by
    intro p hp
    obtain rfl := List.mem_singleton.1 hp
    rw [PropertyCodec.read, hv]
    show (readTyped S "item" .any v).eval reads = _
    rw [readTyped_any, h]
  have hargs : List.Forall₂ (fun x a => (x.1.read S x.2).eval reads = .ok a)
      (boxCodec.properties.zip [v]) [w] := .cons (hitem _ List.mem_cons_self) .nil
  show (((boxCodec.properties.zip [v]).mapM fun x => x.1.read S x.2) >>=
    fun args => Exchange.done (boxConstructor.build args)).eval reads = _
  rw [Exchange.eval_bind, Exchange.eval_mapM_eq_ok.2 hargs]
  rfl

/-- A box is read by its codec: the value of its item is read first, then the box is constructed. -/
theorem reads_holding (nested : List (Codec Entity)) {v w : Value Entity} (hv : v.isNull = false)
    (h : (readAny (Setting.schemaOf (.object boxCodec) nested) v).eval
      ((factory false).toSetting.reads (Setting.schemaOf (.object boxCodec) nested) 63) = .ok w) :
    (factory false).toSetting.reads (Setting.schemaOf (.object boxCodec) nested) 64
      (boxType.descriptor.describe (.list [v])) = .ok (holding w) := by
  have hchosen : (factory false).toSetting.chooses (Setting.schemaOf (.object boxCodec) nested)
      (boxType.descriptor.toValue : Value Entity) = .ok (.object boxCodec) :=
    Setting.chooses_root nested rfl rfl build_box
  exact except_bind_eq_ok.2 ⟨_, hchosen, eval_read_box hv h⟩

/-- A note is read by its custom codec, with any room. -/
theorem reads_note (room : Nat) : (factory false).toSetting.reads (envelope false).schema (room + 1)
    (Descriptor.describe ⟨"note", none⟩ (.list [.string "hi"])) = .ok aNote := by
  show ((factory false).toSetting.chooses _ (.symbol "note") >>= _) = _
  rw [Setting.chooses, find_note]
  rfl

/-- The box is read with the note in it. -/
theorem reads_box : (factory false).toSetting.reads (envelope false).schema
    (factory false).toSetting.config.maxDepth (envelope false).body = .ok aBox := by
  have hnote : (readObject (Descriptor.describe ⟨"note", none⟩ (.list [.string "hi"]))).eval
      ((factory false).toSetting.reads (envelope false).schema 63) = .ok aNote := reads_note 62
  have hitem : (readAny (envelope false).schema
      (.list [Descriptor.describe ⟨"note", none⟩ (.list [.string "hi"])])).eval
        ((factory false).toSetting.reads (envelope false).schema 63) =
          .ok (.list [.live aNote]) := by
    simp only [Descriptor.describe, Descriptor.toValue] at hnote ⊢
    simp only [readAny, readItems, find_note, Option.isSome_some, if_true, Exchange.eval_bind,
      hnote]
    rfl
  exact reads_holding [.custom (noteCodec false)] rfl hitem

/-- The factory decodes its own payload. -/
theorem decode_box : ∃ f, Factory.decode (Entity.slotType 0)
    (header ++ (envelope false).toValue.encode.bytes) (factory false) = .ok aBox f := by
  have hroot : Factory.rootType (envelope false) = .ok "Box" :=
    Setting.rootType_schemaOf (.object boxCodec) [.custom (noteCodec false)] _
  have hname : (factory false).toSetting.nameOfHost (LiveObject.hostType aBox) = .ok "Box" := rfl
  obtain ⟨f, hdecode, -⟩ := Factory.decode_of_reads keepsIn_factory tellsApart_told
    (toBytes_box false) told_box distinct_box (nesting_box false) hname hroot reads_box
  exact ⟨f, hdecode⟩

/-- What boxes with labels are constructed from, they take: the values of a box and null. -/
theorem accepts_labelled (args : List (Value Entity))
    (h : List.Forall₂ (boxCodec.Passes aBox) labelledCodec.properties args) :
    ∃ object, labelledConstructor.build args = .ok object ∧
      LiveObject.hostType object = Entity.slotType 2 := by
  obtain ⟨v, w, rfl⟩ := List.length_eq_two.1 h.length_eq.symm
  exact ⟨_, rfl, rfl⟩

/-- The factory of boxes with labels is new and keeps no codec. -/
theorem keepsIn_labelledFactory :
    Factory.KeepsIn labelledFactory.toSetting Told labelledFactory := Factory.keepsIn_new _ _

end Boxes

namespace Factory

open Boxes

/-- A box with a note becomes a box with the note and no label, and this becomes the box again. -/
theorem decode_upgraded_box : ∃ bytes f,
    encode aBox (factory false) = .ok bytes (factory false) ∧
      decode (Entity.slotType 0) bytes (factory false) = .ok aBox f ∧
      ∃ object' g, decode (Entity.slotType 2) bytes labelledFactory = .ok object' g ∧
        (∀ p ∈ labelledCodec.properties, ∃ v, boxCodec.Passes aBox p v ∧ p.Holds object' v) ∧
        ∃ e, labelledFactory.toSetting.written object' = .ok e ∧
          ((∃ n, outcome (encode object' g) = .error (.malformed (.lengthOverflow n))) ∨
            ∃ bytes' g', encode object' g = .ok bytes' g' ∧
              (e.toValue.nesting ≤ (factory false).config.maxDepth →
                ∃ f', decode (Entity.slotType 0) bytes' f = .ok aBox f')) := by
  obtain ⟨f, hdecode⟩ := decode_box
  have hcustoms : ∀ b ∈ (factory false).customs.codecs.values, ReadsParts b.read := by
    intro b hb
    obtain rfl := List.mem_singleton.1 hb
    exact (note false).readsParts
  exact ⟨_, f, encode_box false, hdecode, decode_upgraded (reachable_factory false)
    keepsIn_factory keepsIn_labelledFactory tellsApart_told told_box
    (List.mem_cons_of_mem _ List.mem_cons_self) upgrades_box faithful_box faithful_labelled
    hcustoms portable_box accepts_labelled (encode_box false) hdecode⟩

end Factory

namespace Boxes

/-- A null with the tag of boxes with labels. -/
def held : Value Entity := labelledType.descriptor.describe .null

/-- A box with a label, which is missing, that holds a value. -/
def unlabelled (v : Value Entity) : Entity := .record 2 [("label", .null), ("item", v)]

/-- The envelope of a box with a missing label that holds a value without objects. -/
def unlabelledEnvelope (v : Value Entity) : Envelope Entity :=
  ⟨labelledType.descriptor.describe (.list [.null, v]), ⟨[.composite labelledType]⟩⟩

/-- A value that is no object is written as it is. -/
theorem writeAny_held : writeAny held = pure held := rfl

/-- Where the tag is not told, it is read as it is. -/
theorem readAny_held : readAny ⟨[.composite boxType]⟩ held = pure held := by
  have hunlisted : (Schema.findByDescriptor? ⟨[.composite boxType]⟩
      (labelledType.descriptor.toValue : Value Entity)).isSome = false := by
    simp only [Schema.findByDescriptor?, List.find?_cons, List.find?_nil]
    rw [show (TypeNotation.composite boxType).descriptor = boxType.descriptor from rfl,
      admits_labelled]
    rfl
  rw [held, Descriptor.describe, readAny, hunlisted]
  rfl

/-- A box with a missing label is written with null for the label. -/
theorem written_unlabelled : labelledFactory.toSetting.written (unlabelled held) =
    .ok (unlabelledEnvelope held) := by
  have hroom : labelledFactory.toSetting.config.maxDepth = 63 + 1 := rfl
  rw [Setting.written_root (upgrades_box.writerOf_live' rfl) hroom]
  rfl

/-- The item is read by its name. -/
theorem readNamed_item {S : Schema} {pairs : List (Field × Value Entity)}
    (h : fieldNamed? pairs "item" = some (⟨"item", "*", true⟩, held)) :
    readNamed S pairs "item" = readAny S held := by
  rw [readNamed, h]
  show readTyped S "item" (FieldType.parse "*") held = _
  rw [parse_any, readTyped_any]

/-- The first factory reads the box that it wrote. -/
theorem reads_held : (factory false).toSetting.reads (envelopeOf held).schema
    (factory false).toSetting.config.maxDepth (envelopeOf held).body = .ok (holding held) :=
  reads_holding [] rfl (congrArg _ readAny_held)

/-- The factory of boxes with labels reads the box of the other one, with the label missing. -/
theorem reads_held_wide : labelledFactory.toSetting.reads (envelopeOf held).schema
    labelledFactory.toSetting.config.maxDepth (envelopeOf held).body = .ok (unlabelled held) := by
  obtain ⟨x, hmake, hx⟩ :=
    widens_labelled.make_wide build_box build_labelled upgrades_box.agreesOff.isAssignable
  have hother : boxType.fields ≠ labelledType.fields := by decide
  have hbuild : labelledFactory.toSetting.buildLive boxCodec.typeName = .ok labelledCodec :=
    build_labelled
  have hroot := Setting.reads_root boxCodec [] [held] rfl rfl hbuild
    (fun hsame => absurd hsame hother) rfl hmake 63
  refine hroot.trans ?_
  rw [hx]
  have hitem : readNamed (envelopeOf held).schema (boxType.fields.zip [held]) "item" = pure held :=
    (readNamed_item rfl).trans readAny_held
  have hargs : List.Forall₂ (fun name a => (readNamed (envelopeOf held).schema
      (boxType.fields.zip [held]) name).eval
        (labelledFactory.toSetting.reads (envelopeOf held).schema 63) = .ok a)
      (labelledConstructor.params.map (·.name)) [.null, held] :=
    .cons rfl (.cons (congrArg _ hitem) .nil)
  exact Constructor.eval_readNamed hargs

/-- Where the tag is told, the same value is read as an object. -/
theorem readAny_held_told : readAny (unlabelledEnvelope held).schema held =
    readObject held >>= fun object => pure (.live object) := by
  have hlisted : (unlabelledEnvelope held).schema.findByDescriptor?
      (labelledType.descriptor.toValue : Value Entity) = some (.composite labelledType) :=
    Setting.find_root (.object labelledCodec) []
  show readAny _ (.described labelledType.descriptor.toValue .null) = _
  rw [readAny, hlisted]
  rfl

/-- Factories of boxes without labels do not read the null with the tag of the others. -/
theorem not_reads_held_item (room : Nat) (object : Entity) : (factory false).toSetting.reads
    (unlabelledEnvelope held).schema (room + 1) held ≠ .ok object := by
  obtain ⟨x, hmake, -⟩ :=
    widens_labelled.make_narrow build_box build_labelled upgrades_box.agreesOff.isAssignable
  intro hread
  obtain ⟨codec, hcodec, hread⟩ := except_bind_eq_ok.1 hread
  have hother : labelledType.fields ≠ boxType.fields := by decide
  have hbuild : (factory false).toSetting.buildLive labelledCodec.typeName = .ok boxCodec :=
    build_box
  have hchosen : (factory false).toSetting.chooses (unlabelledEnvelope held).schema
      (labelledType.descriptor.toValue : Value Entity) = .ok (.evolution x) :=
    Setting.chooses_other labelledCodec [] rfl rfl hbuild hother hmake
  cases hchosen.symm.trans hcodec
  cases hread

/-- The first factory has no object for that: null is no body of a box. -/
theorem not_reads_held_narrow (object : Entity) : (factory false).toSetting.reads
    (unlabelledEnvelope held).schema (factory false).toSetting.config.maxDepth
      (unlabelledEnvelope held).body ≠ .ok object := by
  obtain ⟨x, hmake, hx⟩ :=
    widens_labelled.make_narrow build_box build_labelled upgrades_box.agreesOff.isAssignable
  have hbuild : (factory false).toSetting.buildLive labelledCodec.typeName = .ok boxCodec :=
    build_box
  have hroot := Setting.reads_root labelledCodec [] [.null, held] rfl rfl hbuild
    (fun _ => reparses_box) rfl hmake 63
  intro hread
  have hnamed := hroot.symm.trans hread
  rw [hx, Constructor.readNamed, Exchange.eval_bind, except_bind_eq_ok] at hnamed
  obtain ⟨args, hargs, -⟩ := hnamed
  obtain ⟨a, rest, hitem, -⟩ := List.forall₂_cons_left_iff.1 (Exchange.eval_mapM_eq_ok.1 hargs)
  -- The null is asked for as an object, since the schema lists its tag.
  have hheld : (readNamed (unlabelledEnvelope held).schema
      (labelledFields.zip [.null, held]) "item").eval
        ((factory false).toSetting.reads (unlabelledEnvelope held).schema 63) = .ok a := hitem
  rw [readNamed_item rfl, readAny_held_told, Exchange.eval_bind] at hheld
  obtain ⟨o, ho, -⟩ := except_bind_eq_ok.1 hheld
  exact not_reads_held_item 62 o ho

/-- A schema of one type tells no type twice, since the fields of a codec that was built have
different names. -/
theorem distinct_alone {c : ObjectCodec Entity} {shape : TypeShape Entity} {r : Registry Entity}
    (hbuild : ObjectCodec.build shape r = .ok c) : Schema.Distinct ⟨[.composite c.composite]⟩ := by
  intro type htype
  obtain rfl := List.mem_singleton.1 htype
  exact ObjectCodec.nodup_of_build hbuild

/-- One type is known if it is told. -/
theorem told_alone {type : CompositeType} (htype : Told type) :
    ∀ old, .composite old ∈ (Schema.mk [.composite type]).types → Told old := by
  intro old hold
  cases List.mem_singleton.1 hold
  exact htype

/-- Both boxes fit what can be written and the default limit. -/
theorem fits_held : ((envelopeOf held).toValue.encode.failure.isNone ∧
    (unlabelledEnvelope held).toValue.encode.failure.isNone) ∧
    (envelopeOf held).toValue.nesting ≤ 64 ∧ (unlabelledEnvelope held).toValue.nesting ≤ 64 := by
  decide +kernel

/-- The payload with the held value can be written. -/
theorem complete_held : (envelopeOf held).toValue.encode.failure = none :=
  Option.isNone_iff_eq_none.1 fits_held.1.1

/-- The payload of the box with the held value is the header and the envelope. -/
theorem toBytes_held : (envelopeOf held).toBytes =
    .ok (header ++ (envelopeOf held).toValue.encode.bytes) :=
  Envelope.toBytes_eq_ok_iff.2 ⟨complete_held, rfl⟩

/-- The payload of the second factory likewise. -/
theorem toBytes_unlabelled : (unlabelledEnvelope held).toBytes =
    .ok (header ++ (unlabelledEnvelope held).toValue.encode.bytes) :=
  Envelope.toBytes_eq_ok_iff.2 ⟨Option.isNone_iff_eq_none.1 fits_held.1.2, rfl⟩

/-- What the first factory encodes. -/
theorem encode_held : Factory.encode (holding held) (factory false) =
    .ok (header ++ (envelopeOf held).toValue.encode.bytes) (factory false) :=
  encode_holding writeAny_held complete_held

/-- The root of the payload is a box. -/
theorem rootType_held : Factory.rootType (envelopeOf held) = .ok "Box" :=
  Setting.rootType_schemaOf (.object boxCodec) [] (.list [held])

/-- The payload tells one type. -/
theorem distinct_held : (envelopeOf held).schema.Distinct := distinct_alone build_box

/-- The one type that the payload tells is known. -/
theorem told_held : ∀ old, .composite old ∈ (envelopeOf held).schema.types → Told old :=
  told_alone List.mem_cons_self

/-- The first factory decodes its own payload. -/
theorem decode_held : ∃ f, Factory.decode (Entity.slotType 0)
      (header ++ (envelopeOf held).toValue.encode.bytes) (factory false) = .ok (holding held) f ∧
    Factory.KeepsIn (factory false).toSetting Told f := by
  have hname : (factory false).toSetting.nameOfHost (LiveObject.hostType (holding held)) =
    .ok "Box" := rfl
  obtain ⟨f, hdecode, hf⟩ := Factory.decode_of_reads keepsIn_factory tellsApart_told toBytes_held
    told_held distinct_held fits_held.2.1 hname rootType_held reads_held
  exact ⟨f, hdecode, hf⟩

/-- The factory of boxes with labels decodes the payload of the other one. -/
theorem decode_held_wide : ∃ g, Factory.decode (Entity.slotType 2)
      (header ++ (envelopeOf held).toValue.encode.bytes) labelledFactory = .ok (unlabelled held) g ∧
    Factory.KeepsIn labelledFactory.toSetting Told g := by
  have hname : labelledFactory.toSetting.nameOfHost (LiveObject.hostType (unlabelled held)) =
    .ok "Box" := rfl
  obtain ⟨g, hdecode, hg⟩ := Factory.decode_of_reads keepsIn_labelledFactory tellsApart_told
    toBytes_held told_held distinct_held fits_held.2.1 hname rootType_held reads_held_wide
  exact ⟨g, hdecode, hg⟩

/-- What the second one encodes of it, the first one does not decode. -/
theorem not_decode_unlabelled {f f' : Factory Entity}
    (hf : Factory.KeepsIn (factory false).toSetting Told f) (object : Entity) :
    Factory.decode (Entity.slotType 0)
      (header ++ (unlabelledEnvelope held).toValue.encode.bytes) f ≠ .ok object f' := by
  intro hdecode
  have htold : Told labelledType := List.mem_cons_of_mem _ List.mem_cons_self
  obtain ⟨-, hread, -⟩ := Factory.reads_of_decode hf tellsApart_told toBytes_unlabelled
    (told_alone htold) hdecode
  exact not_reads_held_narrow object hread

/-- With a value inside that has the tag of boxes with labels all else holds, and the box comes back
at once and arrives where boxes have labels, but what is encoded of it there is not decoded. -/
theorem not_decode_upgraded_held :
    (factory false).Reachable ∧ labelledFactory.Reachable ∧
    (factory false).toSetting.Upgrades labelledFactory.toSetting "Box" (Entity.slotType 0)
      (Entity.slotType 2) boxCodec labelledCodec boxConstructor labelledConstructor ∧
    boxCodec.Faithful boxConstructor ∧ labelledCodec.Faithful labelledConstructor ∧
    boxType.descriptor ≠ labelledType.descriptor ∧
    (factory false).toSetting.inside 1 ⟨holding held, none⟩ = [] ∧
    (envelopeOf held).toValue.nesting ≤ 64 ∧ (unlabelledEnvelope held).toValue.nesting ≤ 64 ∧
    ∃ bytes bytes' f g g', (envelopeOf held).toBytes = .ok bytes ∧
      Factory.encode (holding held) (factory false) = .ok bytes (factory false) ∧
      Factory.decode (Entity.slotType 0) bytes (factory false) = .ok (holding held) f ∧
      Factory.decode (Entity.slotType 2) bytes labelledFactory = .ok (unlabelled held) g ∧
      (unlabelledEnvelope held).toBytes = .ok bytes' ∧
      Factory.encode (unlabelled held) g = .ok bytes' g' ∧
      ∀ object f', Factory.decode (Entity.slotType 0) bytes' f ≠ .ok object f' := by
  have hdescriptors : boxType.descriptor ≠ labelledType.descriptor :=
    fun hsame => fingerprint_labelled (objectDescriptor_eq_iff.1 hsame)
  -- The held value is no object, so that nothing inside could be of either type.
  have hinside : (factory false).toSetting.inside 1 ⟨holding held, none⟩ = [] := by
    rw [Setting.inside_root (upgrades_box.writerOf_live rfl)]
    rfl
  obtain ⟨f, hdecode, hf⟩ := decode_held
  obtain ⟨g, hdecode', hg⟩ := decode_held_wide
  have hencode := Factory.outcome_encode_of_written hg written_unlabelled
  rw [toBytes_unlabelled] at hencode
  exact ⟨reachable_factory false, reachable_labelledFactory, upgrades_box, faithful_box,
    faithful_labelled, hdescriptors, hinside, fits_held.2.1, fits_held.2.2, _, _, f, g, _,
    toBytes_held, encode_held, hdecode, hdecode', toBytes_unlabelled, eq_ok_of_outcome hencode,
    fun object f' => not_decode_unlabelled hf object⟩

end Boxes

end SelfDescribing
