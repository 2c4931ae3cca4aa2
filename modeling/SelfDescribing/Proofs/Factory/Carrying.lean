import SelfDescribing.Proofs.Codec.Widening
import SelfDescribing.Proofs.Factory.Reachable
import SelfDescribing.Proofs.Factory.Reordering
import SelfDescribing.Proofs.Factory.Retelling

namespace SelfDescribing

open Steps Exchange

/-!
# Settings with a wider shape

Two settings register a type as two shapes, of which the second takes more, and all other types
alike.

* `Setting.Upgrades` — two such settings.
* `Setting.Portable` — an object that can be carried from the first setting to the second one.
* `Portable.reads_wide`, `Portable.written_wide`, `Portable.reads_narrow` — what the second setting
  reads of it, what it writes then, and what the first one reads of that.

All three steps look at the root apart from what is inside it.  The objects inside are of other
types, so that by `Proofs/Factory/Differing` the two settings treat them alike, as long as the
schemas tell the same of their tags; at the root, `Proofs/Codec/Widening` says what the two shapes
make of each other's fields.
-/

variable {ω : Type}

/-- Custom codecs are coherent with their host types: what is found by a host type is stored under
the name of its type. -/
theorem CustomCodecs.Coherent.of_host {customs : CustomCodecs ω} (h : customs.Coherent)
    {t : HostType} {b : BoundCodec ω} (hb : customs.codecOf? t = some b) :
    customs.codec? b.type.name = some b := by
  obtain ⟨n, -, hn⟩ := Option.bind_eq_some_iff.1 hb
  rw [h.type_name_eq hn]
  exact hn

namespace Setting

/-- Two settings that register a type of one name as two shapes, of which the second takes more, and
all other types alike; no custom codec handles the type. -/
structure Upgrades (s s' : Setting ω) (name : String) (t t' : HostType)
    (live live' : ObjectCodec ω) (k k' : Constructor ω) : Prop where
  build : s.buildLive name = .ok live
  build' : s'.buildLive name = .ok live'
  widens : live.Widens live' k k'
  host : s.registry.nameOf? t = some name
  host' : s'.registry.nameOf? t' = some name
  supertypes : s'.registry.supertypes name = s.registry.supertypes name
  shape? : ∀ {n}, n ≠ name → s'.registry.shape? n = s.registry.shape? n
  nameOf? : ∀ {h}, h ∉ [t, t'] → s'.registry.nameOf? h = s.registry.nameOf? h
  customs : s.customs.AnswersAs s'.customs
  uncustom : s.customs.codec? name = none
  uncustomHost : ∀ h ∈ [t, t'], s.customs.codecOf? h = none
  evolution : s.config.evolution = true
  evolution' : s'.config.evolution = true

/-- The registry and the custom codecs agree with each other. -/
structure Coherent (s : Setting ω) : Prop where
  registry : s.registry.Coherent
  customs : s.customs.Coherent

variable {s s' : Setting ω} {name : String} {t t' : HostType} {live live' : ObjectCodec ω}
  {k k' : Constructor ω}

/-! ### Other types -/

namespace Upgrades

variable (h : s.Upgrades s' name t t' live live' k k')

include h

/-- The two settings agree off the type that they register differently. -/
theorem agreesOff : s.AgreesOff s' name where
  customs := h.customs
  evolution := by rw [h.evolution, h.evolution']
  isSubtype := by
    refine Registry.isSubtype_congr fun n => ?_
    by_cases hn : n = name
    · rw [hn]
      exact h.supertypes
    · rw [Registry.supertypes, Registry.supertypes, h.shape? hn]
  shape? := h.shape?

/-- Objects of other host types have other type names. -/
theorem name_ne (hs : s.registry.Coherent) {host : HostType} (hhost : host ∉ [t, t']) {n : String}
    (hn : s.registry.nameOf? host = some n) : n ≠ name := by
  rintro rfl
  obtain ⟨shape, hshape, hkind⟩ := hs.shape_of_host hn
  obtain ⟨shape', hshape', hkind'⟩ := hs.shape_of_host h.host
  cases hshape.symm.trans hshape'
  cases hkind.symm.trans hkind'
  exact hhost List.mem_cons_self

/-- The codecs of other host types tell other type names. -/
theorem type_name_ne (hs : s.Coherent) {host : HostType} (hhost : host ∉ [t, t']) {c : Codec ω}
    (hc : s.codecOf host = .ok c) : c.type.name ≠ name := by
  rw [codecOf] at hc
  -- A custom codec has a name of its own, under which the type has none.
  cases hcustom : s.customs.codecOf? host with
  | some b =>
    rw [hcustom] at hc
    cases hc
    have hfound := hs.customs.of_host hcustom
    intro hname
    have hnone := h.uncustom
    rw [← hname] at hnone
    cases hfound.symm.trans hnone
  | none =>
    rw [hcustom] at hc
    dsimp only at hc
    -- A default codec has the name of its shape, and other host types lead to other names.
    cases hn : s.registry.nameOf? host with
    | none =>
      rw [hn] at hc
      cases hc
    | some n =>
      rw [hn] at hc
      obtain ⟨x, hx, hc⟩ := except_bind_eq_ok.1 hc
      cases hc
      obtain ⟨shape, hshape, hbuild⟩ := buildLive_eq_ok hx
      have hname : x.composite.name = n :=
        (ObjectCodec.typeName_of_build hbuild).trans (hs.registry.name_eq hshape)
      show x.composite.name ≠ name
      rw [hname]
      exact h.name_ne hs.registry hhost hn

/-- Objects of other host types have the same codecs, but for the supertypes that these tell. -/
theorem like_codecOf (hs : s.registry.Coherent) {host : HostType} (hhost : host ∉ [t, t']) :
    Like Codec.Retells (s.codecOf host) (s'.codecOf host) := by
  rw [codecOf, codecOf, h.customs.codecOf?, h.nameOf? hhost]
  cases s.customs.codecOf? host with
  | some b => exact .ok (.same _)
  | none =>
    cases hn : s.registry.nameOf? host with
    | none => exact .error _
    | some n =>
      refine (h.agreesOff.like_buildLive (h.name_ne hs hhost hn)).bind ?_
      rintro c _ ⟨provides, rfl⟩
      exact .ok (.object c provides)

variable [LiveObject ω]

/-- Objects of other host types are written by codecs that differ at most in the supertypes that
schemas tell. -/
theorem like_writerOf (hs : s.registry.Coherent) {q : WriteRequest ω}
    (hhost : LiveObject.hostType q.object ∉ [t, t']) :
    Like Codec.Retells (s.writerOf q) (s'.writerOf q) := by
  refine (h.like_codecOf hs hhost).bind fun c c' hretells => ?_
  have hname : c'.typeName = c.typeName := by cases hretells <;> rfl
  cases q.expected with
  | none => exact .ok hretells
  | some expected =>
    dsimp only
    rw [h.agreesOff.isSubtype, hname]
    split
    · exact .ok hretells
    · exact .error _

/-- Where objects of the type are avoided, no codec that is visited tells its name. -/
theorem name_ne_of_visits (hs : s.Coherent) {n : Nat} {q : WriteRequest ω}
    (havoids : s.Avoids [t, t'] n q) : ∀ c ∈ s.visits n q, c.type.name ≠ name := by
  induction n generalizing q with
  | zero => exact absurd havoids id
  | succ n ih =>
    obtain ⟨hhost, hinside⟩ := havoids
    rw [visits]
    cases hwriter : s.writerOf q with
    | error e =>
      intro c hc
      cases hc
    | ok codec =>
      dsimp only
      rw [List.forall_mem_cons]
      obtain ⟨c, hc, hexpected⟩ := except_bind_eq_ok.1 hwriter
      -- What the request expects can only refuse the codec.
      have hsame : codec = c := by
        split at hexpected
        · exact (Except.ok.inj hexpected).symm
        · split at hexpected
          · exact (Except.ok.inj hexpected).symm
          · cases hexpected
      refine ⟨hsame ▸ h.type_name_ne hs hhost hc, fun c hc => ?_⟩
      obtain ⟨q', hq', hc⟩ := List.mem_flatMap.1 hc
      exact ih (hinside q' hq') c hc

end Upgrades

/-! ### The root of a payload -/

variable [LiveObject ω]

/-- The object at the root is written by the codec of its host type. -/
theorem writerOf_root {root : Codec ω} {object : ω}
    (h : s.codecOf (LiveObject.hostType object) = .ok root) :
    s.writerOf ⟨object, none⟩ = .ok root := by
  rw [writerOf, h]
  rfl

/-- The objects inside it are those that this codec asks for. -/
theorem inside_root {root : Codec ω} {object : ω} (h : s.writerOf ⟨object, none⟩ = .ok root)
    (room : Nat) : s.inside room ⟨object, none⟩ =
      (root.write root.typeName object).asks (s.writes room) := by
  rw [inside, h]

/-- The envelope of an object holds what the root's codec writes, and the types of the codecs that
are used inside it. -/
theorem written_root {root : Codec ω} {object : ω} (h : s.writerOf ⟨object, none⟩ = .ok root)
    {room : Nat} (hroom : s.config.maxDepth = room + 1) : s.written object =
      (root.write root.typeName object).eval (s.writes room) >>= fun body =>
        .ok ⟨body, schemaOf root ((s.inside room ⟨object, none⟩).flatMap (s.visits room))⟩ := by
  rw [written, hroom, writes, visits, h]
  rfl

/-- Fewer levels are as good where objects nest no deeper. -/
theorem writes_of_deep {hosts : List HostType} {n room : Nat} {q : WriteRequest ω}
    (havoids : s.Avoids hosts n q) (hroom : n ≤ room) :
    s.writes room q = s.writes n q ∧ s.visits room q = s.visits n q := by
  have hsame : ∀ q : WriteRequest ω, LiveObject.hostType q.object ∉ hosts →
      Like (· = ·) (s.writerOf q) (s.writerOf q) := by
    intro q _
    cases s.writerOf q with
    | ok c => exact .ok rfl
    | error e => exact .error e
  obtain ⟨hwrites, hvisits⟩ := writes_of_avoids (fun h => by rw [h]) hsame havoids hroom
  rw [List.forall₂_eq_eq_eq] at hvisits
  exact ⟨hwrites, hvisits.symm⟩

/-- The root of a payload that the setting's own shape wrote is read by the default codec. -/
theorem chooses_root (nested : List (Codec ω)) (hevolution : s.config.evolution = true)
    (hcustom : s.customs.codec? live.typeName = none)
    (hbuild : s.buildLive live.typeName = .ok live) :
    s.chooses (schemaOf (.object live) nested) (live.composite.descriptor.toValue : Value ω) =
      .ok (.object live) := by
  have hfind : (schemaOf (.object live) nested).findByDescriptor?
      (live.composite.descriptor.toValue : Value ω) = some (.composite live.composite) :=
    find_root (.object live) nested
  have hbuild' : s.buildLive live.composite.name = .ok live := hbuild
  rw [chooses_composite hevolution hfind hcustom, hbuild']
  show (if (live.composite.descriptor.admits (live.composite.descriptor.toValue : Value ω) &&
    decide (live.composite.fields = live.composite.fields)) = true then _ else _) = _
  rw [Descriptor.admits_toValue, decide_eq_true rfl]
  rfl

/-- The root of a payload that a shape with other fields wrote is read by the codec for this one. -/
theorem chooses_other {x : EvolutionCodec ω} (c : ObjectCodec ω) (nested : List (Codec ω))
    (hevolution : s.config.evolution = true) (hcustom : s.customs.codec? c.typeName = none)
    (hbuild : s.buildLive c.typeName = .ok live)
    (hother : c.composite.fields ≠ live.composite.fields)
    (hmake : EvolutionCodec.make c.composite live s.registry = .ok x) :
    s.chooses (schemaOf (.object c) nested) (c.composite.descriptor.toValue : Value ω) =
      .ok (.evolution x) := by
  have hfind : (schemaOf (.object c) nested).findByDescriptor?
      (c.composite.descriptor.toValue : Value ω) = some (.composite c.composite) :=
    find_root (.object c) nested
  have hbuild' : s.buildLive c.composite.name = .ok live := hbuild
  rw [chooses_composite hevolution hfind hcustom, hbuild']
  show (if (_ && decide (c.composite.fields = live.composite.fields)) = true then _ else _) = _
  rw [decide_eq_false hother, Bool.and_false, hmake]
  rfl

/-- The root of a payload that another shape of its type wrote is read by the names of the
fields. -/
theorem reads_root (c : ObjectCodec ω) (nested : List (Codec ω)) (ws : List (Value ω))
    (hevolution : s.config.evolution = true) (hcustom : s.customs.codec? c.typeName = none)
    (hbuild : s.buildLive c.typeName = .ok live)
    (hreparses : c.composite.fields = live.composite.fields → live.Reparses)
    (hlength : ws.length = c.composite.fields.length) {x : EvolutionCodec ω}
    (hmake : EvolutionCodec.make c.composite live s.registry = .ok x) (room : Nat) :
    s.reads (schemaOf (.object c) nested) (room + 1) (c.composite.descriptor.describe (.list ws)) =
      (x.constructor.readNamed (schemaOf (.object c) nested) (c.composite.fields.zip ws)).eval
        (s.reads (schemaOf (.object c) nested) room) := by
  have hfind : (schemaOf (.object c) nested).findByDescriptor?
      (c.composite.descriptor.toValue : Value ω) = some (.composite c.composite) :=
    find_root (.object c) nested
  have hreparses' : ∀ {live₁}, s.buildLive c.composite.name = .ok live₁ →
      c.composite.fields = live₁.composite.fields → live₁.Reparses := by
    intro live₁ hlive₁
    cases hbuild.symm.trans hlive₁
    exact hreparses
  have hold : s.makeOld c.composite = .ok x := by
    rw [makeOld, show s.buildLive c.composite.name = .ok live from hbuild]
    exact hmake
  rw [Descriptor.describe, reads_fields hevolution hfind hcustom hreparses' hlength, hold]
  rfl

/-! ### Up and down -/

/-- The codecs of the objects inside an object, where these nest at most `n` deep. -/
def nested (s : Setting ω) (n : Nat) (object : ω) : List (Codec ω) :=
  (s.inside n ⟨object, none⟩).flatMap (s.visits n)

/-- The schema of an object that a default codec writes, where the objects inside it nest at most
`n` deep. -/
def schemaFor (s : Setting ω) (live : ObjectCodec ω) (n : Nat) (object : ω) : Schema :=
  schemaOf (.object live) (s.nested n object)

/-- An object of the type that can be carried from one setting to the other, as the envelope `e`. -/
structure Portable (s s' : Setting ω) (t t' : HostType) (live live' : ObjectCodec ω) (n : Nat)
    (object : ω) (e : Envelope ω) : Prop where
  host : LiveObject.hostType object = t
  written : s.written object = .ok e
  /-- No object inside it is of either host type, and they nest at most `n` deep. -/
  avoids : ∀ q ∈ s.inside n ⟨object, none⟩, s.Avoids [t, t'] n q
  /-- The types inside it are told apart. -/
  apart : ∀ c ∈ s.nested n object, ∀ c' ∈ s.nested n object, c.ToldApart c'
  /-- No value inside it has a tag of either shape. -/
  tags : ∀ {tag inner}, e.body = .described tag inner →
    ∀ d body, (Value.described d body).PartOf inner →
      live.composite.descriptor.admits d = false ∧ live'.composite.descriptor.admits d = false
  objects : n < s.config.maxDepth
  objects' : n < s'.config.maxDepth
  nesting : e.toValue.nesting ≤ s.config.maxDepth
  nesting' : e.toValue.nesting ≤ s'.config.maxDepth

namespace Upgrades

variable (h : s.Upgrades s' name t t' live live' k k')

include h

omit [LiveObject ω] in
/-- The default codec has the name of the type. -/
theorem typeName_eq (hs : s.registry.Coherent) : live.typeName = name := by
  obtain ⟨shape, hshape, hbuild⟩ := buildLive_eq_ok h.build
  rw [ObjectCodec.typeName_of_build hbuild, hs.name_eq hshape]

/-- The first setting writes an object of the type by its default codec. -/
theorem writerOf_live {object : ω} (hhost : LiveObject.hostType object = t) :
    s.writerOf ⟨object, none⟩ = .ok (.object live) := by
  refine writerOf_root ?_
  rw [hhost, codecOf, h.uncustomHost t List.mem_cons_self, h.host]
  dsimp only
  rw [h.build]
  rfl

/-- The second setting writes an object of the type by its own default codec. -/
theorem writerOf_live' {object : ω} (hhost : LiveObject.hostType object = t') :
    s'.writerOf ⟨object, none⟩ = .ok (.object live') := by
  refine writerOf_root ?_
  rw [hhost, codecOf, h.customs.codecOf?,
    h.uncustomHost t' (List.mem_cons_of_mem t List.mem_cons_self), h.host']
  dsimp only
  rw [h.build']
  rfl

end Upgrades

namespace Portable

variable {n : Nat} {object : ω} {e : Envelope ω} {room room' : Nat}
  (hp : s.Portable s' t t' live live' n object e)
  (h : s.Upgrades s' name t t' live live' k k')

include hp h

/-- What is written of the object is a list of items, which do not depend on the limit. -/
theorem eq_of_written : ∃ ws, e = ⟨live.composite.descriptor.describe (.list ws),
        s.schemaFor live n object⟩ ∧
      (live.write live.typeName object).eval (s.writes n) =
        .ok (live.composite.descriptor.describe (.list ws)) := by
  have hwriter := h.writerOf_live hp.host
  have hlimit := hp.objects
  obtain ⟨room, hroom⟩ : ∃ room, s.config.maxDepth = room + 1 :=
    ⟨s.config.maxDepth - 1, by omega⟩
  -- The objects inside are written alike where only `n` levels are left.
  have hasked := inside_root hwriter n
  have hdeep : ∀ q ∈ (live.write live.typeName object).asks (s.writes n),
      s.writes room q = s.writes n q ∧ s.visits room q = s.visits n q := by
    intro q hq
    exact writes_of_deep (hp.avoids q (hasked ▸ hq)) (by omega)
  have hsame := eval_congr _ fun q hq => (hdeep q hq).1
  have hnested : (s.inside room ⟨object, none⟩).flatMap (s.visits room) = s.nested n object := by
    have hinside : s.inside room ⟨object, none⟩ = s.inside n ⟨object, none⟩ := by
      rw [hasked, inside_root hwriter room]
      exact hsame.2
    rw [hinside, nested]
    exact List.flatMap_congr fun q hq => (hdeep q (hasked ▸ hq)).2
  have hwritten := written_root hwriter hroom
  rw [hp.written, hnested] at hwritten
  obtain ⟨body, hbody, hwritten⟩ := except_bind_eq_ok.1 hwritten.symm
  cases hwritten
  obtain ⟨ws, hws, rfl⟩ := ObjectCodec.eval_write_eq_ok.1 (hsame.1.symm.trans hbody)
  exact ⟨ws, rfl, ObjectCodec.eval_write_eq_ok.2 ⟨ws, hws, rfl⟩⟩

variable (hs : s.Coherent)

include hs

/-- The objects inside are written by the other setting as by the first one. -/
theorem writes_inside (hroom' : n ≤ room') {q : WriteRequest ω}
    (hq : q ∈ s.inside n ⟨object, none⟩) : s'.writes room' q = s.writes n q ∧
      List.Forall₂ Codec.Retells (s.visits n q) (s'.visits room' q) :=
  writes_of_avoids Codec.Retells.write_eq (fun _ hhost => h.like_writerOf hs.registry hhost)
    (hp.avoids q hq) hroom'

/-- Objects inside are of other types, as none of them is of either host type. -/
theorem name_ne_of_nested : ∀ c ∈ s.nested n object, c.type.name ≠ name := by
  intro c hc
  obtain ⟨q, hq, hc⟩ := List.mem_flatMap.1 hc
  exact h.name_ne_of_visits hs (hp.avoids q hq) c hc

end Portable

variable {n : Nat} {object object' : ω} {ws : List (Value ω)} {room room' : Nat}

/-- What the first setting writes of the object tells its properties, if it reads it back. -/
theorem Upgrades.carries_of_reads (h : s.Upgrades s' name t t' live live' k k') (hs : s.Coherent)
    (hfaithful : live.Faithful k)
    (hwrite : (live.write live.typeName object).eval (s.writes n) =
      .ok (live.composite.descriptor.describe (.list ws)))
    (hread : s.reads (s.schemaFor live n object) (room + 1)
      (live.composite.descriptor.describe (.list ws)) = .ok object) :
    live.Rebuilds object ∧ live.Carries (s.writes n) (s.schemaFor live n object)
      (s.reads (s.schemaFor live n object) room) object (live.composite.fields.zip ws) := by
  obtain ⟨shape, hshape, hbuild⟩ := buildLive_eq_ok h.build
  have hlive : live.typeName = name := h.typeName_eq hs.registry
  -- The root is read by the codec that wrote it, so that the values are those it wrote.
  have hchosen : s.chooses (s.schemaFor live n object)
      (live.composite.descriptor.toValue : Value ω) = .ok (.object live) :=
    chooses_root _ h.evolution (hlive ▸ h.uncustom) (hlive ▸ h.build)
  have hlist : (live.read (s.schemaFor live n object) (.list ws)).eval
      (s.reads (s.schemaFor live n object) room) = .ok object := by
    rw [Descriptor.describe] at hread
    obtain ⟨codec, hcodec, hread⟩ := except_bind_eq_ok.1 hread
    cases hchosen.symm.trans hcodec
    exact hread
  obtain ⟨ws', hws, heq⟩ := ObjectCodec.eval_write_eq_ok.1 hwrite
  cases heq
  exact ObjectCodec.carries_of_read hbuild h.widens.constructor hfaithful hws hlist

namespace Portable

variable (hp : s.Portable s' t t' live live' n object
    ⟨live.composite.descriptor.describe (.list ws), s.schemaFor live n object⟩)
  (h : s.Upgrades s' name t t' live live' k k') (hs : s.Coherent)
  (hcustoms : ∀ b ∈ s.customs.codecs.values, ReadsParts b.read)
  (hroom : s.config.maxDepth = room + 1) (hroom' : s'.config.maxDepth = room' + 1)
  (hcarries : live.Carries (s.writes n) (s.schemaFor live n object)
    (s.reads (s.schemaFor live n object) room) object (live.composite.fields.zip ws))

include hp

/-- The items nest less deep than the payload. -/
theorem nesting_items : (Value.list ws).nesting < s.config.maxDepth ∧
    (Value.list ws).nesting < s'.config.maxDepth := by
  have hbody : (live.composite.descriptor.describe (.list ws)).PartOf
      (Envelope.toValue ⟨live.composite.descriptor.describe (.list ws),
        s.schemaFor live n object⟩) := .body (.item List.mem_cons_self .refl)
  have hdeeper := hbody.nesting_le
  have hlimit := hp.nesting
  have hlimit' := hp.nesting'
  rw [Descriptor.describe, Value.nesting] at hdeeper
  rw [Descriptor.describe] at hlimit hlimit'
  omega

include h hs

/-- The schemas of the object in both settings tell the same of the items. -/
theorem agreesOff_item {nested' : List (Codec ω)}
    (hnested : Codec.RetellsAll (s.nested n object) nested') {root : ObjectCodec ω}
    (hroot : root = live ∨ root = live') {w : Value ω} (hw : w = .null ∨ w.PartOf (.list ws)) :
    (s.schemaFor live n object).AgreesOff (schemaOf (.object root) nested') name w := by
  have hlive : live.composite.name = name := h.typeName_eq hs.registry
  have hlive' : live'.composite.name = live.composite.name := h.widens.typeName
  have hname : (Codec.object root).type.name = (Codec.object live).type.name := by
    obtain rfl | rfl := hroot
    · rfl
    · exact hlive'
  have hnames : ∀ c ∈ s.nested n object, c.type.name ≠ (Codec.object live).type.name := by
    intro c hc
    rw [show (Codec.object live).type.name = name from hlive]
    exact hp.name_ne_of_nested h hs c hc
  -- Null has no tags; the tags of an item are none of the two that differ.
  obtain rfl | hw := hw
  · intro d body hpart
    cases hpart
  · have hagrees := agreesOff_schemaOf hnested hp.apart hnames hname (v := w) fun d body hpart => by
      obtain ⟨htag, htag'⟩ := hp.tags rfl d body (hpart.trans hw)
      refine ⟨htag, ?_⟩
      obtain rfl | rfl := hroot
      · exact htag
      · exact htag'
    rwa [show (Codec.object live).type.name = name from hlive] at hagrees

include hcustoms hroom hcarries

/-- The other setting gives the properties of the object, and null where there is none, to the
wider constructor. -/
theorem reads_wide (hroom' : s'.config.maxDepth = room' + 1)
    (hlength : ws.length = live.composite.fields.length) :
    ∃ args, List.Forall₂ (live.Passes object) live'.properties args ∧
      s'.reads (s.schemaFor live n object) (room' + 1)
        (live.composite.descriptor.describe (.list ws)) = k'.build args := by
  obtain ⟨shape, -, hbuild⟩ := buildLive_eq_ok h.build
  obtain ⟨shape', -, hbuild'⟩ := buildLive_eq_ok h.build'
  obtain ⟨x, hmake, hx⟩ := h.widens.make_wide hbuild hbuild' h.agreesOff.isAssignable
  have hlive : live.typeName = name := h.typeName_eq hs.registry
  -- Parts of the items are read by both settings alike.
  have hreads : ∀ w ∈ ws, ∀ u : Value ω, u.PartOf w →
      s'.reads (s.schemaFor live n object) room' u =
        s.reads (s.schemaFor live n object) room u := by
    intro w hw u hu
    have hpart : u.PartOf (.list ws) := hu.trans (.item hw .refl)
    have hagrees := hp.agreesOff_item h hs (.refl _) (.inl rfl) (.inr hpart)
    have hnesting := hpart.nesting_le
    have hlimit := hp.nesting_items
    exact h.agreesOff.reads hcustoms hagrees (by omega) (by omega)
  obtain ⟨args, hpasses, hargs⟩ := h.widens.read_wide hbuild hbuild' hcarries hreads
  refine ⟨args, hpasses, ?_⟩
  -- The wider codec itself is chosen where nothing was added and the order is the same.
  have hreparses : live.composite.fields = live'.composite.fields → live'.Reparses := by
    intro hsame p' hp'
    have hfield : p'.field ∈ live.composite.fields := by
      rw [hsame, ObjectCodec.fields_of_build hbuild']
      exact List.mem_map.2 ⟨p', hp', rfl⟩
    rw [ObjectCodec.fields_of_build hbuild] at hfield
    obtain ⟨p, hp, hpfield⟩ := List.mem_map.1 hfield
    have hname : p'.name = p.name := (congrArg Field.name hpfield).symm
    rw [(h.widens.properties p hp p' hp' hname).1]
    exact h.widens.reparses p hp
  have hread : s'.reads (s.schemaFor live n object) (room' + 1)
      (live.composite.descriptor.describe (.list ws)) =
        (x.constructor.readNamed (s.schemaFor live n object)
          (live.composite.fields.zip ws)).eval (s'.reads (s.schemaFor live n object) room') := by
    refine reads_root _ _ _ h.evolution' ?_ ?_ hreparses hlength hmake room'
    · rw [h.customs.codec?, hlive]
      exact h.uncustom
    · rw [hlive]
      exact h.build'
  rw [hx] at hread
  exact hread.trans hargs

omit hcustoms hroom in
/-- Of an object with these properties the other setting writes what the first one wrote, and null,
and its schema tells the same types inside it. -/
theorem written_wide (hroom' : s'.config.maxDepth = room' + 1)
    (hhost : LiveObject.hostType object' = t')
    (hwrite : (live.write live.typeName object).eval (s.writes n) =
      .ok (live.composite.descriptor.describe (.list ws)))
    (hvalues : ∀ p' ∈ live'.properties, ∃ v, live.Passes object p' v ∧ p'.Holds object' v) :
    ∃ ws' nested', s'.written object' = .ok ⟨live'.composite.descriptor.describe (.list ws'),
        schemaOf (.object live') nested'⟩ ∧
      Codec.RetellsAll (s.nested n object) nested' ∧
      live.Carries (s.writes n) (s.schemaFor live n object)
        (s.reads (s.schemaFor live n object) room) object (live'.composite.fields.zip ws') ∧
      ws'.length = live'.composite.fields.length ∧ ∀ w ∈ ws', w = .null ∨ w ∈ ws := by
  obtain ⟨shape, -, hbuild⟩ := buildLive_eq_ok h.build
  obtain ⟨shape', -, hbuild'⟩ := buildLive_eq_ok h.build'
  have hwriter := h.writerOf_live hp.host
  have hwriter' := h.writerOf_live' hhost
  -- The objects inside avoid both host types, so that the second setting writes them as the first.
  have hlevels : n ≤ room' := by
    have hlimit := hp.objects'
    omega
  have hasked : s.inside n ⟨object, none⟩ = (live.write live.typeName object).asks (s.writes n) :=
    inside_root hwriter n
  have hwrites : ∀ q ∈ (live.write live.typeName object).asks (s.writes n),
      s'.writes room' q = s.writes n q :=
    fun q hq => (hp.writes_inside h hs hlevels (hasked ▸ hq)).1
  obtain ⟨⟨ws', hwrite', hcarries', hitems⟩, hasks⟩ :=
    h.widens.write_wide hbuild hbuild' hwrite hcarries hwrites hvalues
  -- What is added to the wider shape asks for nothing, so that the same objects are met.
  have hasked' : ∀ q, q ∈ s'.inside room' ⟨object', none⟩ ↔ q ∈ s.inside n ⟨object, none⟩ := by
    intro q
    rw [hasked, inside_root hwriter' room']
    exact hasks q
  refine ⟨ws', (s'.inside room' ⟨object', none⟩).flatMap (s'.visits room'), ?_, ?_, hcarries', ?_,
    fun w hw => ?_⟩
  · rw [written_root hwriter' hroom']
    show (live'.write live'.typeName object').eval (s'.writes room') >>= _ = _
    rw [hwrite']
    rfl
  · exact .flatMap hasked' fun q hq => (hp.writes_inside h hs hlevels hq).2
  · obtain ⟨_, hws', heq⟩ := ObjectCodec.eval_write_eq_ok.1 hwrite'
    cases heq
    rw [ObjectCodec.fields_of_build hbuild', List.length_map, hws'.length_eq]
  · exact (hitems w hw).imp_right fun ⟨x, hx, hxw⟩ => hxw ▸ (List.of_mem_zip hx).2

omit hcarries in
/-- The first setting reads the object back from items that tell its properties. -/
theorem reads_narrow {ws' : List (Value ω)} {nested' : List (Codec ω)}
    (hnested : Codec.RetellsAll (s.nested n object) nested') (hrebuilds : live.Rebuilds object)
    (hcarries : live.Carries (s.writes n) (s.schemaFor live n object)
      (s.reads (s.schemaFor live n object) room) object (live'.composite.fields.zip ws'))
    (hlength : ws'.length = live'.composite.fields.length)
    (hitems : ∀ w ∈ ws', w = .null ∨ w ∈ ws) :
    s.reads (schemaOf (.object live') nested') (room + 1)
      (live'.composite.descriptor.describe (.list ws')) = .ok object := by
  obtain ⟨shape, -, hbuild⟩ := buildLive_eq_ok h.build
  obtain ⟨shape', -, hbuild'⟩ := buildLive_eq_ok h.build'
  obtain ⟨x, hmake, hx⟩ := h.widens.make_narrow hbuild hbuild' h.agreesOff.isAssignable
  have hlive' : live'.typeName = name := h.widens.typeName.trans (h.typeName_eq hs.registry)
  -- The items are read with the other schema as with that of the object.
  have hpairs : ∀ y ∈ live'.composite.fields.zip ws',
      (s.schemaFor live n object).ListsAlike (schemaOf (.object live') nested') y.2 ∧
        ∀ u : Value ω, u.PartOf y.2 → s.reads (schemaOf (.object live') nested') room u =
          s.reads (s.schemaFor live n object) room u := by
    intro y hy
    have hitem : y.2 = .null ∨ y.2.PartOf (.list ws) :=
      (hitems _ (List.of_mem_zip hy).2).imp_right fun hw => .item hw .refl
    have hagrees := hp.agreesOff_item h hs hnested (.inr rfl) hitem
    refine ⟨hagrees.listsAlike, fun u hu => ?_⟩
    have hnesting : u.nesting ≤ room := by
      have hinner := hp.nesting_items.1
      have hdeep := hu.nesting_le
      obtain hnull | hpart := hitem
      · have hzero : (Value.null : Value ω).nesting = 0 := rfl
        rw [hnull, hzero] at hdeep
        omega
      · have hwhole := hpart.nesting_le
        omega
    exact (AgreesOff.refl s name).reads hcustoms (hagrees.part hu) hnesting hnesting
  have hread : s.reads (schemaOf (.object live') nested') (room + 1)
      (live'.composite.descriptor.describe (.list ws')) =
        (x.constructor.readNamed (schemaOf (.object live') nested')
          (live'.composite.fields.zip ws')).eval
            (s.reads (schemaOf (.object live') nested') room) := by
    refine reads_root _ _ _ h.evolution ?_ ?_ (fun _ => h.widens.reparses) hlength hmake room
    · rw [hlive']
      exact h.uncustom
    · rw [hlive']
      exact h.build
  rw [hx] at hread
  exact hread.trans (hcarries.readNamed_eq_ok h.widens.reparses hpairs hbuild h.widens.constructor
    hrebuilds)

end Portable

end Setting

end SelfDescribing
