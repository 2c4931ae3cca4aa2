import SelfDescribing.Entity.Record
import SelfDescribing.Proofs.Codec.Scanning
import SelfDescribing.Proofs.Envelope.Reading
import SelfDescribing.Proofs.Factory.WritingAnew

namespace SelfDescribing

open Steps

/-!
# Factories that scan their custom codecs in other orders

Two factories with the same registry, custom codecs and configuration may still scan their custom
codecs in different orders.  Writing scans them nowhere.  Reading scans them for a descriptor that
the schema does not list, so that the order shows where two codecs share a descriptor, and nowhere
else.

* `Setting.Rescans` — settings that hold the same, in whatever orders they scan it.
* `Setting.Rescans.written`, `Setting.Rescans.nameOfHost` — what does not scan is the same in both.
* `Setting.Rescans.reads`, `Setting.Rescans.readWithin` — reading is the same in both, if no
  descriptor belongs to two codecs.
* `Twins.decode_held` — where one does, the order decides which object is read.
-/

variable {ω : Type}

namespace Setting

/-- Two settings hold the same registry, configuration and custom codecs. -/
structure Rescans (s s' : Setting ω) : Prop where
  registry : s'.registry = s.registry
  config : s'.config = s.config
  customs : s.customs.Same s'.customs

namespace Rescans

variable {s s' : Setting ω} (h : s.Rescans s')

include h

/-! ### What does not scan -/

/-- The default codecs are built from the registry alone. -/
theorem buildLive : s'.buildLive = s.buildLive := by
  funext name
  rw [Setting.buildLive, Setting.buildLive, h.registry]

/-- The codec of an older shape is made from the registry. -/
theorem makeOld : s'.makeOld = s.makeOld := by
  funext old
  rw [Setting.makeOld, Setting.makeOld, h.buildLive, h.registry]

/-- The default codec of a name is built from the registry. -/
theorem liveCodec : s'.liveCodec = s.liveCodec := by
  funext name
  unfold Setting.liveCodec
  rw [h.registry]

/-- The codec of an older shape that is kept is made from the registry. -/
theorem evolutionCodec : s'.evolutionCodec = s.evolutionCodec := by
  funext old
  unfold Setting.evolutionCodec
  rw [h.liveCodec, h.registry]

/-- A host type has one name in both. -/
theorem nameOfHost : s'.nameOfHost = s.nameOfHost := by
  funext t
  rw [Setting.nameOfHost, Setting.nameOfHost, h.customs.codecOf?, h.registry]

/-- Custom codecs are found by host type in a table, without a scan. -/
theorem codecOf : s'.codecOf = s.codecOf := by
  funext t
  rw [Setting.codecOf, Setting.codecOf, h.customs.codecOf?, h.registry, h.buildLive]

variable [LiveObject ω]

/-- Writers are found by host type or by name, without a scan. -/
theorem writerOf : s'.writerOf = s.writerOf := by
  funext q
  rw [Setting.writerOf, Setting.writerOf, h.codecOf, h.registry]

/-- By induction on the room: written values do not show the scan order. -/
theorem writes (room : Nat) : s'.writes room = s.writes room := by
  induction room with
  | zero =>
    funext q
    rw [Setting.writes, Setting.writes, h.writerOf, h.config]
  | succ room ih =>
    funext q
    rw [Setting.writes, Setting.writes, h.writerOf, ih]

/-- By induction on the room: the codecs met while writing do not show the scan order. -/
theorem visits (room : Nat) : s'.visits room = s.visits room := by
  induction room with
  | zero => rfl
  | succ room ih =>
    have hinside : s'.inside room = s.inside room := by
      funext q
      rw [Setting.inside, Setting.inside, h.writerOf, h.writes]
    funext q
    rw [Setting.visits, Setting.visits, h.writerOf, hinside, ih]

/-- Objects are written alike. -/
theorem written : s'.written = s.written := by
  funext object
  rw [Setting.written, Setting.written, h.config, h.writes, h.visits]

/-! ### What scans -/

variable (hapart : s.customs.Apart)

include hapart

/-- With all codecs built anew, one codec is chosen for a descriptor in both. -/
theorem chooses (schema : Schema) : s'.chooses schema = s.chooses schema := by
  have hscan : s'.customs.codecFor? = s.customs.codecFor? :=
    funext (h.customs.answersAs hapart).codecFor?
  have hcodec : s'.customs.codec? = s.customs.codec? := funext h.customs.codec?
  funext descriptor
  rw [Setting.chooses, Setting.chooses, hscan, hcodec, h.buildLive, h.config, h.makeOld]

/-- With all codecs built anew, values are read alike. -/
theorem reads (schema : Schema) (room : Nat) : s'.reads schema room = s.reads schema room := by
  induction room with
  | zero =>
    funext v
    cases v with
    | described descriptor body => rw [Setting.reads, Setting.reads, h.config]
    | _ => rfl
  | succ room ih =>
    funext v
    cases v with
    | described descriptor body =>
      rw [Setting.reads, Setting.reads, h.chooses hapart, ih]
    | _ => rfl

/-- The one scan in reading is for a descriptor that the schema does not list. -/
theorem readerFor (schema : Schema) : s'.readerFor schema = s.readerFor schema := by
  have hscan : s'.customs.codecFor? = s.customs.codecFor? :=
    funext (h.customs.answersAs hapart).codecFor?
  have hcodec : s'.customs.codec? = s.customs.codec? := funext h.customs.codec?
  funext descriptor
  unfold Setting.readerFor
  rw [hscan, hcodec, h.liveCodec, h.config, h.evolutionCodec]

/-- Values are read alike, whatever codecs are kept. -/
theorem readWithin (schema : Schema) (room : Nat) :
    s'.readWithin schema room = s.readWithin schema room := by
  induction room with
  | zero =>
    funext v
    cases v with
    | described descriptor body => rw [Setting.readWithin, Setting.readWithin, h.config]
    | _ => rfl
  | succ room ih =>
    funext v
    cases v with
    | described descriptor body =>
      rw [Setting.readWithin, Setting.readWithin, h.readerFor hapart, ih]
    | _ => rfl

end Rescans

end Setting

/-- New factories decode alike and build the same codecs, if no descriptor belongs to two custom
codecs. -/
theorem Factory.decode_rescans [LiveObject ω] {s s' : Setting ω} (h : s.Rescans s')
    (hapart : s.customs.Apart) (t : HostType) (bytes : List UInt8) :
    outcome (decode t bytes ⟨s', .empty⟩) = outcome (decode t bytes ⟨s, .empty⟩) ∧
      (final (decode t bytes ⟨s', .empty⟩)).caches =
        (final (decode t bytes ⟨s, .empty⟩)).caches := by
  have hopen : openPayload t bytes ⟨s', .empty⟩ = openPayload t bytes ⟨s, .empty⟩ := by
    rw [openPayload, openPayload, h.nameOfHost, h.config]
  rw [outcome_decode_eq, outcome_decode_eq, caches_decode, caches_decode, hopen, h.config]
  simp only [h.readWithin hapart, and_self]

/-! ### Two codecs with one descriptor -/

namespace Twins

/-- The codec of a type without fields for the records of a slot, whose text is their body. -/
def codec (slot : Nat) (name : String) (descriptor : Descriptor) : BoundCodec Entity :=
  ⟨RecordCodec.toCodec ⟨slot, name, ["text"], true, name, .composite [], some descriptor⟩,
    .composite ⟨name, none, [], descriptor, []⟩⟩

/-- The codec of holders, whose body is an object. -/
def holder : BoundCodec Entity :=
  { codec 0 "Holder" ⟨"holder", none⟩ with
    codec := { (codec 0 "Holder" ⟨"holder", none⟩).codec with
      read := fun _ body => do return .record 0 [("held", .live (← readObject body))] } }

/-- The codecs of holders and of two types that share a descriptor. -/
def codecs (order : ScanOrder) : CustomCodecs Entity :=
  [holder, codec 1 "Left" ⟨"twin", none⟩, codec 2 "Right" ⟨"twin", none⟩].foldl
    CustomCodecs.register (.empty order)

/-- These codecs and nothing else, with and without evolution. -/
def setting (order : ScanOrder) (evolution : Bool) : Setting Entity :=
  ⟨.empty, codecs order, { Config.default with evolution := evolution }⟩

/-- A holder of a twin. -/
def held (slot : Nat) : Entity :=
  .record 0 [("held", .live (.record slot [("text", .string "hi")]))]

/-- The envelope of a holder; it does not list what is held. -/
def envelope : Envelope Entity :=
  ⟨.described (.symbol "holder") (.described (.symbol "twin") (.string "hi")), ⟨[holder.type]⟩⟩

/-- The payload of a holder. -/
def payload : List UInt8 := header ++ envelope.toValue.encode.bytes

/-- The two settings differ in nothing but the order. -/
theorem rescans (evolution : Bool) :
    (setting .inserted evolution).Rescans (setting .reversed evolution) :=
  ⟨rfl, rfl, fun _ => rfl, fun _ => rfl⟩

/-- The payload parses to its envelope. -/
theorem parse_held : Envelope.parse payload 64 = .ok envelope := by
  have hlimits : envelope.toValue.encode.failure.isNone = true ∧ envelope.toValue.nesting ≤ 64 := by
    decide +kernel
  refine Envelope.parse_toBytes (Envelope.toBytes_eq_ok_iff.2
    ⟨Option.isNone_iff_eq_none.1 hlimits.1, rfl⟩) ?_ hlimits.2
  exact List.forall_mem_singleton.2 List.nodup_nil

/-- The payload is opened in either order, since nothing is scanned for that. -/
theorem openPayload_held (order : ScanOrder) (evolution : Bool) :
    Factory.openPayload (Entity.slotType 0) payload ⟨setting order evolution, .empty⟩ =
      .ok envelope := by
  have hparse : Envelope.parse payload
      (Factory.mk (setting order evolution) .empty).config.maxDepth = .ok envelope := parse_held
  rw [Factory.openPayload_of_parse hparse]
  rfl

/-- The held object is read by the codec that is scanned first. -/
theorem decode_held (evolution : Bool) :
    outcome (Factory.decode (Entity.slotType 0) payload ⟨setting .inserted evolution, .empty⟩) =
      .ok (held 1) ∧
    outcome (Factory.decode (Entity.slotType 0) payload ⟨setting .reversed evolution, .empty⟩) =
      .ok (held 2) := by
  rw [Factory.outcome_decode_of_open (openPayload_held .inserted evolution),
    Factory.outcome_decode_of_open (openPayload_held .reversed evolution)]
  exact ⟨rfl, rfl⟩

end Twins

end SelfDescribing
