import SelfDescribing.Proofs.Factory.RoundTrip
import SelfDescribing.Proofs.Ledger.Prepared

namespace SelfDescribing

open Steps

/-!
# Transactions come back from their payloads

* `WireTransaction.Covers` — the ledger objects that come back by themselves.
* `Factory.ReadsInside` — a value inside a payload stands for an object.
* `Factory.decode_encode_transaction` — a transaction that was encoded with the ledger types comes
  back, and its payload has the parts in their places.

The general round trip of `Proofs/Factory/RoundTrip` asks that each object reached be restored by
its codec.  For the ledger this is known once and for all, so that nothing is left to be assumed but
what a payload needs in any case.
-/

/-- The objects that come back with a transaction: those of the ledger types, but of the outputs and
commands only its own. -/
def WireTransaction.Covers (tx : WireTransaction (Value Entity)) : Entity → Prop
  | .transactionState s => s ∈ tx.outputs
  | .command c => c ∈ tx.commands
  | .stateRef _ | .party _ | .timeWindow _ | .transaction _ | .secureHash _ | .privacySalt _ => True
  | .record .. | .opaqueBytes _ | .number _ | .text _ => False

/-- Data that an output or a command may hold: values without described ones among them, and not
null. -/
def Value.Holdable (v : Value Entity) : Prop := v.isPlain = true ∧ v ≠ .null

/-- A bound codec carries the notation that the codec describes. -/
theorem describe_of_bind {k : CustomCodec Entity} {r : Registry Entity} {b : BoundCodec Entity}
    (hb : BoundCodec.bind k r = .ok b) : k.describe r = .ok b.type := by
  obtain ⟨type, htype, hb⟩ := except_bind_eq_ok.1 hb
  split at hb
  · cases hb
  · cases hb
    exact htype

/-- What the hand-written codecs tell of their types lists distinct fields. -/
theorem distinct_of_bind {k : CustomCodec Entity} {r : Registry Entity} {b : BoundCodec Entity}
    (hk : k ∈ ledgerHandlers) (hb : BoundCodec.bind k r = .ok b) : b.type.Distinct := by
  have hdescribe := describe_of_bind hb
  simp only [ledgerHandlers, List.mem_cons, List.not_mem_nil, or_false] at hk
  obtain rfl | rfl | rfl := hk
  · rw [← Except.ok.inj hdescribe]
    trivial
  · rw [← Except.ok.inj hdescribe]
    trivial
  · rw [← Except.ok.inj hdescribe]
    show (WireTransaction.fields.map (·.name)).Nodup
    decide

namespace Factory

variable {f f' g : Factory Entity} {tx : WireTransaction (Value Entity)}

/-- The codec for a covered object undoes its writing. -/
theorem undoes_of_covers (h : f.Knows ledgerShapes ledgerHandlers) (hf : f.LedgerIntact)
    (hcoherent : f.Coherent) (houtputs : ∀ s ∈ tx.outputs, s.data.Holdable)
    (hcommands : ∀ c ∈ tx.commands, c.value.Holdable) {object : Entity} (hobject : tx.Covers object)
    {codec : Codec Entity} (hname : f.nameOfHost (LiveObject.hostType object) = .ok codec.typeName)
    (hholds : f.toSetting.Holds f.caches codec) : codec.Undoes object := by
  -- The codec for the object's host type is the one of its ledger type.
  have hshape : ∀ {s : TypeShape Entity}, s ∈ ledgerShapes →
      s.hostType? = some (LiveObject.hostType object) →
      ∃ c r, codec = .object c ∧ ObjectCodec.build s r = .ok c :=
    fun hs ht => codec_of_shape h hf hs ht hname hholds
  have hhandler : ∀ {k : CustomCodec Entity}, k ∈ ledgerHandlers →
      k.hostType = LiveObject.hostType object → ∃ type, codec = .custom ⟨k, type⟩ :=
    fun hk ht => codec_of_handler h hcoherent hk (ht ▸ hname) hholds
  cases object with
  | stateRef s =>
    obtain ⟨c, r, rfl, hbuild⟩ := hshape (s := StateRef.shape) (by simp [ledgerShapes]) rfl
    exact StateRef.undoes hbuild s
  | party p =>
    obtain ⟨c, r, rfl, hbuild⟩ := hshape (s := Party.shape) (by simp [ledgerShapes]) rfl
    exact Party.undoes hbuild p
  | timeWindow w =>
    obtain ⟨c, r, rfl, hbuild⟩ := hshape (s := TimeWindow.shape) (by simp [ledgerShapes]) rfl
    exact TimeWindow.undoes hbuild w
  | transactionState s =>
    obtain ⟨c, r, rfl, hbuild⟩ :=
      hshape (s := TransactionState.shape) (by simp [ledgerShapes]) rfl
    obtain ⟨hplain, hnull⟩ := houtputs s hobject
    exact TransactionState.undoes hbuild hplain hnull
  | command k =>
    obtain ⟨c, r, rfl, hbuild⟩ := hshape (s := Command.shape) (by simp [ledgerShapes]) rfl
    obtain ⟨hplain, hnull⟩ := hcommands k hobject
    exact Command.undoes hbuild hplain hnull
  | transaction tx' =>
    obtain ⟨type, rfl⟩ := hhandler (k := WireTransaction.codec) (by simp [ledgerHandlers]) rfl
    exact WireTransaction.undoes type tx'
  | secureHash hash =>
    obtain ⟨type, rfl⟩ :=
      hhandler (k := BytesType.secureHash.codec) (by simp [ledgerHandlers]) rfl
    exact BytesType.undoes (t := .secureHash) (fun _ => rfl) (fun _ => rfl) type hash
  | privacySalt salt =>
    obtain ⟨type, rfl⟩ :=
      hhandler (k := BytesType.privacySalt.codec) (by simp [ledgerHandlers]) rfl
    exact BytesType.undoes (t := .privacySalt) (fun _ => rfl) (fun _ => rfl) type salt
  | record | opaqueBytes | number | text => exact absurd hobject id

/-- A value that the schema lists stands for an object where one level of nesting is used up: it is
read as the object. -/
def ReadsInside (f : Factory Entity) (schema : Schema) (object : Entity) (v : Value Entity) :
    Prop :=
  schema.Lists v ∧ ∃ room, f.config.maxDepth = room + 1 ∧
    outcome (f.toSetting.readWithin schema room v f.caches) = .ok object

/-- A transaction that is encoded with the ledger types is decoded as the same transaction, also
after the factory went on, if the data of its outputs and the values of its commands are held by
live objects, lists and maps that come back themselves, the descriptors tell the reached types
apart, and the payload is not nested too deep.  The body in the payload is a list of seven items
with each part in its place, and null exactly for a missing notary or time window. -/
theorem decode_encode_transaction {bytes : List UInt8} (hf : f.Prepared)
    (hencode : encode (Entity.transactions.wrap tx) f = .ok bytes f') (hbetween : f'.Continues g)
    (houtputs : ∀ s ∈ tx.outputs, s.data.Holdable)
    (hcommands : ∀ c ∈ tx.commands, c.value.Holdable)
    (hundoes : ∀ x ∈ f.reached (Entity.transactions.wrap tx), ¬ tx.Covers x.1 → x.2.Undoes x.1)
    (hdescriptors : ∀ x ∈ f.reached (Entity.transactions.wrap tx),
      ∀ y ∈ f.reached (Entity.transactions.wrap tx),
        x.2.descriptor.admits (y.2.descriptor.toValue : Value Entity) = true →
          x.2.typeName = y.2.typeName)
    (hnesting : ∀ body schema f₁,
      writing (writeObject (Entity.transactions.wrap tx)) f = .ok (body, schema) f₁ →
      (⟨body, schema⟩ : Envelope Entity).toValue.nesting ≤ f.config.maxDepth) :
    (∃ g', decode Entity.transactions.hostType bytes g =
      .ok (Entity.transactions.wrap tx) g') ∧
    ∃ schema body, Envelope.parse bytes g.config.maxDepth =
        .ok ⟨(objectDescriptor WireTransaction.typeName WireTransaction.fields).describe body,
          schema⟩ ∧
      tx.LaidOut (g.ReadsInside schema) body := by
  obtain ⟨hspares, -⟩ := hf.knows
  have hcoherent := hspares.reachable.coherent
  have hintact := hspares.intact
  have hapart := hintact.setting.namesApart hcoherent.registry hcoherent.customs
  -- Encoding leaves a prepared factory, which still holds the codecs that were reached.
  have hperform : f.perform (.encode (Entity.transactions.wrap tx)) = f' :=
    congrArg final hencode
  have hprepared : f'.Prepared := hperform ▸ hf.perform _ trivial
  obtain ⟨hspares', hknows'⟩ := hprepared.knows
  obtain ⟨_, c, -, hwrite, rfl, -⟩ := encode_eq_ok hencode
  have hreached := reached_of_writeWithin hcoherent hapart hwrite
  have hundoes' : ∀ x ∈ f.reached (Entity.transactions.wrap tx), x.2.Undoes x.1 := by
    intro x hx
    by_cases hcovers : tx.Covers x.1
    · exact undoes_of_covers hknows' hspares'.intact hspares'.reachable.coherent houtputs hcommands
        hcovers (hreached.nameOfHost x hx) (hreached.holds x hx)
    · exact hundoes x hx hcovers
  have hfields : ∀ o b, (o, Codec.custom b) ∈ f.reached (Entity.transactions.wrap tx) →
      b.type.Distinct := by
    intro o b hx
    obtain ⟨hk, r, hb⟩ := hintact.setting.codecs (hreached.holds _ hx).1
    exact distinct_of_bind hk hb
  obtain ⟨codec, body, schema, room, written, hroot, hroom, hparse, hends, hrestores, hdecode⟩ :=
    restores_of_encode hcoherent hencode hbetween hundoes' hapart hdescriptors hfields hnesting
  -- The root's codec is the one of transactions, which asked for the parts.
  obtain ⟨type, rfl⟩ := codec_of_handler (k := WireTransaction.codec) hknows'
    hspares'.reachable.coherent (by simp [ledgerHandlers]) (hreached.nameOfHost _ hroot)
    (hreached.holds _ hroot)
  obtain ⟨-, r, hb⟩ := hintact.setting.codecs (hreached.holds _ hroot).1
  obtain rfl : TypeNotation.composite (WireTransaction.describe r) = type :=
    Except.ok.inj (describe_of_bind hb)
  obtain ⟨inner, hinner, hsame⟩ := Codec.ends_write_custom hends
  obtain ⟨-, rfl⟩ := Value.described.inj hsame
  refine ⟨hdecode, schema, body, hparse, ?_⟩
  refine (WireTransaction.laidOut_of_restores hrestores hinner).imp fun object v hv => ?_
  obtain ⟨hlists, hread⟩ := hrestores _ _ hv
  exact ⟨hlists, room, hroom, hread _ ⟨g.caches, refl g.caches, rfl⟩⟩

end Factory

/-! ### A transfer -/

namespace Transfers

/-- The registry of the ledger shapes. -/
def registry : Registry Entity :=
  ⟨⟨ledgerShapes.map fun s => (s.name, s)⟩,
    ⟨ledgerShapes.filterMap fun s => s.hostType?.map (·, s.name)⟩, []⟩

/-- What a hand-written codec for bytes tells of its type. -/
def bytesType {α : Type} (t : BytesType α) : RestrictedType :=
  ⟨t.typeName, none, [], "binary", objectDescriptor t.typeName []⟩

/-- What is told of transactions. -/
def transactionType : CompositeType :=
  ⟨WireTransaction.typeName, none, [],
    objectDescriptor WireTransaction.typeName WireTransaction.fields, WireTransaction.fields⟩

/-- The hand-written codecs with what they tell. -/
def handlers : List (BoundCodec Entity) :=
  [⟨BytesType.secureHash.codec, .restricted (bytesType .secureHash)⟩,
    ⟨BytesType.privacySalt.codec, .restricted (bytesType .privacySalt)⟩,
    ⟨WireTransaction.codec, .composite transactionType⟩]

/-- The default codec of a shape with one constructor. -/
def codecOf (s : TypeShape Entity) : ObjectCodec Entity :=
  ⟨s.hostType?, ⟨s.name, none, [], objectDescriptor s.name (s.properties.map Property.field),
    s.properties.map Property.field⟩, s.properties.map .ofProperty, s.constructors.head?⟩

/-- What codecs are found in once the ledger types were registered. -/
def setting : Setting Entity :=
  ⟨registry, ⟨⟨handlers.map fun b => (b.typeName, b)⟩,
    ⟨handlers.map fun b => (b.codec.hostType, b.typeName)⟩, .inserted⟩, .default⟩

/-- A factory that has built the codecs of time intervals and commands. -/
def factory : Factory Entity :=
  ⟨setting, ⟨⟨[(TimeWindow.typeName, codecOf TimeWindow.shape),
    (Command.typeName, codecOf Command.shape)]⟩, .empty⟩⟩

/-- A transaction with an attachment and a command, without a notary, in a time that ends. -/
def transfer : WireTransaction (Value Entity) :=
  ⟨[], [⟨[1]⟩], [], [⟨.list [.string "move"], [[7]]⟩], none, some ⟨none, some 5⟩, ⟨[9]⟩⟩

/-- The objects that are written, each with its codec. -/
def parts : List (Entity × Codec Entity) :=
  [(.transaction transfer, .custom ⟨WireTransaction.codec, .composite transactionType⟩),
    (.timeWindow ⟨none, some 5⟩, .object (codecOf TimeWindow.shape)),
    (.secureHash ⟨[1]⟩,
      .custom ⟨BytesType.secureHash.codec, .restricted (bytesType .secureHash)⟩),
    (.command ⟨.list [.string "move"], [[7]]⟩, .object (codecOf Command.shape)),
    (.privacySalt ⟨[9]⟩,
      .custom ⟨BytesType.privacySalt.codec, .restricted (bytesType .privacySalt)⟩)]

/-- The types met on the way through the transfer, found by running. -/
theorem reached_transfer : factory.reached (Entity.transactions.wrap transfer) = parts := rfl

/-- The body of the payload. -/
def body : Value Entity :=
  transactionType.descriptor.describe (.list [.list [],
    .list [(bytesType .secureHash).descriptor.describe (.binary [1])], .list [],
    .list [(codecOf Command.shape).composite.descriptor.describe
      (.list [.list [.string "move"], .list [.binary [7]]])],
    .null,
    (codecOf TimeWindow.shape).composite.descriptor.describe (.list [.null, .timestamp 5]),
    (bytesType .privacySalt).descriptor.describe (.binary [9])])

/-- The payload. -/
def envelope : Envelope Entity := ⟨body, ⟨parts.map (·.2.type)⟩⟩

/-- The body of the transfer and the schema noted while writing it. -/
theorem writing_transfer :
    Factory.writing (writeObject (Entity.transactions.wrap transfer)) factory =
      .ok (body, envelope.schema) factory := rfl

/-- The payload is the header and the envelope. -/
theorem toBytes_transfer : envelope.toBytes = .ok (header ++ envelope.toValue.encode.bytes) :=
  Envelope.toBytes_eq_ok_iff.2 ⟨Option.isNone_iff_eq_none.1 (by decide +kernel), rfl⟩

/-- The payload is nested no deeper than the usual limit. -/
theorem nesting_transfer : envelope.toValue.nesting ≤ 64 := by decide +kernel

/-- The types of the transfer have different descriptors. -/
theorem nodup_descriptors : (parts.map (·.2.descriptor.name)).Nodup := by decide +kernel

/-- A hand-written codec for bytes tells nothing else where nothing is told of its type. -/
theorem bind_bytes {α : Type} {t : BytesType α} {r : Registry Entity}
    (hprovides : r.provides t.typeName = []) :
    BoundCodec.bind t.codec r = .ok ⟨t.codec, .restricted (bytesType t)⟩ := by
  have hdescribe : t.codec.describe r = .ok (.restricted (bytesType t)) := by
    show Except.ok (TypeNotation.restricted (r.restrictedOf t.typeName "binary")) = _
    rw [Registry.restrictedOf, hprovides]
    rfl
  rw [BoundCodec.bind, hdescribe]
  exact if_neg (not_not.2 rfl)

/-- The codec for transactions describes seven fields, where nothing is told of its type. -/
theorem bind_transaction {r : Registry Entity}
    (hprovides : r.provides WireTransaction.typeName = []) :
    BoundCodec.bind WireTransaction.codec r =
      .ok ⟨WireTransaction.codec, .composite transactionType⟩ := by
  have hdescribe : WireTransaction.codec.describe r = .ok (.composite transactionType) := by
    show Except.ok (TypeNotation.composite (WireTransaction.describe r)) = _
    rw [WireTransaction.describe, hprovides]
    rfl
  rw [BoundCodec.bind, hdescribe]
  rfl

/-- The registrations succeed on a new factory. -/
theorem registerLedger_new :
    Factory.registerLedger (Factory.new .empty .inserted) = .ok () ⟨setting, .empty⟩ := by
  have hnone : ∀ name, registry.shape? name = none → registry.provides name = [] := by
    intro name hname
    refine Registry.provides_eq_nil ?_ ?_
    · rw [Registry.toldSupertypes, hname]
    · rw [Registry.isTold, Registry.isOptedIn, hname]
      rfl
  have hhash := bind_bytes (t := .secureHash) (hnone _ rfl)
  have hsalt := bind_bytes (t := .privacySalt) (hnone _ rfl)
  have htransaction := bind_transaction (hnone _ rfl)
  show (Factory.registerCustom BytesType.secureHash.codec >>= fun _ =>
    Factory.registerCustom BytesType.privacySalt.codec >>= fun _ =>
    Factory.registerCustom WireTransaction.codec)
      ⟨⟨registry, .empty .inserted, .default⟩, .empty⟩ = _
  simp only [bind, EStateM.bind, Factory.registerCustom, hhash, hsalt, htransaction]
  rfl

/-- A shape with its constructor and its properties resolved becomes a codec for them. -/
theorem build_codecOf {s : TypeShape Entity}
    (hresolve : s.resolve registry = .ok ⟨s.constructors.head?, s.properties⟩)
    (hprovides : registry.provides s.name = []) :
    ObjectCodec.build s registry = .ok (codecOf s) := by
  rw [ObjectCodec.build_of_resolve hresolve hprovides]
  rfl

/-- The factory of the example is one to which the registrations were made. -/
theorem prepared_factory : factory.Prepared := by
  have hempty : Factory.SparesLedger (.new .empty .inserted) := .new .empty nofun
  have hledger : Factory.Prepared ⟨setting, .empty⟩ := .ledger hempty registerLedger_new
  have hwindow := build_codecOf (s := TimeWindow.shape) rfl (Registry.provides_eq_nil rfl rfl)
  have hcommand := build_codecOf (s := Command.shape) rfl (Registry.provides_eq_nil rfl rfl)
  have hfirst : Factory.perform ⟨setting, .empty⟩ (.liveCodec TimeWindow.typeName) =
      ⟨setting, ⟨⟨[(TimeWindow.typeName, codecOf TimeWindow.shape)]⟩, .empty⟩⟩ :=
    Factory.perform_liveCodec rfl rfl hwindow
  have hsecond : Factory.perform
      ⟨setting, ⟨⟨[(TimeWindow.typeName, codecOf TimeWindow.shape)]⟩, .empty⟩⟩
      (.liveCodec Command.typeName) = factory :=
    Factory.perform_liveCodec rfl rfl hcommand
  rw [← hsecond, ← hfirst]
  exact (hledger.perform (.liveCodec TimeWindow.typeName) trivial).perform
    (.liveCodec Command.typeName) trivial

/-- Encoding the transfer gives its payload and builds every codec that it needs. -/
theorem encode_transfer : Factory.encode (Entity.transactions.wrap transfer) factory =
    .ok (header ++ envelope.toValue.encode.bytes) factory := by
  rw [Factory.encode, bind_ok writing_transfer]
  exact Factory.inspecting_eq_ok.2 ⟨toBytes_transfer, rfl⟩

/-- A descriptor in the payload admits only the descriptor of its own type. -/
theorem descriptors_transfer : ∀ x ∈ parts, ∀ y ∈ parts,
    x.2.descriptor.admits (y.2.descriptor.toValue : Value Entity) = true →
      x.2.typeName = y.2.typeName := by
  have hcode : ∀ y ∈ parts, y.2.descriptor.code = none := by
    simp only [parts, List.forall_mem_cons]
    exact ⟨rfl, rfl, rfl, rfl, rfl, nofun⟩
  intro x hx y hy hadmits
  have hname : x.2.descriptor.name = y.2.descriptor.name := by
    simpa [Descriptor.admits, Descriptor.toValue, hcode y hy] using hadmits
  rw [List.inj_on_of_nodup_map nodup_descriptors hx hy hname]

end Transfers

namespace Factory

open Transfers

/-- A transaction with an attachment, a command and an open time window comes back, also after a
name was allowed. -/
theorem decode_encode_transfer : ∃ bytes f g',
    encode (Entity.transactions.wrap transfer) factory = .ok bytes f ∧
      decode Entity.transactions.hostType bytes (f.perform (.allow "Held")) =
        .ok (Entity.transactions.wrap transfer) g' := by
  have hcommands : ∀ c ∈ transfer.commands, c.value.Holdable := by
    intro c hc
    obtain rfl := List.mem_singleton.1 hc
    exact ⟨rfl, nofun⟩
  have hcovers : ∀ x ∈ factory.reached (Entity.transactions.wrap transfer),
      transfer.Covers x.1 := by
    rw [reached_transfer]
    simp only [parts, List.forall_mem_cons]
    exact ⟨trivial, trivial, trivial, List.mem_singleton_self _, trivial, nofun⟩
  obtain ⟨⟨g', hdecode⟩, -⟩ := decode_encode_transaction prepared_factory encode_transfer
    (.perform (.allow "Held") (.refl _) trivial) nofun hcommands
    (fun x hx hother => absurd (hcovers x hx) hother)
    (reached_transfer ▸ descriptors_transfer) fun body schema f₁ h => by
      rw [writing_transfer] at h
      cases h
      exact nesting_transfer
  exact ⟨_, _, g', encode_transfer, hdecode⟩

end Factory

end SelfDescribing
