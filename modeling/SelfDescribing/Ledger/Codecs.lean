import SelfDescribing.Entity.Basic
import SelfDescribing.Factory.Payload

namespace SelfDescribing

/-!
# Ledger types

The shapes and hand-written codecs of the parts of a ledger transaction.

* `BytesType.codec` — types that are nothing but bytes are carried as a binary.
* `StateRef.shape` … `Command.shape` — the parts with shapes.
* `WireTransaction.codec` — a transaction is a list of seven items, each written by the codec of
  its own type.
* `Factory.registerLedger` — all of them together.
-/

variable {α : Type}

/-! ### Types that are nothing but bytes -/

/-- A type that is nothing but bytes. -/
structure BytesType (α : Type) where
  typeName : String
  view : HostView Entity α
  bytes : α → List UInt8
  ofBytes : List UInt8 → α

namespace BytesType

/-- Hashes. -/
def secureHash : BytesType SecureHash := ⟨"ledger.SecureHash", Entity.secureHashes, (·.bytes), .mk⟩

/-- Salts. -/
def privacySalt : BytesType PrivacySalt :=
  ⟨"ledger.PrivacySalt", Entity.privacySalts, (·.bytes), .mk⟩

/-- Bytes without further meaning. -/
def opaqueBytes : BytesType OpaqueBytes :=
  ⟨"evo.OpaqueBytes", Entity.opaqueBytesView, (·.bytes), .mk⟩

/-- The codec that carries the bytes as a binary. -/
def codec (t : BytesType α) : CustomCodec Entity where
  typeName := t.typeName
  hostType := t.view.hostType
  describe r := .ok (.restricted (r.restrictedOf t.typeName "binary"))
  write _ object := do return .binary (t.bytes (← Value.downcast t.view object))
  read _ body := do return t.view.wrap (t.ofBytes (← body.toBinary))

end BytesType

/-! ### Types with shapes -/

/-- A property of the objects of a view that may not be null. -/
def mandatory (typeName : String) (h : HostView Entity α) (name : String) (type : FieldType)
    (get : α → Value Entity) : Property Entity :=
  ⟨name, type, false, some (Property.getterOf typeName h get)⟩

/-- The only constructor of a type. -/
def soleConstructor (h : HostView Entity α) (params : List Param)
    (body : EStateM Error (Args Entity) α) : Constructor Entity :=
  ⟨params, false, false, fun values => (Args.call body values).map h.wrap⟩

/-- A concrete type with one constructor whose parameters are its properties. -/
def plainShape (typeName : String) (h : HostView Entity α) (properties : List (Property Entity))
    (body : EStateM Error (Args Entity) α) : TypeShape Entity where
  name := typeName
  form := .concrete
  hostType? := some h.hostType
  properties := properties
  constructors :=
    [soleConstructor h (properties.map fun p => ⟨p.name, p.type, p.nullable⟩) body]
  supertypes := []
  serializable := false

/-- The type name of state pointers. -/
def StateRef.typeName : String := "ledger.StateRef"

/-- The shape of state pointers. -/
def StateRef.shape : TypeShape Entity :=
  plainShape typeName Entity.stateRefs
    [mandatory typeName Entity.stateRefs "txhash" (.named BytesType.secureHash.typeName)
        fun s => .ofObject Entity.secureHashes s.txhash,
      mandatory typeName Entity.stateRefs "index" (.primitive .int) fun s => .int s.index]
    (do
      let txhash ← Args.object Entity.secureHashes 0
      let index ← Args.data 1
      return ⟨txhash, index⟩)

/-- The type name of participants. -/
def Party.typeName : String := "ledger.Party"

/-- The shape of participants. -/
def Party.shape : TypeShape Entity :=
  plainShape typeName Entity.parties
    [mandatory typeName Entity.parties "name" (.primitive .string) fun p => .string p.name,
      mandatory typeName Entity.parties "owning_key" (.primitive .binary)
        fun p => .binary p.owningKey]
    (do
      let name ← Args.data 0
      let owningKey ← Args.binary 1
      return ⟨name, owningKey⟩)

/-- A point in time that may be missing. -/
def Value.toTimestamp : Value Entity → Except Error (Option Int64)
  | .null => .ok none
  | .timestamp ms => .ok (some ms)
  | v => .error (.typeMismatch "timestamp" v.kind)

/-- The type name of time intervals. -/
def TimeWindow.typeName : String := "ledger.TimeWindow"

/-- The shape of time intervals. -/
def TimeWindow.shape : TypeShape Entity :=
  let bound (name : String) (get : TimeWindow → Option Int64) : Property Entity :=
    { mandatory typeName Entity.timeWindows name (.primitive .timestamp)
        (fun w => .ofOption ((get w).map .timestamp)) with nullable := true }
  plainShape typeName Entity.timeWindows
    [bound "from_time" (·.fromTime), bound "until_time" (·.untilTime)]
    (do
      let fromTime ← Args.takeWith Value.toTimestamp 0
      let untilTime ← Args.takeWith Value.toTimestamp 1
      return ⟨fromTime, untilTime⟩)

/-- The type name of outputs. -/
def TransactionState.typeName : String := "ledger.TransactionState"

/-- The shape of outputs. -/
def TransactionState.shape : TypeShape Entity :=
  plainShape typeName Entity.transactionStates
    [mandatory typeName Entity.transactionStates "data" .any (·.data),
      mandatory typeName Entity.transactionStates "notary" (.named Party.typeName)
        fun s => .ofObject Entity.parties s.notary]
    (do
      let data ← Args.take 0
      let notary ← Args.object Entity.parties 1
      return ⟨data, notary⟩)

/-- The keys in a value. -/
def Value.toSigners : Value Entity → Except Error (List (List UInt8))
  | .list items => items.mapM Value.toBinary
  | v => .error (.typeMismatch "list<binary>" v.kind)

/-- The type name of commands. -/
def Command.typeName : String := "ledger.Command"

/-- The shape of commands. -/
def Command.shape : TypeShape Entity :=
  plainShape typeName Entity.commands
    [mandatory typeName Entity.commands "value" .any (·.value),
      mandatory typeName Entity.commands "signers" (.list (.primitive .binary))
        fun c => .list (c.signers.map .binary)]
    (do
      let signers ← Args.takeWith Value.toSigners 1
      let value ← Args.take 0
      return ⟨value, signers⟩)

/-! ### Transactions -/

namespace WireTransaction

/-- The type name of transactions. -/
def typeName : String := "ledger.WireTransaction"

/-- The fields of a transaction as schemas tell them. -/
def fields : List Field :=
  [⟨"inputs", (FieldType.list (.named StateRef.typeName)).text, true⟩,
    ⟨"attachments", (FieldType.list (.named BytesType.secureHash.typeName)).text, true⟩,
    ⟨"outputs", (FieldType.list (.named TransactionState.typeName)).text, true⟩,
    ⟨"commands", (FieldType.list (.named Command.typeName)).text, true⟩,
    ⟨"notary", Party.typeName, false⟩,
    ⟨"time_window", TimeWindow.typeName, false⟩,
    ⟨"privacy_salt", BytesType.privacySalt.typeName, true⟩]

/-- What schemas tell about transactions. -/
def describe (r : Registry Entity) : CompositeType :=
  { name := typeName, label := none, provides := r.provides typeName,
    descriptor := objectDescriptor typeName fields, fields := fields }

/-- Write an optional part; a missing one is null. -/
def writeOptional (h : HostView Entity α) : Option α → Writing Entity (Value Entity)
  | some a => writeObject (h.wrap a)
  | none => return .null

/-- Write a list of parts. -/
def writeAll (h : HostView Entity α) (parts : List α) : Writing Entity (Value Entity) := do
  return .list (← parts.mapM fun a => writeObject (h.wrap a))

/-- Write the body of a transaction; the two optional parts are written first. -/
def write (tx : WireTransaction (Value Entity)) : Writing Entity (Value Entity) := do
  let notary ← writeOptional Entity.parties tx.notary
  let timeWindow ← writeOptional Entity.timeWindows tx.timeWindow
  let inputs ← writeAll Entity.stateRefs tx.inputs
  let attachments ← writeAll Entity.secureHashes tx.attachments
  let outputs ← writeAll Entity.transactionStates tx.outputs
  let commands ← writeAll Entity.commands tx.commands
  let privacySalt ← writeObject (Entity.privacySalts.wrap tx.privacySalt)
  return .list [inputs, attachments, outputs, commands, notary, timeWindow, privacySalt]

/-- Read a part. -/
def readPart (h : HostView Entity α) (v : Value Entity) : Reading Entity α := do
  Value.downcast h (← readObject v)

/-- Read an optional part. -/
def readOptional (h : HostView Entity α) : Value Entity → Reading Entity (Option α)
  | .null => return none
  | v => do return some (← readPart h v)

/-- Read a list of parts. -/
def readAll (h : HostView Entity α) (what : String) : Value Entity → Reading Entity (List α)
  | .list items => items.mapM (readPart h)
  | v => throw (.malformed (.stated s!"transaction {what} must be a list, found {v.kind}"))

/-- Read the body of a transaction. -/
def read : Value Entity → Reading Entity (WireTransaction (Value Entity))
  | .list [inputs, attachments, outputs, commands, notary, timeWindow, privacySalt] => do
    let inputs ← readAll Entity.stateRefs "inputs" inputs
    let attachments ← readAll Entity.secureHashes "attachments" attachments
    let outputs ← readAll Entity.transactionStates "outputs" outputs
    let commands ← readAll Entity.commands "commands" commands
    let notary ← readOptional Entity.parties notary
    let timeWindow ← readOptional Entity.timeWindows timeWindow
    let privacySalt ← readPart Entity.privacySalts privacySalt
    return ⟨inputs, attachments, outputs, commands, notary, timeWindow, privacySalt⟩
  | .list items =>
    throw (.malformed (.stated s!"transaction body has {items.length} elements, expected 7"))
  | v => throw (.malformed (.stated s!"transaction body must be a list, found {v.kind}"))

/-- The codec of transactions. -/
def codec : CustomCodec Entity where
  typeName := typeName
  hostType := Entity.transactions.hostType
  describe r := .ok (.composite (describe r))
  write _ object := do write (← Value.downcast Entity.transactions object)
  read _ body := do return Entity.transactions.wrap (← read body)

end WireTransaction

/-- Register the ledger types: the shapes, then the hand-written codecs. -/
def Factory.registerLedger : Factory.Step Entity Unit := do
  register StateRef.shape
  register Party.shape
  register TimeWindow.shape
  register TransactionState.shape
  register Command.shape
  registerCustom BytesType.secureHash.codec
  registerCustom BytesType.privacySalt.codec
  registerCustom WireTransaction.codec

end SelfDescribing
