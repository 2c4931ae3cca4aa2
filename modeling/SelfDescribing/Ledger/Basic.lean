namespace SelfDescribing

/-!
# Ledger data

The parts of a ledger transaction.  The data of an output and the value of a command may be
anything, so the types that hold them have the type of values as a parameter.
-/

/-- The hash of a transaction or attachment. -/
structure SecureHash where
  bytes : List UInt8
deriving DecidableEq

/-- A salt mixed into a transaction's identity. -/
structure PrivacySalt where
  bytes : List UInt8
deriving DecidableEq

/-- A byte sequence without further meaning. -/
structure OpaqueBytes where
  bytes : List UInt8
deriving DecidableEq

/-- A pointer to an output of an earlier transaction. -/
structure StateRef where
  txhash : SecureHash
  index : Int32
deriving DecidableEq

/-- A named participant of the network. -/
structure Party where
  name : String
  owningKey : List UInt8
deriving DecidableEq

/-- A time interval in milliseconds since the start of 1970; either end may be open. -/
structure TimeWindow where
  fromTime : Option Int64
  untilTime : Option Int64
deriving DecidableEq

/-- An output and the notary responsible for it. -/
structure TransactionState (ν : Type) where
  data : ν
  notary : Party

/-- A command and the keys that must sign it. -/
structure Command (ν : Type) where
  value : ν
  signers : List (List UInt8)

/-- A transaction. -/
structure WireTransaction (ν : Type) where
  inputs : List StateRef
  attachments : List SecureHash
  outputs : List (TransactionState ν)
  commands : List (Command ν)
  notary : Option Party
  timeWindow : Option TimeWindow
  privacySalt : PrivacySalt

end SelfDescribing
