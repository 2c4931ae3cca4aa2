import SelfDescribing.Ledger.Basic
import SelfDescribing.Value.Convert

namespace SelfDescribing

/-!
# Entities

The live objects that this library knows by itself: records, the parts of ledger transactions,
and plain numbers and strings.  A record belongs to the host type of its slot and is an ordered
list of named values.  For each kind of entity there is a view of the live objects of its host
type as data of that kind.
-/

/-- A live object. -/
inductive Entity where
  | record (slot : Nat) (fields : List (String × Value Entity))
  | stateRef (data : StateRef)
  | party (data : Party)
  | timeWindow (data : TimeWindow)
  | transactionState (data : TransactionState (Value Entity))
  | command (data : Command (Value Entity))
  | transaction (data : WireTransaction (Value Entity))
  | secureHash (data : SecureHash)
  | privacySalt (data : PrivacySalt)
  | opaqueBytes (data : OpaqueBytes)
  | number (n : UInt64)
  | text (s : String)

namespace Entity

/-- The host type of the records of a slot. -/
def slotType (slot : Nat) : HostType := ⟨"Slot<" ++ toString slot ++ ">"⟩

/-- The views of the kinds of entities, with the printed names of their host types. -/
def stateRefs : HostView Entity StateRef where
  hostType := ⟨"evocodec::ledger::StateRef"⟩
  wrap := stateRef
  view?
    | stateRef data => some data
    | _ => none

@[inherit_doc stateRefs]
def parties : HostView Entity Party where
  hostType := ⟨"evocodec::ledger::Party"⟩
  wrap := party
  view?
    | party data => some data
    | _ => none

@[inherit_doc stateRefs]
def timeWindows : HostView Entity TimeWindow where
  hostType := ⟨"evocodec::ledger::TimeWindow"⟩
  wrap := timeWindow
  view?
    | timeWindow data => some data
    | _ => none

@[inherit_doc stateRefs]
def transactionStates : HostView Entity (TransactionState (Value Entity)) where
  hostType := ⟨"evocodec::ledger::TransactionState"⟩
  wrap := transactionState
  view?
    | transactionState data => some data
    | _ => none

@[inherit_doc stateRefs]
def commands : HostView Entity (Command (Value Entity)) where
  hostType := ⟨"evocodec::ledger::Command"⟩
  wrap := command
  view?
    | command data => some data
    | _ => none

@[inherit_doc stateRefs]
def transactions : HostView Entity (WireTransaction (Value Entity)) where
  hostType := ⟨"evocodec::ledger::WireTransaction"⟩
  wrap := transaction
  view?
    | transaction data => some data
    | _ => none

@[inherit_doc stateRefs]
def secureHashes : HostView Entity SecureHash where
  hostType := ⟨"evocodec::ledger::SecureHash"⟩
  wrap := secureHash
  view?
    | secureHash data => some data
    | _ => none

@[inherit_doc stateRefs]
def privacySalts : HostView Entity PrivacySalt where
  hostType := ⟨"evocodec::ledger::PrivacySalt"⟩
  wrap := privacySalt
  view?
    | privacySalt data => some data
    | _ => none

@[inherit_doc stateRefs]
def opaqueBytesView : HostView Entity OpaqueBytes where
  hostType := ⟨"evocodec::encoding::custom::opaque_bytes::OpaqueBytes"⟩
  wrap := opaqueBytes
  view?
    | opaqueBytes data => some data
    | _ => none

@[inherit_doc stateRefs]
def numbers : HostView Entity UInt64 where
  hostType := ⟨"u64"⟩
  wrap := number
  view?
    | number n => some n
    | _ => none

@[inherit_doc stateRefs]
def texts : HostView Entity String where
  hostType := ⟨"alloc::string::String"⟩
  wrap := text
  view?
    | text s => some s
    | _ => none

/-- The records of a slot, by their fields. -/
def records (slot : Nat) : HostView Entity (List (String × Value Entity)) where
  hostType := slotType slot
  wrap := record slot
  view?
    | record s fields => if s = slot then some fields else none
    | _ => none

instance : LiveObject Entity where
  hostType
    | record slot _ => slotType slot
    | stateRef _ => stateRefs.hostType
    | party _ => parties.hostType
    | timeWindow _ => timeWindows.hostType
    | transactionState _ => transactionStates.hostType
    | command _ => commands.hostType
    | transaction _ => transactions.hostType
    | secureHash _ => secureHashes.hostType
    | privacySalt _ => privacySalts.hostType
    | opaqueBytes _ => opaqueBytesView.hostType
    | number _ => numbers.hostType
    | text _ => texts.hostType

/-- The value of the first field of a record with a name; null if there is none. -/
def fieldOf (fields : List (String × Value Entity)) (key : String) : Value Entity :=
  ((fields.find? (fun f => decide (f.1 = key))).map (·.2)).getD .null

end Entity

end SelfDescribing
