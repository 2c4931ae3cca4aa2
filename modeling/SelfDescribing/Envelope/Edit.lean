import SelfDescribing.Envelope.Basic

namespace SelfDescribing

/-!
# Edits of payloads

Changes that turn a payload into one that no codec wrote, to see how readers take it.

* `ByteEdit` — changes of the bytes.
* `ListEdit` — changes of a list.
* `EnvelopeEdit` — changes of the body and of the schema.  Descriptors are never made anew, so an
  edited type keeps the tag that its values carry.

An edit at a position that does not exist changes nothing.
-/

/-! ### Bytes -/

/-- A change of a byte string. -/
inductive ByteEdit where
  /-- Keep the first `length` bytes. -/
  | truncate (length : Nat)
  /-- Leave out the last `count` bytes. -/
  | cut (count : Nat)
  | append (bytes : List UInt8)
  | set (index : Nat) (byte : UInt8)

/-- Carry out a change of a byte string. -/
def ByteEdit.apply : ByteEdit → List UInt8 → List UInt8
  | truncate length, bytes => bytes.take length
  | cut count, bytes => bytes.take (bytes.length - count)
  | append suffix, bytes => bytes ++ suffix
  | set index byte, bytes => bytes.set index byte

/-! ### Lists -/

/-- A change of a list. -/
inductive ListEdit (α : Type) where
  | set (index : Nat) (item : α)
  | drop (index : Nat)
  /-- Add an item at the end. -/
  | push (item : α)
  | swap (i j : Nat)

/-- Carry out a change of a list. -/
def ListEdit.apply {α : Type} (edit : ListEdit α) (items : List α) : List α :=
  match edit with
  | set index item => items.set index item
  | drop index => items.eraseIdx index
  | push item => items ++ [item]
  | swap i j =>
    match items[i]?, items[j]? with
    | some a, some b => (items.set i b).set j a
    | _, _ => items

/-! ### Envelopes -/

/-- A change of what a schema tells about one type. -/
inductive TypeEdit where
  /-- Change the fields of a composite type. -/
  | fields (edit : ListEdit Field)
  /-- Make it a restricted type without a label. -/
  | restrict (source : String)
  | rename (name : String)
  | redescribe (descriptor : Descriptor)

/-- Carry out a change of a type. -/
def TypeEdit.apply : TypeEdit → TypeNotation → TypeNotation
  | fields edit, .composite c => .composite { c with fields := edit.apply c.fields }
  | fields _, .restricted r => .restricted r
  | restrict source, t => .restricted
      { name := t.name, label := none, provides := t.provides, source := source,
        descriptor := t.descriptor }
  | rename name, .composite c => .composite { c with name := name }
  | rename name, .restricted r => .restricted { r with name := name }
  | redescribe descriptor, .composite c => .composite { c with descriptor := descriptor }
  | redescribe descriptor, .restricted r => .restricted { r with descriptor := descriptor }

/-- A change of an envelope. -/
inductive EnvelopeEdit (ω : Type) where
  | body (value : Value ω)
  /-- Put another descriptor on the body. -/
  | bodyDescriptor (descriptor : Value ω)
  /-- Put another value behind the body's descriptor. -/
  | bodyValue (value : Value ω)
  /-- Change the list behind the body's descriptor. -/
  | items (edit : ListEdit (Value ω))
  /-- Change the list of types. -/
  | types (edit : ListEdit TypeNotation)
  /-- Change one type. -/
  | type (index : Nat) (edit : TypeEdit)

variable {ω : Type}

/-- Change the list in a value, which may carry a descriptor. -/
def Value.editItems (edit : ListEdit (Value ω)) : Value ω → Value ω
  | .list items => .list (edit.apply items)
  | .described descriptor (.list items) => .described descriptor (.list (edit.apply items))
  | v => v

/-- Carry out a change of an envelope. -/
def EnvelopeEdit.apply (edit : EnvelopeEdit ω) (e : Envelope ω) : Envelope ω :=
  match edit with
  | body value => { e with body := value }
  | bodyDescriptor descriptor =>
    match e.body with
    | .described _ value => { e with body := .described descriptor value }
    | _ => e
  | bodyValue value =>
    match e.body with
    | .described descriptor _ => { e with body := .described descriptor value }
    | _ => e
  | items edit => { e with body := e.body.editItems edit }
  | types edit => { e with schema := ⟨edit.apply e.schema.types⟩ }
  | type index edit => { e with schema := ⟨e.schema.types.modify index edit.apply⟩ }

namespace Envelope

/-- Carry out changes one after the other. -/
def edit (e : Envelope ω) (edits : List (EnvelopeEdit ω)) : Envelope ω :=
  edits.foldl (fun e edit => edit.apply e) e

end Envelope

end SelfDescribing
