import SelfDescribing.Schema.Encoding
import SelfDescribing.Wire.Encode
import SelfDescribing.Wire.Cursor

namespace SelfDescribing

/-!
# Envelopes

A payload is a header of five bytes and one described list, which holds the encoded root object
and the schema that describes it.
-/

/-- The bytes that start every payload. -/
def header : List UInt8 := [0x65, 0x76, 0x6f, 0x01, 0x00]

/-- A body and its schema, before encoding or after parsing. -/
structure Envelope (ω : Type) where
  body : Value ω
  schema : Schema

namespace Envelope

variable {ω : Type} [LiveObject ω]

/-- The described list of an envelope. -/
def toValue (e : Envelope ω) : Value ω :=
  WellKnown.envelope.describe [e.body, e.schema.toValue]

/-- The bytes of an envelope. -/
def toBytes (e : Envelope ω) : Except Error (List UInt8) :=
  let output := e.toValue.encode
  match output.failure with
  | none => .ok (header ++ output.bytes)
  | some err => .error err

/-- The body and schema in a described list. -/
def ofValue (v : Value ω) : Except Error (Envelope ω) := do
  match ← WellKnown.envelope.undescribe v with
  | [body, schema] => return ⟨body, ← Schema.ofValue schema⟩
  | items => throw (.malformed (.itemCount "envelope" items.length 2))

/-- Parse a payload, whose values may nest up to `limit`. -/
def parse (bytes : List UInt8) (limit : Nat) :
    Except Error (Envelope ω) :=
  if bytes.take header.length ≠ header then .error (.malformed .unknownHeader)
  else
    match Wire.Cursor.read (Wire.Cursor.start (bytes.drop header.length) limit) with
    | .error e _ => .error e
    | .ok v c =>
      if !c.atEnd then .error (.malformed (.trailingBytes c.remaining)) else ofValue v

end Envelope

end SelfDescribing
