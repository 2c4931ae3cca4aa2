import SelfDescribing.Schema.Basic
import SelfDescribing.Value.Text

namespace SelfDescribing

/-!
# Well-known descriptors

The descriptors of the structures that make up a payload: the envelope, the schema and the parts
of a schema.  Their codes share the upper half.  `WellKnown.describe` and `WellKnown.undescribe`
put such a descriptor on a list of items and take it off.
-/

/-- The structures of a payload. -/
inductive WellKnown where
  | envelope
  | schema
  | objectDescriptor
  | field
  | compositeType
  | restrictedType
deriving DecidableEq

/-- The described value that a value must be. -/
def Value.toDescribed {ω : Type} (what : String) : Value ω → Except Error (Value ω × Value ω)
  | .described descriptor body => .ok (descriptor, body)
  | v => .error (.malformed (.notDescribed what v.kind))

/-- The list that a value must be. -/
def Value.toItems {ω : Type} (what : String) : Value ω → Except Error (List (Value ω))
  | .list items => .ok items
  | v => .error (.malformed (.notList what v.kind))

namespace WellKnown

/-- Every structure. -/
def all : List WellKnown :=
  [envelope, schema, objectDescriptor, field, compositeType, restrictedType]

/-- The number of a structure in the lower half of its code. -/
def number : WellKnown → UInt64
  | envelope => 1
  | schema => 2
  | objectDescriptor => 3
  | field => 4
  | compositeType => 5
  | restrictedType => 6

/-- The code of a structure. -/
def code (w : WellKnown) : UInt64 := 0xe70c00000000 + w.number

/-- The name of a structure. -/
def name : WellKnown → String
  | envelope => "evo:envelope"
  | schema => "evo:schema"
  | objectDescriptor => "evo:object_descriptor"
  | field => "evo:field"
  | compositeType => "evo:composite_type"
  | restrictedType => "evo:restricted_type"

/-- The descriptor of a structure. -/
def descriptor (w : WellKnown) : Descriptor := ⟨w.name, some w.code⟩

variable {ω : Type}

/-- A list of items tagged as a structure. -/
def describe (w : WellKnown) (items : List (Value ω)) : Value ω :=
  w.descriptor.describe (.list items)

/-- The items of a list that is tagged as a structure. -/
def undescribe [LiveObject ω] (w : WellKnown) (v : Value ω) : Except Error (List (Value ω)) := do
  let (descriptor, body) ← v.toDescribed w.name
  if !w.descriptor.admits descriptor then
    throw (.malformed (.wrongDescriptor w.name descriptor.text))
  body.toItems w.name

end WellKnown

end SelfDescribing
