import SelfDescribing.Codec.Property

namespace SelfDescribing

/-!
# Object codecs

The default codec of a registered type: an object is written as the described list of its
properties, in the order of the chosen constructor's parameters, and read back through that
constructor.
-/

/-- The codec of a registered shape. -/
structure ObjectCodec (ω : Type) where
  /-- The host type of the objects, as the shape has it. -/
  hostType : Option HostType
  /-- What schemas tell about the type. -/
  composite : CompositeType
  /-- The properties in the order of the encoded items. -/
  properties : List (PropertyCodec ω)
  /-- None for abstract types and interfaces. -/
  constructor : Option (Constructor ω)

namespace ObjectCodec

variable {ω : Type}

/-- Resolve a shape and build its codec. -/
def build (s : TypeShape ω) (r : Registry ω) : Except Error (ObjectCodec ω) := do
  let resolved ← s.resolve r
  return {
    hostType := s.hostType?
    composite := r.compositeOf s.name resolved.properties
    properties := resolved.properties.map .ofProperty
    constructor := resolved.constructor }

/-- The name of the type. -/
def typeName (c : ObjectCodec ω) : String := c.composite.name

/-- Write an object; `owner` is the type named in errors. -/
def write (c : ObjectCodec ω) (owner : String) (object : ω) : Writing ω (Value ω) := do
  return c.composite.descriptor.describe (.list (← c.properties.mapM (·.write owner object)))

/-- Read the items of an object's body and construct it. -/
def construct (c : ObjectCodec ω) (schema : Schema) (items : List (Value ω)) : Reading ω ω := do
  match c.constructor with
  | none => throw (.noConstructor c.typeName)
  | some constructor =>
    if items.length ≠ c.properties.length then
      throw (.malformed (.fieldCount c.typeName c.properties.length items.length))
    let args ← (c.properties.zip items).mapM fun (p, v) => p.read schema v
    constructor.build args

/-- Read an object's body. -/
def read (c : ObjectCodec ω) (schema : Schema) : Value ω → Reading ω ω
  | .list items => c.construct schema items
  | v => throw (.malformed (.notFieldList c.typeName v.kind))

end ObjectCodec

end SelfDescribing
