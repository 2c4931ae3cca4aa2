import SelfDescribing.Codec.Evolution
import SelfDescribing.Codec.Custom

namespace SelfDescribing

/-!
# Codecs

A codec is the default one of a registered shape, a hand-written one, or one that reads an older
shape.  Codecs do not touch bytes: they turn live objects into described values and the bodies of
described values into live objects.
-/

/-- A codec for one type, or for one older shape of a type. -/
inductive Codec (ω : Type) where
  | object (codec : ObjectCodec ω)
  | custom (codec : BoundCodec ω)
  | evolution (codec : EvolutionCodec ω)

namespace Codec

variable {ω : Type}

/-- The name of the type. -/
def typeName : Codec ω → String
  | object c => c.typeName
  | custom c => c.typeName
  | evolution c => c.typeName

/-- What schemas tell about the type. -/
def type : Codec ω → TypeNotation
  | object c => .composite c.composite
  | custom c => c.type
  | evolution c => .composite c.composite

/-- The tag of the values that the codec reads and writes. -/
def descriptor (c : Codec ω) : Descriptor := c.type.descriptor

/-- Whether it is the default codec of a shape. -/
def isObject : Codec ω → Bool
  | object _ => true
  | _ => false

/-- Write an object as a described value; `owner` is the type named in errors. -/
def write [LiveObject ω] (c : Codec ω) (owner : String) (object : ω) : Writing ω (Value ω) :=
  match c with
  | .object c => c.write owner object
  | .custom c => c.write owner object
  | .evolution c => throw (.unsupportedWrite c.typeName)

/-- Read the body of a described value. -/
def read (c : Codec ω) (schema : Schema) (body : Value ω) : Reading ω ω :=
  match c with
  | .object c => c.read schema body
  | .custom c => c.read schema body
  | .evolution c => c.read schema body

end Codec

end SelfDescribing
