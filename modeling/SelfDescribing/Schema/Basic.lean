import SelfDescribing.Value.Basic

namespace SelfDescribing

/-!
# Schemas

Every payload carries a schema: the notations of the types in it.  A composite type is a record
with named fields; a restricted type is carried as a primitive or container of another type.
-/

/-- One field of a composite type; its type is kept as the text that the schema has. -/
structure Field where
  name : String
  type : String
  /-- Whether the field is never null. -/
  mandatory : Bool
deriving DecidableEq

/-- A record type. -/
structure CompositeType where
  name : String
  /-- A label for readers. -/
  label : Option String
  /-- The names of the supertypes that the schema tells about. -/
  provides : List String
  /-- The tag of encoded values. -/
  descriptor : Descriptor
  /-- The fields in the order of the encoded items. -/
  fields : List Field
deriving DecidableEq

/-- A type carried as a value of another type. -/
structure RestrictedType where
  name : String
  /-- A label for readers. -/
  label : Option String
  /-- The names of the supertypes that the schema tells about. -/
  provides : List String
  /-- The type that carries it. -/
  source : String
  /-- The tag of encoded values. -/
  descriptor : Descriptor
deriving DecidableEq

/-- What a schema tells about one type. -/
inductive TypeNotation where
  | composite (type : CompositeType)
  | restricted (type : RestrictedType)
deriving DecidableEq

/-- The notations of the types in a payload, in the order in which they were first used. -/
structure Schema where
  types : List TypeNotation
deriving DecidableEq

namespace CompositeType

/-- The names of the fields in order. -/
def fieldNames (c : CompositeType) : List String := c.fields.map (·.name)

/-- The first field with a name. -/
def field? (c : CompositeType) (name : String) : Option Field :=
  c.fields.find? (fun f => decide (f.name = name))

end CompositeType

namespace TypeNotation

/-- The name of the type. -/
def name : TypeNotation → String
  | composite c => c.name
  | restricted r => r.name

/-- The tag of encoded values. -/
def descriptor : TypeNotation → Descriptor
  | composite c => c.descriptor
  | restricted r => r.descriptor

/-- The names of the supertypes that the schema tells about. -/
def provides : TypeNotation → List String
  | composite c => c.provides
  | restricted r => r.provides

/-- The record type, if it is one. -/
def composite? : TypeNotation → Option CompositeType
  | composite c => some c
  | restricted _ => none

end TypeNotation

namespace Schema

variable {ω : Type}

/-- The first notation whose descriptor a descriptor value refers to. -/
def findByDescriptor? (s : Schema) (descriptor : Value ω) : Option TypeNotation :=
  s.types.find? (fun t => t.descriptor.admits descriptor)

/-- The first notation of a type name. -/
def findByName? (s : Schema) (name : String) : Option TypeNotation :=
  s.types.find? (fun t => decide (t.name = name))

end Schema

end SelfDescribing
