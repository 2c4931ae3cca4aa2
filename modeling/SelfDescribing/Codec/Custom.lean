import SelfDescribing.Codec.Property

namespace SelfDescribing

/-!
# Custom codecs

A hand-written codec handles one host type and bypasses its shape.  A `CustomCodecs` registry
finds them by type name, by host type, and by descriptor.

* `CustomCodec`, `BoundCodec` — a hand-written codec, alone and with what schemas tell of its type.
* `ScanOrder` — the order in which a hash table happens to be scanned.
* `CustomCodecs` — the registry; only `CustomCodecs.codecFor?` scans it.
-/

/-- A hand-written codec. -/
structure CustomCodec (ω : Type) where
  /-- The type name used in schemas. -/
  typeName : String
  /-- The host type of the objects it handles. -/
  hostType : HostType
  /-- What schemas tell about the type, given the registered shapes. -/
  describe : Registry ω → Except Error TypeNotation
  /-- Write the body of an object's described value; the first argument is the type named in
  errors. -/
  write : String → ω → Writing ω (Value ω)
  /-- Read the body of an object's described value. -/
  read : Schema → Value ω → Reading ω ω

/-- A hand-written codec with what schemas tell about its type. -/
structure BoundCodec (ω : Type) where
  codec : CustomCodec ω
  type : TypeNotation

namespace BoundCodec

variable {ω : Type}

/-- Describe a codec's type once; the description must have the type's name. -/
def bind (codec : CustomCodec ω) (r : Registry ω) : Except Error (BoundCodec ω) := do
  let type ← codec.describe r
  if type.name ≠ codec.typeName then throw (.misnamed codec.typeName type.name)
  return ⟨codec, type⟩

/-- The name of the type. -/
def typeName (c : BoundCodec ω) : String := c.codec.typeName

/-- Write an object of the codec's host type. -/
def write [LiveObject ω] (c : BoundCodec ω) (owner : String) (object : ω) :
    Writing ω (Value ω) := do
  if LiveObject.hostType object ≠ c.codec.hostType then
    throw (.typeMismatch c.codec.hostType.name c.typeName)
  return c.type.descriptor.describe (← c.codec.write owner object)

/-- Read an object's body. -/
def read (c : BoundCodec ω) (schema : Schema) (body : Value ω) : Reading ω ω :=
  c.codec.read schema body

end BoundCodec

/-- The order in which the keys of a hash table come when the table is scanned.  A hash table is
seeded when it is made, so that the order is not the program's choice and may be another one in
every table of the same keys. -/
structure ScanOrder where
  arrange : List String → List String
  perm : ∀ keys, (arrange keys).Perm keys

namespace ScanOrder

/-- Keys come as they were first inserted. -/
def inserted : ScanOrder := ⟨id, fun _ => .refl _⟩

/-- Keys come the other way round. -/
def reversed : ScanOrder := ⟨List.reverse, List.reverse_perm⟩

/-- A scan meets every key and nothing else, in whatever order. -/
theorem mem_arrange_iff {order : ScanOrder} {key : String} {keys : List String} :
    key ∈ order.arrange keys ↔ key ∈ keys :=
  (order.perm keys).mem_iff

end ScanOrder

/-- The registered hand-written codecs. -/
structure CustomCodecs (ω : Type) where
  /-- The codec of each type name. -/
  codecs : Table String (BoundCodec ω)
  /-- The type name of each host type. -/
  hostNames : Table HostType String
  /-- The order in which the type names are scanned. -/
  order : ScanOrder

namespace CustomCodecs

variable {ω : Type}

/-- The registry without codecs. -/
def empty (order : ScanOrder) : CustomCodecs ω := ⟨.empty, .empty, order⟩

/-- The codec of a type name. -/
def codec? (c : CustomCodecs ω) (name : String) : Option (BoundCodec ω) := c.codecs.find? name

/-- The codec of a host type. -/
def codecOf? (c : CustomCodecs ω) (t : HostType) : Option (BoundCodec ω) := do
  c.codec? (← c.hostNames.find? t)

/-- The codecs in the order in which they are scanned. -/
def scanned (c : CustomCodecs ω) : List (BoundCodec ω) :=
  (c.order.arrange c.codecs.keys).filterMap c.codec?

/-- The codec whose descriptor a descriptor value refers to; of several the one that is scanned
first. -/
def codecFor? (c : CustomCodecs ω) (descriptor : Value ω) : Option (BoundCodec ω) :=
  c.scanned.find? (fun b => b.type.descriptor.admits descriptor)

/-- The type names with a codec. -/
def names (c : CustomCodecs ω) : List String := c.codecs.keys

/-- The name under which a host type was registered before, if it is another one. -/
def replacedName? (c : CustomCodecs ω) (b : BoundCodec ω) : Option String :=
  (c.hostNames.find? b.codec.hostType).filter (fun name => decide (name ≠ b.typeName))

/-- Register a codec for its host type, in place of the codec of that name.  What the host type
was registered as before, under another name, is removed. -/
def register (c : CustomCodecs ω) (b : BoundCodec ω) : CustomCodecs ω :=
  let kept := match c.replacedName? b with
    | some name => c.codecs.erase name
    | none => c.codecs
  ⟨kept.insert b.typeName b, c.hostNames.insert b.codec.hostType b.typeName, c.order⟩

end CustomCodecs

end SelfDescribing
