import SelfDescribing.Entity.Basic
import SelfDescribing.Codec.Custom
import SelfDescribing.Registry.Basic
import SelfDescribing.Shape.Resolve

namespace SelfDescribing

/-!
# Records

Record types are declared by data: which fields their properties read, and how their constructors
take arguments.

* `RecordShape.toShape` — the shape of a declared record type.
* `RecordCodec.toCodec` — a hand-written codec that writes some fields of records, in order.
-/

/-- A property of a declared type. -/
structure RecordProperty where
  name : String
  type : FieldType
  nullable : Bool
  readable : Bool
  /-- The record field that a getter reads. -/
  key : String

/-- A parameter of a declared constructor. -/
structure RecordParam where
  name : String
  type : FieldType
  nullable : Bool
  /-- The slot of the records that a typed constructor takes here. -/
  slot : Option Nat

/-- Which constructors reading prefers. -/
inductive ConstructorFlag where
  | plain
  | marked
  | primary
deriving DecidableEq

/-- A constructor of a declared type. -/
structure RecordConstructor where
  params : List RecordParam
  flag : ConstructorFlag
  /-- Whether arguments are converted to the types of their parameters. -/
  typed : Bool
  /-- The text of the error with which it always fails, if it does. -/
  failure : Option String

/-- What kind of type is declared. -/
inductive RecordKind where
  | concrete (slot : Nat)
  | abstract
  | interface

/-- A declared type. -/
structure RecordShape where
  name : String
  kind : RecordKind
  properties : List RecordProperty
  constructors : List RecordConstructor
  supertypes : List String
  serializable : Bool

namespace RecordParam

/-- Take an argument and convert it, as a value again. -/
def converted (α : Type) [Represented Entity α] (index : Nat) :
    EStateM Error (Args Entity) (Value Entity) := do
  return toValue (← Args.data (α := α) index)

/-- Take an argument that may be null and convert it. -/
def convertedAs (α : Type) [Represented Entity α] (nullable : Bool) (index : Nat) :
    EStateM Error (Args Entity) (Value Entity) :=
  if nullable then converted (Option α) index else converted α index

/-- Take the argument of a parameter as records, if the parameter says of which slot. -/
def takeRecords? (p : RecordParam) (index : Nat) :
    Option (EStateM Error (Args Entity) (Value Entity)) := do
  let records := HostView.ofHost (Entity.slotType (← p.slot))
  match p.type with
  | .named _ =>
    if p.nullable then
      some (do return Value.ofOption ((← Args.takeWith (Value.toOptionalObject records) index).map
        Value.live))
    else some (do return .live (← Args.object records index))
  | .list _ => some (do
      return .list ((← Args.takeWith (Value.toObjects records) index).map Value.live))
  | _ => none

/-- Take the argument of a parameter as data of the parameter's type. -/
def takeTyped (p : RecordParam) (index : Nat) : EStateM Error (Args Entity) (Value Entity) :=
  match p.takeRecords? index with
  | some take => take
  | none =>
    match p.type with
    | .primitive .boolean => convertedAs Bool p.nullable index
    | .primitive .byte => convertedAs Int8 p.nullable index
    | .primitive .short => convertedAs Int16 p.nullable index
    | .primitive .int => convertedAs Int32 p.nullable index
    | .primitive .long => convertedAs Int64 p.nullable index
    | .primitive .ubyte => convertedAs UInt8 p.nullable index
    | .primitive .ushort => convertedAs UInt16 p.nullable index
    | .primitive .uint => convertedAs UInt32 p.nullable index
    | .primitive .ulong => convertedAs UInt64 p.nullable index
    | .primitive .float => convertedAs FloatBits p.nullable index
    | .primitive .double => convertedAs DoubleBits p.nullable index
    | .primitive .char => convertedAs Char p.nullable index
    | .primitive .string => convertedAs String p.nullable index
    | .primitive .binary =>
      if p.nullable then Args.take index else do return .binary (← Args.binary index)
    | .list (.primitive .int) => convertedAs (List Int32) p.nullable index
    | .list (.primitive .long) => convertedAs (List Int64) p.nullable index
    | .list (.primitive .string) => convertedAs (List String) p.nullable index
    | _ => Args.take index

/-- The parameter without its slot. -/
def toParam (p : RecordParam) : Param := ⟨p.name, p.type, p.nullable⟩

end RecordParam

namespace RecordConstructor

/-- Build a record with one field for each parameter; arguments beyond them are not looked at. -/
def build (c : RecordConstructor) (slot : Nat) (values : List (Value Entity)) :
    Except Error Entity :=
  match c.failure with
  | some text => .error (.other text)
  | none => Args.call (do
      let fields ← c.params.mapIdxM fun index p => do
        return (p.name, ← if c.typed then p.takeTyped index else Args.take index)
      return .record slot fields) values

/-- The constructor of records of a slot. -/
def toConstructor (c : RecordConstructor) (slot : Nat) : Constructor Entity where
  params := c.params.map (·.toParam)
  marked := c.flag = .marked
  primary := c.flag = .primary
  build := c.build slot

end RecordConstructor

namespace RecordShape

/-- A property; only those of concrete types have getters. -/
def property (s : RecordShape) (p : RecordProperty) : Property Entity where
  name := p.name
  type := p.type
  nullable := p.nullable
  getter := match s.kind with
    | .concrete slot =>
      if p.readable then
        some (Property.getterOf s.name (Entity.records slot) fun fields =>
          Entity.fieldOf fields p.key)
      else none
    | _ => none

/-- The shape of a declared type. -/
def toShape (s : RecordShape) : TypeShape Entity where
  name := s.name
  form := match s.kind with
    | .concrete _ => .concrete
    | .abstract => .abstract
    | .interface => .interface
  hostType? := match s.kind with
    | .concrete slot => some (Entity.slotType slot)
    | _ => none
  properties := s.properties.map s.property
  constructors := match s.kind with
    | .concrete slot => s.constructors.map (·.toConstructor slot)
    | _ => []
  supertypes := s.supertypes
  serializable := s.serializable

end RecordShape

/-! ### A hand-written codec for records -/

/-- How a codec for records describes its type. -/
inductive RecordNotation where
  | restricted (source : String)
  | composite (fields : List Field)

/-- A hand-written codec for the records of a slot. -/
structure RecordCodec where
  slot : Nat
  typeName : String
  /-- The fields that are written, in order. -/
  keys : List String
  /-- Whether the body is the first field alone, and not a list of fields. -/
  single : Bool
  /-- The name under which the type is described. -/
  describedName : String
  description : RecordNotation
  /-- A descriptor in place of the one that belongs to the description. -/
  descriptor : Option Descriptor

namespace RecordCodec

/-- What schemas tell about the type. -/
def describe (c : RecordCodec) (r : Registry Entity) : TypeNotation :=
  match c.description with
  | .restricted source =>
    let type := r.restrictedOf c.describedName source
    .restricted { type with descriptor := c.descriptor.getD type.descriptor }
  | .composite fields =>
    .composite
      { name := c.describedName, label := none, provides := r.provides c.describedName,
        descriptor := c.descriptor.getD (objectDescriptor c.describedName fields),
        fields := fields }

/-- Write the body of a record. -/
def write (c : RecordCodec) (fields : List (String × Value Entity)) :
    Writing Entity (Value Entity) :=
  if c.single then writeAny (Entity.fieldOf fields (c.keys.headD ""))
  else do return .list (← c.keys.mapM fun key => writeAny (Entity.fieldOf fields key))

/-- Read the body of a record. -/
def read (c : RecordCodec) (schema : Schema) (body : Value Entity) : Reading Entity Entity :=
  if c.single then do return .record c.slot [(c.keys.headD "", ← readAny schema body)]
  else do
    let refused := Error.malformed (.stated ("record body is " ++ body.kind))
    match body with
    | .list items =>
      if items.length ≠ c.keys.length then throw refused
      return .record c.slot (← (c.keys.zip items).mapM fun (key, v) => do
        return (key, ← readAny schema v))
    | _ => throw refused

/-- The codec. -/
def toCodec (c : RecordCodec) : CustomCodec Entity where
  typeName := c.typeName
  hostType := Entity.slotType c.slot
  describe r := .ok (c.describe r)
  write _ object :=
    match (Entity.records c.slot).view? object with
    | some fields => c.write fields
    | none => throw (.typeMismatch (Entity.slotType c.slot).name c.typeName)
  read := c.read

end RecordCodec

end SelfDescribing
