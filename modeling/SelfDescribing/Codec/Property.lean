import SelfDescribing.Codec.Exchange
import SelfDescribing.Shape.Resolve

namespace SelfDescribing

/-!
# Property codecs

A property codec writes and reads one value of a declared type.  Primitive values are checked
against the declared type in both directions; live objects, and the objects inside values of
type `*`, are left to the context.

* `Writing`, `Reading` — what codecs ask of a context.
* `writeAny`, `readAny` — values of type `*`.
* `writeTyped`, `readTyped` — values of a declared type.
* `PropertyCodec` — one named property.
-/

/-- A request to write a live object, which should be of the type `expected` if that is given. -/
structure WriteRequest (ω : Type) where
  object : ω
  expected : Option String

/-- A computation that may have live objects written. -/
abbrev Writing (ω β : Type) : Type := Exchange (WriteRequest ω) (Value ω) β

/-- A computation that may have described values read as live objects. -/
abbrev Reading (ω β : Type) : Type := Exchange (Value ω) ω β

/-- Have a live object written. -/
def writeObject {ω : Type} (object : ω) : Writing ω (Value ω) := Exchange.request ⟨object, none⟩

/-- Have a live object written that should be of a given type. -/
def writeObjectAs {ω : Type} (expected : String) (object : ω) : Writing ω (Value ω) :=
  Exchange.request ⟨object, some expected⟩

/-- Have a described value read as a live object. -/
def readObject {ω : Type} (v : Value ω) : Reading ω ω := Exchange.request v

/-! ### Values of any type -/

section Any

variable {ω : Type}

mutual

/-- Write a value of type `*`: live objects anywhere in it are written by what they are. -/
def writeAny : Value ω → Writing ω (Value ω)
  | .live object => writeObject object
  | .list items => do return .list (← writeItems items)
  | .map entries => do return .map (← writeEntries entries)
  | .described descriptor body => do return .described descriptor (← writeAny body)
  | v => return v

/-- Write the items of a list. -/
def writeItems : List (Value ω) → Writing ω (List (Value ω))
  | [] => return []
  | v :: rest => do
    let v ← writeAny v
    return v :: (← writeItems rest)

/-- Write the entries of a map. -/
def writeEntries : List (Value ω × Value ω) → Writing ω (List (Value ω × Value ω))
  | [] => return []
  | (k, v) :: rest => do
    let k ← writeAny k
    let v ← writeAny v
    return (k, v) :: (← writeEntries rest)

end

mutual

/-- Read a value of type `*`: described values whose descriptor is in the schema become live
objects, and all else stays as it is. -/
def readAny (schema : Schema) : Value ω → Reading ω (Value ω)
  | .described descriptor body =>
    if (schema.findByDescriptor? descriptor).isSome then
      return .live (← readObject (.described descriptor body))
    else return .described descriptor body
  | .list items => do return .list (← readItems schema items)
  | .map entries => do return .map (← readEntries schema entries)
  | v => return v

/-- Read the items of a list. -/
def readItems (schema : Schema) : List (Value ω) → Reading ω (List (Value ω))
  | [] => return []
  | v :: rest => do
    let v ← readAny schema v
    return v :: (← readItems schema rest)

/-- Read the entries of a map. -/
def readEntries (schema : Schema) :
    List (Value ω × Value ω) → Reading ω (List (Value ω × Value ω))
  | [] => return []
  | (k, v) :: rest => do
    let k ← readAny schema k
    let v ← readAny schema v
    return (k, v) :: (← readEntries schema rest)

end

end Any

/-! ### Values of a declared type -/

section Typed

variable {ω : Type}

/-- Write a value of a declared type; null is written as it is.  `owner` is the type of the object
that the value was read off. -/
def writeTyped (owner property : String) : FieldType → Value ω → Writing ω (Value ω)
  | _, .null => return .null
  | .any, v => writeAny v
  | .named name, .live object => writeObjectAs name object
  | .named name, v => throw (.typeMismatch name v.kind)
  | .list element, .list items => do
    return .list (← items.mapM (writeTyped owner property element))
  | .list element, v => throw (.typeMismatch (FieldType.list element).text v.kind)
  | .primitive p, v =>
    if v.primitive? = some p then return v
    else throw (.propertyMismatch owner property (.getterReturned v.kind p.name))

/-- Read a value of a declared type; null is read as it is. -/
def readTyped (schema : Schema) (property : String) :
    FieldType → Value ω → Reading ω (Value ω)
  | _, .null => return .null
  | .any, v => readAny schema v
  | .named _, v => do return .live (← readObject v)
  | .list element, .list items => do
    return .list (← items.mapM (readTyped schema property element))
  | .list _, v => throw (.malformed (.propertyKind property "a list" v.kind))
  | .primitive p, v =>
    if v.primitive? = some p then return v
    else throw (.malformed (.propertyKind property p.name v.kind))

end Typed

/-! ### Properties -/

/-- Writes and reads one named property. -/
structure PropertyCodec (ω : Type) where
  name : String
  type : FieldType
  /-- Whether null may be read. -/
  nullable : Bool
  /-- How to read the property off a live object; a field of a schema has no getter. -/
  getter : Option (ω → Except Error (Value ω))

namespace PropertyCodec

variable {ω : Type}

/-- The codec of a property of a live type. -/
def ofProperty (p : Property ω) : PropertyCodec ω := ⟨p.name, p.type, p.nullable, p.getter⟩

/-- The codec of a field in a schema. -/
def ofField (f : Field) : PropertyCodec ω := ⟨f.name, .parse f.type, !f.mandatory, none⟩

/-- The schema field of the property. -/
def field (p : PropertyCodec ω) : Field := ⟨p.name, p.type.text, !p.nullable⟩

/-- Write a value of the property. -/
def writeValue (p : PropertyCodec ω) (owner : String) (v : Value ω) : Writing ω (Value ω) :=
  writeTyped owner p.name p.type v

/-- Read the property off a live object and write it. -/
def write (p : PropertyCodec ω) (owner : String) (object : ω) : Writing ω (Value ω) :=
  match p.getter with
  | none => throw (.noAccessor p.name)
  | some getter => do p.writeValue owner (← getter object)

/-- Read a value of the property. -/
def read (p : PropertyCodec ω) (schema : Schema) (v : Value ω) : Reading ω (Value ω) :=
  if v.isNull && !p.nullable then throw (.malformed (.nullProperty p.name))
  else readTyped schema p.name p.type v

/-- The text of the codec in diagnostics. -/
def diagnostic (p : PropertyCodec ω) : String :=
  Labelled.record "PropertyCodec"
    [("name", Quoted.string p.name), ("field_type", p.type.diagnostic),
      ("nullable", toString p.nullable)]

end PropertyCodec

end SelfDescribing
