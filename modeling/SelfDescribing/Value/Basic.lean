import SelfDescribing.Error
import SelfDescribing.Schema.FieldType

namespace SelfDescribing

/-!
# Values

What travels in a payload: primitives, lists, maps and described values.  While a value is being
written or read it may also hold a live object of the running program, of some type `ω`.

* `HostType`, `LiveObject` — live objects and the types of the running program they belong to.
* `Value` — the values.  Floating-point numbers are their bits, so that equality of values is
  equality of what is written, and no two encodings of a number are confused.
* `Descriptor` — the tag of a described value: a symbol, or a numeric code in its place.
-/

/-- A type of the running program, known by its printed name. -/
structure HostType where
  name : String
deriving DecidableEq

/-- Live objects belong to host types. -/
class LiveObject (ω : Type) where
  hostType : ω → HostType

/-- A value, perhaps with live objects of type `ω` in it. -/
inductive Value (ω : Type) where
  | null
  | bool (b : Bool)
  | ubyte (n : UInt8)
  | ushort (n : UInt16)
  | uint (n : UInt32)
  | ulong (n : UInt64)
  | byte (n : Int8)
  | short (n : Int16)
  | int (n : Int32)
  | long (n : Int64)
  /-- A 32-bit floating-point number, by its bits. -/
  | float (bits : UInt32)
  /-- A 64-bit floating-point number, by its bits. -/
  | double (bits : UInt64)
  | char (c : Char)
  /-- Milliseconds since the start of 1970. -/
  | timestamp (ms : Int64)
  | binary (bytes : List UInt8)
  | string (s : String)
  /-- A symbolic constant, used for descriptors. -/
  | symbol (s : String)
  | list (items : List (Value ω))
  | map (entries : List (Value ω × Value ω))
  /-- A body tagged with a descriptor. -/
  | described (descriptor body : Value ω)
  /-- A live object, present only before writing and after reading. -/
  | live (object : ω)

namespace Value

variable {ω : Type}

instance : Inhabited (Value ω) := ⟨null⟩

/-- The name of a value's kind, for messages. -/
def kind : Value ω → String
  | null => "null"
  | bool _ => "boolean"
  | ubyte _ => "ubyte"
  | ushort _ => "ushort"
  | uint _ => "uint"
  | ulong _ => "ulong"
  | byte _ => "byte"
  | short _ => "short"
  | int _ => "int"
  | long _ => "long"
  | float _ => "float"
  | double _ => "double"
  | char _ => "char"
  | timestamp _ => "timestamp"
  | binary _ => "binary"
  | string _ => "string"
  | symbol _ => "symbol"
  | list _ => "list"
  | map _ => "map"
  | described .. => "described"
  | live _ => "instance"

/-- Whether a value is the absent value. -/
def isNull : Value ω → Bool
  | null => true
  | _ => false

/-- The primitive type of a value, if it has one. -/
def primitive? : Value ω → Option Primitive
  | bool _ => some .boolean
  | ubyte _ => some .ubyte
  | ushort _ => some .ushort
  | uint _ => some .uint
  | ulong _ => some .ulong
  | byte _ => some .byte
  | short _ => some .short
  | int _ => some .int
  | long _ => some .long
  | float _ => some .float
  | double _ => some .double
  | char _ => some .char
  | timestamp _ => some .timestamp
  | binary _ => some .binary
  | string _ => some .string
  | symbol _ => some .symbol
  | _ => none

/-- Something else than the expected kind of value was there. -/
def unexpected (expected : String) (found : Value ω) : Error :=
  .malformed (.unexpected expected found.kind)

/-- A value that may be missing, as null. -/
def ofOption : Option (Value ω) → Value ω
  | some v => v
  | none => null

end Value

/-- Whether a value has a given primitive type; never true of lists, `*` and registered types. -/
def FieldType.accepts {ω : Type} (t : FieldType) (v : Value ω) : Bool :=
  match t with
  | .primitive p => v.primitive? == some p
  | _ => false

/-- The tag of a described value: a name, or, where there is one, a numeric code in its place. -/
structure Descriptor where
  name : String
  code : Option UInt64
deriving DecidableEq

namespace Descriptor

variable {ω : Type}

/-- The value written in front of a described body. -/
def toValue (d : Descriptor) : Value ω :=
  match d.code with
  | some code => .ulong code
  | none => .symbol d.name

/-- Whether a value in front of a body refers to this descriptor, by its code or by its name. -/
def admits (d : Descriptor) (v : Value ω) : Bool :=
  match v with
  | .ulong code => decide (d.code = some code)
  | .symbol name => decide (d.name = name)
  | _ => false

/-- Tag a body with this descriptor. -/
def describe (d : Descriptor) (body : Value ω) : Value ω := .described d.toValue body

/-- The name, followed by the code if there is one. -/
def text (d : Descriptor) : String :=
  match d.code with
  | some code => d.name ++ "(0x" ++ Hex.ofNat code.toNat ++ ")"
  | none => d.name

/-- A descriptor admits the value that it is written as. -/
theorem admits_toValue (d : Descriptor) : d.admits (d.toValue : Value ω) = true := by
  obtain ⟨name, _ | code⟩ := d <;> simp [admits, toValue]

end Descriptor

end SelfDescribing
