import SelfDescribing.Value.Basic

namespace SelfDescribing

/-!
# Typed values

Values stand for data of Lean types: `Represented ω α` says how an `α` is written as a value and
read back.  A missing datum is null, and a list of data is a list of values.

* `Value.toBinary`, `Value.toObject`, `Value.toObjects` — taking bytes and live objects out of a
  value.
* `HostView` — a type of the running program whose objects are live objects of one host type.
-/

/-- Data of type `α` can be written as values and read back. -/
class Represented (ω : Type) (α : Type) where
  toValue : α → Value ω
  ofValue : Value ω → Except Error α

export Represented (toValue ofValue)

namespace Represented

variable {ω : Type}

instance : Represented ω Bool where
  toValue := .bool
  ofValue
    | .bool b => .ok b
    | v => .error (v.unexpected "boolean")

instance : Represented ω UInt8 where
  toValue := .ubyte
  ofValue
    | .ubyte n => .ok n
    | v => .error (v.unexpected "ubyte")

instance : Represented ω UInt16 where
  toValue := .ushort
  ofValue
    | .ushort n => .ok n
    | v => .error (v.unexpected "ushort")

instance : Represented ω UInt32 where
  toValue := .uint
  ofValue
    | .uint n => .ok n
    | v => .error (v.unexpected "uint")

instance : Represented ω UInt64 where
  toValue := .ulong
  ofValue
    | .ulong n => .ok n
    | v => .error (v.unexpected "ulong")

instance : Represented ω Int8 where
  toValue := .byte
  ofValue
    | .byte n => .ok n
    | v => .error (v.unexpected "byte")

instance : Represented ω Int16 where
  toValue := .short
  ofValue
    | .short n => .ok n
    | v => .error (v.unexpected "short")

instance : Represented ω Int32 where
  toValue := .int
  ofValue
    | .int n => .ok n
    | v => .error (v.unexpected "int")

instance : Represented ω Int64 where
  toValue := .long
  ofValue
    | .long n => .ok n
    | v => .error (v.unexpected "long")

instance : Represented ω Char where
  toValue := .char
  ofValue
    | .char c => .ok c
    | v => .error (v.unexpected "char")

instance : Represented ω String where
  toValue := .string
  ofValue
    | .string s => .ok s
    | v => .error (v.unexpected "string")

instance : Represented ω (Value ω) where
  toValue v := v
  ofValue v := .ok v

variable {α : Type} [Represented ω α]

instance : Represented ω (Option α) where
  toValue
    | some a => toValue a
    | none => .null
  ofValue
    | .null => .ok none
    | v => (ofValue v).map some

instance : Represented ω (List α) where
  toValue items := .list (items.map toValue)
  ofValue
    | .list items => items.mapM ofValue
    | v => .error (v.unexpected "list")

end Represented

/-- The bits of a 32-bit floating-point number. -/
structure FloatBits where
  bits : UInt32

/-- The bits of a 64-bit floating-point number. -/
structure DoubleBits where
  bits : UInt64

instance {ω : Type} : Represented ω FloatBits where
  toValue x := .float x.bits
  ofValue
    | .float bits => .ok ⟨bits⟩
    | v => .error (v.unexpected "float")

instance {ω : Type} : Represented ω DoubleBits where
  toValue x := .double x.bits
  ofValue
    | .double bits => .ok ⟨bits⟩
    | v => .error (v.unexpected "double")

/-! ### Bytes and live objects -/

/-- The objects of one host type, as data of type `α`. -/
structure HostView (ω α : Type) where
  hostType : HostType
  wrap : α → ω
  view? : ω → Option α

namespace Value

variable {ω α : Type} [LiveObject ω]

/-- The bytes of a binary value. -/
def toBinary : Value ω → Except Error (List UInt8)
  | binary bytes => .ok bytes
  | v => .error (v.unexpected "binary")

/-- A live object as data of the type that the view gives; any other object is of the wrong
type. -/
def downcast (h : HostView ω α) (object : ω) : Except Error α :=
  match h.view? object with
  | some a => .ok a
  | none => .error (.typeMismatch h.hostType.name (LiveObject.hostType object).name)

/-- The live object in a value, as data. -/
def toObject (h : HostView ω α) : Value ω → Except Error α
  | live object => downcast h object
  | v => .error (v.unexpected h.hostType.name)

/-- The live object in a value, or nothing for null. -/
def toOptionalObject (h : HostView ω α) : Value ω → Except Error (Option α)
  | null => .ok none
  | v => (v.toObject h).map some

/-- The live objects in a list. -/
def toObjects (h : HostView ω α) : Value ω → Except Error (List α)
  | list items => items.mapM (toObject h)
  | v => .error (v.unexpected "list")

/-- Data as a live object in a value. -/
def ofObject (h : HostView ω α) (a : α) : Value ω := live (h.wrap a)

end Value

/-- The live objects of one host type, as they are. -/
def HostView.ofHost {ω : Type} [LiveObject ω] (t : HostType) : HostView ω ω where
  hostType := t
  wrap object := object
  view? object := if LiveObject.hostType object = t then some object else none

end SelfDescribing
