import SelfDescribing.Value.Basic
import SelfDescribing.Json.Basic

namespace SelfDescribing.Value

/-!
# Values as JSON

A view of a value for display.  Kinds that JSON does not have become objects with one member, and
maps become lists of pairs, since their keys need not be strings.
-/

/-- The bits of a 32-bit floating-point number as a 64-bit one; every 32-bit number is one. -/
def widen (bits : UInt32) : UInt64 :=
  let negative := bits.toNat >>> 31
  let exponent := (bits.toNat >>> 23) % 0x100
  let fraction := bits.toNat % 0x800000
  let fields : Nat × Nat :=
    if exponent = 255 then (2047, fraction <<< 29)
    else if exponent ≠ 0 then (exponent + 896, fraction <<< 29)
    else if fraction = 0 then (0, 0)
    else
      -- The leading one of the fraction moves in front of the point.
      let top := fraction.log2
      (top + 874, (fraction <<< (52 - top)) - (1 <<< 52))
  UInt64.ofNat ((negative <<< 63) + (fields.1 <<< 52) + fields.2)

variable {ω : Type} [LiveObject ω]

mutual

/-- A value as JSON. -/
def toJson : Value ω → Json
  | null => .null
  | bool b => .bool b
  | ubyte n => .int n.toNat
  | ushort n => .int n.toNat
  | uint n => .int n.toNat
  | ulong n => .int n.toNat
  | byte n => .int n.toInt
  | short n => .int n.toInt
  | int n => .int n.toInt
  | long n => .int n.toInt
  | float bits => .double (widen bits)
  | double bits => .double bits
  | char c => .string c.toString
  | timestamp ms => .object [("timestamp", .int ms.toInt)]
  | binary bytes => .object [("binary", .string (Hex.encode bytes))]
  | string s => .string s
  | symbol s => .object [("symbol", .string s)]
  | list items => .array (itemsToJson items)
  | map entries => .array (entriesToJson entries)
  | described descriptor body =>
      .object [("descriptor", toJson descriptor), ("value", toJson body)]
  | live object => .object [("instance", .string (LiveObject.hostType object).name)]

/-- The items of a list as JSON. -/
def itemsToJson : List (Value ω) → List Json
  | [] => []
  | v :: rest => toJson v :: itemsToJson rest

/-- The entries of a map as pairs. -/
def entriesToJson : List (Value ω × Value ω) → List Json
  | [] => []
  | (k, v) :: rest => .array [toJson k, toJson v] :: entriesToJson rest

end

end SelfDescribing.Value
