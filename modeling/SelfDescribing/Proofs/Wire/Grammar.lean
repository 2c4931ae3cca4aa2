import SelfDescribing.Wire.Format
import SelfDescribing.Proofs.Bytes

namespace SelfDescribing.Wire

/-!
# The grammar of the binary format

What the format says about bytes, without saying how they are read or written.

* `Scalar bytes v` — `bytes` are one of the written forms of a value without parts.  The list
  without items has such a form as well.
* `Derives bytes v k` — `bytes` are one of the written forms of `v`, and described values, lists
  and maps nest `k` levels deep in that form.  A list or map with a size counts as a level also
  where it is empty.
* `Elements bytes items k` — written forms of some values, one after the other.

A value may have several written forms: numbers, lengths and sizes that fit one byte may also be
written wide.
-/

variable {ω : Type}

/-- The code of a form that comes narrow and wide. -/
def Width.code (narrow wide : UInt8) : Width → UInt8
  | .narrow => narrow
  | .wide => wide

/-- One more than the largest number that a size of this width can say. -/
def Width.bound (w : Width) : Nat := 256 ^ w.size

/-- Bytes after their length. -/
def Width.counted (w : Width) (narrow wide : UInt8) (bytes : List UInt8) : List UInt8 :=
  w.code narrow wide :: (bigEndian w.size bytes.length ++ bytes)

/-- The bytes of some elements after their size, which covers the count, and their count. -/
def Width.sized (w : Width) (narrow wide : UInt8) (count : Nat) (body : List UInt8) :
    List UInt8 :=
  w.code narrow wide ::
    (bigEndian w.size (w.size + body.length) ++ (bigEndian w.size count ++ body))

/-- The keys and values of a map, one after the other. -/
def keysAndValues (entries : List (Value ω × Value ω)) : List (Value ω) :=
  entries.flatMap fun (k, v) => [k, v]

/-- The written forms of values without parts. -/
inductive Scalar : List UInt8 → Value ω → Prop
  | null : Scalar [0x40] .null
  | yes : Scalar [0x41] (.bool true)
  | no : Scalar [0x42] (.bool false)
  | uintZero : Scalar [0x43] (.uint 0)
  | ulongZero : Scalar [0x44] (.ulong 0)
  | emptyList : Scalar [0x45] (.list [])
  | ubyte (n : UInt8) : Scalar [0x50, n] (.ubyte n)
  | byte (n : Int8) : Scalar [0x51, n.toUInt8] (.byte n)
  | smallUint (n : UInt8) : Scalar [0x52, n] (.uint n.toUInt32)
  | smallUlong (n : UInt8) : Scalar [0x53, n] (.ulong n.toUInt64)
  | smallInt (n : Int8) : Scalar [0x54, n.toUInt8] (.int n.toInt32)
  | smallLong (n : Int8) : Scalar [0x55, n.toUInt8] (.long n.toInt64)
  | ushort (n : UInt16) : Scalar (0x60 :: bigEndian 2 n.toNat) (.ushort n)
  | short (n : Int16) : Scalar (0x61 :: bigEndian 2 n.toUInt16.toNat) (.short n)
  | uint (n : UInt32) : Scalar (0x70 :: bigEndian 4 n.toNat) (.uint n)
  | int (n : Int32) : Scalar (0x71 :: bigEndian 4 n.toUInt32.toNat) (.int n)
  | float (bits : UInt32) : Scalar (0x72 :: bigEndian 4 bits.toNat) (.float bits)
  | char (c : Char) : Scalar (0x73 :: bigEndian 4 c.toNat) (.char c)
  | ulong (n : UInt64) : Scalar (0x80 :: bigEndian 8 n.toNat) (.ulong n)
  | long (n : Int64) : Scalar (0x81 :: bigEndian 8 n.toUInt64.toNat) (.long n)
  | double (bits : UInt64) : Scalar (0x82 :: bigEndian 8 bits.toNat) (.double bits)
  | timestamp (ms : Int64) : Scalar (0x83 :: bigEndian 8 ms.toUInt64.toNat) (.timestamp ms)
  | binary (w : Width) (bytes : List UInt8) (fits : bytes.length < w.bound) :
      Scalar (w.counted 0xa0 0xb0 bytes) (.binary bytes)
  | string (w : Width) (s : String) (fits : (utf8Bytes s).length < w.bound) :
      Scalar (w.counted 0xa1 0xb1 (utf8Bytes s)) (.string s)
  | symbol (w : Width) (s : String) (fits : (utf8Bytes s).length < w.bound) :
      Scalar (w.counted 0xa3 0xb3 (utf8Bytes s)) (.symbol s)

mutual

/-- The written forms of values, with the levels of nesting in them. -/
inductive Derives : List UInt8 → Value ω → Nat → Prop
  | scalar {bytes v} : Scalar bytes v → Derives bytes v 0
  | described {front back d b j k} : Derives front d j → Derives back b k →
      Derives (0x00 :: (front ++ back)) (.described d b) (max j k + 1)
  | list (w : Width) {body items k} : Elements body items k →
      w.size + body.length < w.bound → items.length < w.bound →
      Derives (w.sized 0xc0 0xd0 items.length body) (.list items) (k + 1)
  | map (w : Width) {body entries k} : Elements body (keysAndValues entries) k →
      w.size + body.length < w.bound → (keysAndValues entries).length < w.bound →
      Derives (w.sized 0xc1 0xd1 (keysAndValues entries).length body) (.map entries) (k + 1)

/-- The written forms of some values, one after the other. -/
inductive Elements : List UInt8 → List (Value ω) → Nat → Prop
  | nil : Elements [] [] 0
  | cons {front back v items j k} : Derives front v j → Elements back items k →
      Elements (front ++ back) (v :: items) (max j k)

end

/-- A map has twice as many elements as entries. -/
theorem length_keysAndValues (entries : List (Value ω × Value ω)) :
    (keysAndValues entries).length = 2 * entries.length := by
  induction entries with
  | nil => rfl
  | cons e rest ih =>
    simp only [keysAndValues, List.flatMap_cons, List.length_append, List.length_cons,
      List.length_nil] at ih ⊢
    omega

end SelfDescribing.Wire
