import SelfDescribing.Bytes
import SelfDescribing.Value.Basic

namespace SelfDescribing.Wire

/-!
# The binary format

Every value starts with a one-byte format code, and numbers are big-endian.  Most kinds of values
have codes of a fixed size; binaries, strings, symbols, lists and maps come with sizes of one byte
(`Width.narrow`) or of four (`Width.wide`).

* `FixedCode` — codes followed by a fixed number of bytes, with `FixedCode.value?`, what these
  bytes stand for.
* `Code` — all codes; `Code.toByte` and `Code.ofByte?` are inverse to each other.
-/

/-- How sizes, lengths and counts are written. -/
inductive Width where
  | narrow
  | wide
deriving DecidableEq

/-- The number of bytes of a size. -/
def Width.size : Width → Nat
  | narrow => 1
  | wide => 4

/-- The codes that a fixed number of bytes follows. -/
inductive FixedCode where
  | null | yes | no | uintZero | ulongZero | emptyList
  | ubyte | byte | smallUint | smallUlong | smallInt | smallLong
  | ushort | short
  | uint | int | float | char
  | ulong | long | double | timestamp
deriving DecidableEq

/-- The codes. -/
inductive Code where
  | described
  | fixed (code : FixedCode)
  | binary (width : Width)
  | string (width : Width)
  | symbol (width : Width)
  | list (width : Width)
  | map (width : Width)
deriving DecidableEq

namespace FixedCode

/-- How many bytes follow a code. -/
def size : FixedCode → Nat
  | null | yes | no | uintZero | ulongZero | emptyList => 0
  | ubyte | byte | smallUint | smallUlong | smallInt | smallLong => 1
  | ushort | short => 2
  | uint | int | float | char => 4
  | ulong | long | double | timestamp => 8

/-- The byte of a code. -/
def toByte : FixedCode → UInt8
  | null => 0x40
  | yes => 0x41
  | no => 0x42
  | uintZero => 0x43
  | ulongZero => 0x44
  | emptyList => 0x45
  | ubyte => 0x50
  | byte => 0x51
  | smallUint => 0x52
  | smallUlong => 0x53
  | smallInt => 0x54
  | smallLong => 0x55
  | ushort => 0x60
  | short => 0x61
  | uint => 0x70
  | int => 0x71
  | float => 0x72
  | char => 0x73
  | ulong => 0x80
  | long => 0x81
  | double => 0x82
  | timestamp => 0x83

/-- Every code of a fixed size. -/
def all : List FixedCode :=
  [null, yes, no, uintZero, ulongZero, emptyList, ubyte, byte, smallUint, smallUlong, smallInt,
    smallLong, ushort, short, uint, int, float, char, ulong, long, double, timestamp]

variable {ω : Type}

/-- The value that a code and the number after it stand for; a number that is no Unicode scalar
value is no character. -/
def value? (n : Nat) : FixedCode → Option (Value ω)
  | null => some .null
  | yes => some (.bool true)
  | no => some (.bool false)
  | uintZero => some (.uint 0)
  | ulongZero => some (.ulong 0)
  | emptyList => some (.list [])
  | ubyte => some (.ubyte (UInt8.ofNat n))
  | byte => some (.byte (UInt8.ofNat n).toInt8)
  | smallUint => some (.uint (UInt32.ofNat n))
  | smallUlong => some (.ulong (UInt64.ofNat n))
  | smallInt => some (.int (UInt8.ofNat n).toInt8.toInt32)
  | smallLong => some (.long (UInt8.ofNat n).toInt8.toInt64)
  | ushort => some (.ushort (UInt16.ofNat n))
  | short => some (.short (UInt16.ofNat n).toInt16)
  | uint => some (.uint (UInt32.ofNat n))
  | int => some (.int (UInt32.ofNat n).toInt32)
  | float => some (.float (UInt32.ofNat n))
  | char => if n.isValidChar then some (.char (Char.ofNat n)) else none
  | ulong => some (.ulong (UInt64.ofNat n))
  | long => some (.long (UInt64.ofNat n).toInt64)
  | double => some (.double (UInt64.ofNat n))
  | timestamp => some (.timestamp (UInt64.ofNat n).toInt64)

end FixedCode

namespace Code

/-- The byte of a code. -/
def toByte : Code → UInt8
  | described => 0x00
  | fixed code => code.toByte
  | binary .narrow => 0xa0
  | string .narrow => 0xa1
  | symbol .narrow => 0xa3
  | binary .wide => 0xb0
  | string .wide => 0xb1
  | symbol .wide => 0xb3
  | list .narrow => 0xc0
  | map .narrow => 0xc1
  | list .wide => 0xd0
  | map .wide => 0xd1

/-- Every code. -/
def all : List Code :=
  FixedCode.all.map fixed ++
    [described, binary .narrow, string .narrow, symbol .narrow, binary .wide, string .wide,
      symbol .wide, list .narrow, map .narrow, list .wide, map .wide]

/-- The code with a given byte. -/
def ofByte? (b : UInt8) : Option Code := all.find? (fun c => decide (c.toByte = b))

/-- The table lists every code. -/
theorem mem_all (c : Code) : c ∈ all := by
  cases c with
  | described => decide
  | fixed code => cases code <;> decide
  | binary w | string w | symbol w | list w | map w => cases w <;> decide

/-- No two codes share a byte. -/
theorem ofByte?_toByte (c : Code) : ofByte? c.toByte = some c := by
  cases c with
  | described => decide
  | fixed code => cases code <;> decide
  | binary w | string w | symbol w | list w | map w => cases w <;> decide

/-- The code found for a byte is a code with that byte. -/
theorem toByte_of_ofByte? {b : UInt8} {c : Code} (h : ofByte? b = some c) : c.toByte = b := by
  simpa using List.find?_some h

/-- Codes are found by their bytes and by nothing else. -/
theorem ofByte?_eq_some_iff {b : UInt8} {c : Code} : ofByte? b = some c ↔ c.toByte = b :=
  ⟨toByte_of_ofByte?, fun h => h ▸ ofByte?_toByte c⟩

end Code

end SelfDescribing.Wire
