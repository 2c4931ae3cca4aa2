import SelfDescribing.Wire.Format

namespace SelfDescribing

/-!
# Encoding

`Value.encode` writes a value in the smallest form that fits.  Writing may fail, at a live object
or at something longer than 32 bits can say, and what was written up to then stays written: a
`Wire.Output` holds the bytes and the failure.  A list or map is written only when all its
elements are, so a failing one leaves nothing of itself; a described value leaves its marker and
all that was written before the failure.
-/

namespace Wire

/-- What an encoder wrote, and why it stopped, if it did. -/
structure Output where
  bytes : List UInt8
  failure : Option Error

namespace Output

/-- Nothing written, no failure. -/
def nothing : Output := ⟨[], none⟩

/-- Bytes written without failure. -/
def ok (bytes : List UInt8) : Output := ⟨bytes, none⟩

/-- A failure that leaves nothing. -/
def fail (e : Error) : Output := ⟨[], some e⟩

/-- Write on, unless there was a failure. -/
def andThen (first : Output) (next : Unit → Output) : Output :=
  match first.failure with
  | some _ => first
  | none =>
    let second := next ()
    ⟨first.bytes ++ second.bytes, second.failure⟩

/-- Bytes in front of what is written. -/
def after (front : List UInt8) (o : Output) : Output := ⟨front ++ o.bytes, o.failure⟩

/-- Wrap what was written if it is complete, and leave nothing of it otherwise. -/
def whole (o : Output) (wrap : List UInt8 → Output) : Output :=
  match o.failure with
  | some e => fail e
  | none => wrap o.bytes

end Output

/-- A code of a fixed size and the number after it. -/
def fixed (code : FixedCode) (n : Nat) : Output :=
  .ok (code.toByte :: bigEndian code.size n)

/-- A length of four bytes, or the failure that it has more. -/
def wideLength (n : Nat) (next : List UInt8 → Output) : Output :=
  if n < 0x100000000 then next (bigEndian 4 n) else .fail (.malformed (.lengthOverflow n))

/-- Bytes after their length. -/
def variableSize (code : Width → Code) (bytes : List UInt8) : Output :=
  if bytes.length < 256 then
    .ok ((code .narrow).toByte :: UInt8.ofNat bytes.length :: bytes)
  else
    -- The marker is out before the length is known to fit.
    .after [(code .wide).toByte] (wideLength bytes.length fun length => .ok (length ++ bytes))

/-- Elements after their size, which covers the count, and their count. -/
def compound (code : Width → Code) (count : Nat) (body : List UInt8) : Output :=
  if body.length + 1 < 256 ∧ count < 256 then
    .ok ((code .narrow).toByte :: UInt8.ofNat (body.length + 1) :: UInt8.ofNat count :: body)
  else
    .after [(code .wide).toByte] (wideLength (body.length + 4) fun size =>
      .after size (wideLength count fun count => .ok (count ++ body)))

end Wire

namespace Value

open Wire

variable {ω : Type} [LiveObject ω]

mutual

/-- Write a value. -/
def encode : Value ω → Output
  | null => fixed .null 0
  | bool true => fixed .yes 0
  | bool false => fixed .no 0
  | ubyte n => fixed .ubyte n.toNat
  | byte n => fixed .byte n.toUInt8.toNat
  | ushort n => fixed .ushort n.toNat
  | short n => fixed .short n.toUInt16.toNat
  | uint n =>
      if n = 0 then fixed .uintZero 0
      else if n < 256 then fixed .smallUint n.toNat
      else fixed .uint n.toNat
  | int n =>
      if -128 ≤ n ∧ n ≤ 127 then fixed .smallInt n.toInt8.toUInt8.toNat
      else fixed .int n.toUInt32.toNat
  | ulong n =>
      if n = 0 then fixed .ulongZero 0
      else if n < 256 then fixed .smallUlong n.toNat
      else fixed .ulong n.toNat
  | long n =>
      if -128 ≤ n ∧ n ≤ 127 then fixed .smallLong n.toInt8.toUInt8.toNat
      else fixed .long n.toUInt64.toNat
  | float bits => fixed .float bits.toNat
  | double bits => fixed .double bits.toNat
  | char c => fixed .char c.toNat
  | timestamp ms => fixed .timestamp ms.toUInt64.toNat
  | binary bytes => variableSize .binary bytes
  | string s => variableSize .string (utf8Bytes s)
  | symbol s => variableSize .symbol (utf8Bytes s)
  | list items =>
      if items.isEmpty then fixed .emptyList 0
      else (encodeItems items).whole (compound .list items.length)
  | map entries => (encodeEntries entries).whole (compound .map (2 * entries.length))
  | described descriptor body =>
      .after [Code.described.toByte] ((encode descriptor).andThen fun _ => encode body)
  | live object => .fail (.malformed (.liveObject (LiveObject.hostType object).name))

/-- Write the items of a list. -/
def encodeItems : List (Value ω) → Output
  | [] => .nothing
  | v :: rest => (encode v).andThen fun _ => encodeItems rest

/-- Write the keys and values of a map. -/
def encodeEntries : List (Value ω × Value ω) → Output
  | [] => .nothing
  | (k, v) :: rest =>
      (encode k).andThen fun _ => (encode v).andThen fun _ => encodeEntries rest

end

mutual

/-- How deep the described values, maps and non-empty lists in the encoding of a value nest. -/
def nesting : Value ω → Nat
  | list items => if items.isEmpty then 0 else itemsNesting items + 1
  | map entries => entriesNesting entries + 1
  | described descriptor body => max (nesting descriptor) (nesting body) + 1
  | _ => 0

/-- The deepest nesting of the items of a list. -/
def itemsNesting : List (Value ω) → Nat
  | [] => 0
  | v :: rest => max (nesting v) (itemsNesting rest)

/-- The deepest nesting of the keys and values of a map. -/
def entriesNesting : List (Value ω × Value ω) → Nat
  | [] => 0
  | (k, v) :: rest => max (max (nesting k) (nesting v)) (entriesNesting rest)

end

end Value

namespace Wire

/-- An encoder that writes values one after the other into a buffer. -/
structure Encoder where
  buffer : List UInt8

namespace Encoder

variable {ω : Type} [LiveObject ω]

/-- An encoder with nothing written. -/
def empty : Encoder := ⟨[]⟩

/-- Write raw bytes. -/
def writeRaw (e : Encoder) (bytes : List UInt8) : Encoder := ⟨e.buffer ++ bytes⟩

/-- Write a value; what was written before a failure stays in the buffer. -/
def write (v : Value ω) : EStateM Error Encoder Unit := fun e =>
  let output := v.encode
  let e := e.writeRaw output.bytes
  match output.failure with
  | none => .ok () e
  | some err => .error err e

end Encoder

end Wire

end SelfDescribing
