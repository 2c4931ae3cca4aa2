import SelfDescribing.Wire.Format
import SelfDescribing.Text.Utf8

namespace SelfDescribing.Wire

/-!
# Reading

A `Cursor` is a place in a byte string together with how deep the reader is in described values,
lists and maps, and how deep it may go.  A failed step leaves the cursor where it was when it
failed, depth included, and the cursor may be used on.

* `Cursor.take` — some raw bytes.
* `Cursor.read` — one value with everything in it.

A list or map announces its size and count.  The size is checked against the bytes that are left
before any element is read and against the end of the last element afterwards; in between, an
element is bounded only by the whole input.
-/

/-- A place in a byte string, and how deep the reader is nested there. -/
structure Cursor where
  /-- The bytes from here on. -/
  rest : List UInt8
  /-- How many bytes are behind. -/
  position : Nat
  /-- How many described values, lists and maps are open. -/
  depth : Nat
  /-- How many may be open. -/
  limit : Nat

/-- A step of reading. -/
abbrev Reader (α : Type) : Type := EStateM Error Cursor α

namespace Cursor

/-- The nesting limit where none is given. -/
def defaultLimit : Nat := 64

/-- The start of a byte string. -/
def start (bytes : List UInt8) (limit : Nat) : Cursor := ⟨bytes, 0, 0, limit⟩

/-- How many bytes are left. -/
def remaining (c : Cursor) : Nat := c.rest.length

/-- Whether all bytes are read. -/
def atEnd (c : Cursor) : Bool := c.rest.isEmpty

/-- Whether `n` bytes are left; looks at no more than these. -/
def has (n : Nat) (bytes : List UInt8) : Bool :=
  match n, bytes with
  | 0, _ => true
  | _ + 1, [] => false
  | n + 1, _ :: rest => has n rest

/-- Looking for the first `n` bytes is comparing lengths. -/
theorem has_iff {n : Nat} {bytes : List UInt8} : has n bytes = true ↔ n ≤ bytes.length := by
  induction n generalizing bytes with
  | zero => simp [has]
  | succ n ih => cases bytes <;> simp [has, ih]

/-- Fail where fewer than `requested` bytes are left. -/
def tooShort {α : Type} (requested : Nat) : Reader α := fun c =>
  .error (.bufferTooShort requested c.remaining c.position) c

/-- The next `n` bytes. -/
def take (n : Nat) : Reader (List UInt8) := fun c =>
  if has n c.rest then
    .ok (c.rest.take n) { c with rest := c.rest.drop n, position := c.position + n }
  else tooShort n c

/-- The next number of `width` bytes. -/
def readNumber (width : Nat) : Reader Nat := return ofBigEndian (← take width)

/-- The next byte. -/
def readByte : Reader UInt8 := return UInt8.ofNat (← readNumber 1)

/-- The text in the next `length` bytes, of a value that started at `start`. -/
def readText (length start : Nat) : Reader String := do
  let bytes ← take length
  match String.fromUTF8? bytes.toByteArray with
  | some s => return s
  | none => throw (.malformed (.invalidUtf8 start ((Utf8.fault bytes).getD ⟨0, none⟩)))

/-- Step into a described value, list or map. -/
def enter : Reader Unit := fun c =>
  if c.depth < c.limit then .ok () { c with depth := c.depth + 1 }
  else .error (.depthExceeded c.limit) c

/-- Step out again. -/
def leave : Reader Unit := modify fun c => { c with depth := c.depth - 1 }

variable {ω : Type}

/-- Read `left` of the `count` elements of the list or map that started at `start` and should end
at `finish`. -/
def readElements (read : Reader (Value ω)) (start finish count : Nat) :
    (left : Nat) → Reader (List (Value ω))
  | 0 => return []
  | left + 1 => do
    if finish ≤ (← get).position then throw (.malformed (.endsEarly start count))
    let v ← read
    return v :: (← readElements read start finish count left)

/-- The elements of the list or map that started at `start`, after their size and count. -/
def readCompound (read : Reader (Value ω)) (width : Width) (start : Nat) :
    Reader (List (Value ω)) := do
  let size ← readNumber width.size
  let c ← get
  if size < width.size || !has size c.rest then tooShort (max size width.size)
  let finish := c.position + size
  let count ← readNumber width.size
  enter
  let items ← readElements read start finish count count
  leave
  let c ← get
  if c.position ≠ finish then throw (.malformed (.sizeMismatch start size c.position))
  return items

/-- Elements two by two, a last odd one left out. -/
def pairs : List (Value ω) → List (Value ω × Value ω)
  | k :: v :: rest => (k, v) :: pairs rest
  | _ => []

/-- The value with a given code that started at `start`; `read` reads the values in it. -/
def readBody (read : Reader (Value ω)) (start : Nat) : Code → Reader (Value ω)
  | .described => do
    enter
    let descriptor ← read
    let body ← read
    leave
    return .described descriptor body
  | .fixed code => do
    let n ← readNumber code.size
    match code.value? n with
    | some v => return v
    | none => throw (.malformed (.invalidChar n start))
  | .binary width => do return .binary (← take (← readNumber width.size))
  | .string width => do return .string (← readText (← readNumber width.size) start)
  | .symbol width => do return .symbol (← readText (← readNumber width.size) start)
  | .list width => do return .list (← readCompound read width start)
  | .map width => do
    let items ← readCompound read width start
    if items.length % 2 ≠ 0 then throw (.malformed (.oddMap start items.length))
    return .map (pairs items)

/-- Read a value, given a reader for the values inside it. -/
def readWith (read : Reader (Value ω)) : Reader (Value ω) := do
  let start := (← get).position
  let b ← readByte
  match Code.ofByte? b with
  | some code => readBody read start code
  | none => throw (.invalidFormatCode b start)

/-- Read a value with at most `room` more levels inside.  Entering a level already fails where the
limit is reached, so a reader with no room left is never asked for a value. -/
def readWithin : (room : Nat) → Reader (Value ω)
  | 0 => readWith fun c => .error (.depthExceeded c.limit) c
  | room + 1 => readWith (readWithin room)

/-- Read one value with everything in it. -/
def read : Reader (Value ω) := fun c => readWithin (c.limit - c.depth) c

end Cursor

end SelfDescribing.Wire
