import SelfDescribing.Decimal.Fixed
import SelfDescribing.Json.Token

namespace SelfDescribing.Json

/-!
# JSON documents

`Document.parse` reads the tree of a JSON text.  Of numbers it tells the natural ones that fit 64
bits; of all others only whether they are too large for a 64-bit floating-point number.  Reading
is one pass over the tokens with a stack of the arrays and objects that are open, so the depth of
a text is no limit.
-/

/-- The tree of a JSON text. -/
inductive Document where
  | null
  | bool (b : Bool)
  /-- A natural number below two to the 64th. -/
  | natural (n : UInt64)
  /-- Any other number. -/
  | number (tooLarge : Bool)
  /-- A string, with its text if it has one. -/
  | string (text : Option String)
  | array (items : List Document)
  | object (members : List (Option String × Document))

/-! ### Numbers -/

/-- The digits in front of a list and what follows them. -/
def splitDigits (cs : List Char) : List Char × List Char :=
  (cs.takeWhile Char.isDigit, cs.dropWhile Char.isDigit)

/-- The number with the given digits. -/
def ofDigits (digits : List Char) : Nat := digits.foldl (fun n c => 10 * n + (c.toNat - 48)) 0

/-- The exponent of a number: what follows `e`, or nothing. -/
def exponent? : List Char → Option Int
  | [] => some 0
  | e :: rest =>
    if e ≠ 'e' ∧ e ≠ 'E' then none
    else
      let (negative, digits) : Bool × List Char := match rest with
        | '-' :: digits => (true, digits)
        | '+' :: digits => (false, digits)
        | digits => (false, digits)
      if digits.isEmpty || !digits.all Char.isDigit then none
      else some (if negative then Int.neg (ofDigits digits) else ofDigits digits)

/-- Read on a natural number from its digits, as long as it fits 64 bits; the digits from the first
one that does not fit are left over. -/
def readDigits (n : Nat) : List Char → Nat × List Char
  | [] => (n, [])
  | c :: rest =>
    let next := 10 * n + (c.toNat - 48)
    if next < UInt64.size then readDigits next rest else (n, c :: rest)

/-- The coefficient and the exponent that stand for some digits before and after the point.  What
does not fit the coefficient counts as zeros: before the point it raises the exponent, and after
the point it is as good as absent. -/
def coefficient (whole fraction : List Char) : Nat × Int :=
  let (n, zeros) := readDigits 0 whole
  let (n, rest) := readDigits n fraction
  (n, zeros.length - (fraction.length - rest.length : Nat))

/-- The natural number nearest to `n` that 53 binary digits and a power of two give; of two equally
near ones the even one. -/
def roundToDouble (n : Nat) : Nat :=
  let shift := n.log2 - 52
  roundDiv n (1 <<< shift) <<< shift

/-- Whether a coefficient and a power of ten, both as 64-bit floating-point numbers, have a product
beyond the largest of these. -/
def isTooLarge (n : Nat) (exponent : Int) : Bool :=
  if n = 0 ∨ exponent < 0 then false
  else if 308 < exponent then true
  else
    let bound : Nat := (1 <<< 1024) - (1 <<< 970)
    decide (bound ≤ roundToDouble n * roundToDouble (Nat.pow 10 exponent.toNat))

/-- The fraction of a number, without its point, and what follows it. -/
def fraction? : List Char → Option (List Char × List Char)
  | '.' :: rest =>
    let (digits, rest) := splitDigits rest
    if digits.isEmpty then none else some (digits, rest)
  | rest => some ([], rest)

/-- A number without its sign. -/
def unsigned? (negative : Bool) (cs : List Char) : Option Document := do
  let (whole, rest) := splitDigits cs
  match whole with
  | [] => none
  | '0' :: _ :: _ => none
  | _ =>
    let n := ofDigits whole
    if rest.isEmpty && !negative && decide (n < UInt64.size) then return .natural (UInt64.ofNat n)
    let (fraction, rest) ← fraction? rest
    let exponent ← exponent? rest
    let (n, scale) := coefficient whole fraction
    return .number (isTooLarge n (scale + exponent))

/-- A number, truth value or null. -/
def word? (s : String) : Option Document :=
  match s with
  | "null" => some .null
  | "true" => some (.bool true)
  | "false" => some (.bool false)
  | _ =>
    match s.toList with
    | '-' :: cs => unsigned? true cs
    | cs => unsigned? false cs

/-! ### Arrays and objects -/

/-- An open array or object with what has been read of it, last one first. -/
inductive Frame where
  | array (read : List Document)
  | object (read : List (Option String × Document)) (name : Option String)

/-- What may come next. -/
inductive Place where
  | value
  /-- A value or, in an array just opened, its end. -/
  | firstItem
  /-- A member's name or, in an object just opened, its end. -/
  | firstName (read : List (Option String × Document))
  | name (read : List (Option String × Document))
  | colon (read : List (Option String × Document)) (name : Option String)
  /-- A comma or the end after a value. -/
  | after (value : Document)

mutual

/-- Read on from a place, inside the open frames. -/
def readAt : Place → List Frame → List Token → Option Document
  | .after d, [], [] => some d
  | .after d, .array read :: frames, .comma :: rest =>
    readAt .value (.array (d :: read) :: frames) rest
  | .after d, .array read :: frames, .closeArray :: rest =>
    readAt (.after (.array (d :: read).reverse)) frames rest
  | .after d, .object read name :: frames, .comma :: rest =>
    readAt (.name ((name, d) :: read)) frames rest
  | .after d, .object read name :: frames, .closeObject :: rest =>
    readAt (.after (.object ((name, d) :: read).reverse)) frames rest
  | .firstItem, .array _ :: frames, .closeArray :: rest =>
    readAt (.after (.array [])) frames rest
  | .firstName _, frames, .closeObject :: rest => readAt (.after (.object [])) frames rest
  | .firstName read, frames, .string name :: rest => readAt (.colon read name) frames rest
  | .name read, frames, .string name :: rest => readAt (.colon read name) frames rest
  | .colon read name, frames, .colon :: rest => readAt .value (.object read name :: frames) rest
  | .value, frames, t :: rest => readValue frames t rest
  | .firstItem, frames, t :: rest => readValue frames t rest
  | _, _, _ => none

/-- Read a value that starts with a token. -/
def readValue (frames : List Frame) : Token → List Token → Option Document
  | .openArray, rest => readAt .firstItem (.array [] :: frames) rest
  | .openObject, rest => readAt (.firstName []) frames rest
  | .string text, rest => readAt (.after (.string text)) frames rest
  | .word s, rest =>
    match word? s with
    | some d => readAt (.after d) frames rest
    | none => none
  | _, _ => none

end

namespace Document

/-- The tree of a text. -/
def parse (text : String) : Option Document := (Token.scan text).bind (readAt .value [])

mutual

/-- How deep arrays and objects nest. -/
def depth : Document → Nat
  | array items => itemsDepth items + 1
  | object members => membersDepth members + 1
  | _ => 0

/-- The deepest nesting of items. -/
def itemsDepth : List Document → Nat
  | [] => 0
  | d :: rest => max (depth d) (itemsDepth rest)

/-- The deepest nesting of members. -/
def membersDepth : List (Option String × Document) → Nat
  | [] => 0
  | (_, d) :: rest => max (depth d) (membersDepth rest)

end

mutual

/-- Whether all strings have texts and no number is too large. -/
def isSound : Document → Bool
  | number tooLarge => !tooLarge
  | string text => text.isSome
  | array items => itemsSound items
  | object members => membersSound members
  | _ => true

/-- Whether all items are sound. -/
def itemsSound : List Document → Bool
  | [] => true
  | d :: rest => isSound d && itemsSound rest

/-- Whether all names and members are sound. -/
def membersSound : List (Option String × Document) → Bool
  | [] => true
  | (name, d) :: rest => name.isSome && isSound d && membersSound rest

end

end Document

end SelfDescribing.Json
