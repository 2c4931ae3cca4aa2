import SelfDescribing.Decimal.Layout
import SelfDescribing.Text.Hex

namespace SelfDescribing

/-!
# JSON texts

* `Json` — JSON documents whose objects keep the order of their members.
* `Json.compact`, `Json.pretty` — the document without blanks, and with one item a line, indented
  by two blanks a level.
-/

/-- A JSON document. -/
inductive Json where
  | null
  | bool (b : Bool)
  | int (n : Int)
  /-- A number given by the bits of a 64-bit floating-point number. -/
  | double (bits : UInt64)
  | string (s : String)
  | array (items : List Json)
  | object (members : List (String × Json))

namespace Json

/-- Numbers are positional from a hundred-thousandth up to below ten to the sixteenth. -/
def numberLayout : Layout := ⟨.toEven, -5, 16, true⟩

/-- A number; what is no finite number is null. -/
def number (f : BinaryFormat) (bits : Nat) : String :=
  (numberLayout.render? f bits).getD "null"

/-- A character between quotes. -/
def escape (c : Char) : List Char :=
  if c = '"' ∨ c = '\\' then ['\\', c]
  else if c = '\x08' then ['\\', 'b']
  else if c = '\x0c' then ['\\', 'f']
  else if c = '\n' then ['\\', 'n']
  else if c = '\r' then ['\\', 'r']
  else if c = '\t' then ['\\', 't']
  else if c.toNat < 0x20 then ['\\', 'u', '0', '0'] ++ Hex.byte (UInt8.ofNat c.toNat)
  else [c]

/-- A string between quotes. -/
def quote (s : String) : String := String.ofList ('"' :: s.toList.flatMap escape ++ ['"'])

mutual

/-- The text without blanks. -/
def compact : Json → String
  | null => "null"
  | bool b => toString b
  | int n => toString n
  | double bits => number .double bits.toNat
  | string s => quote s
  | array items => "[" ++ ",".intercalate (compactItems items) ++ "]"
  | object members => "\x7b" ++ ",".intercalate (compactMembers members) ++ "\x7d"

/-- The texts of the items of an array. -/
def compactItems : List Json → List String
  | [] => []
  | item :: rest => compact item :: compactItems rest

/-- The texts of the members of an object. -/
def compactMembers : List (String × Json) → List String
  | [] => []
  | (name, item) :: rest => (quote name ++ ":" ++ compact item) :: compactMembers rest

end

/-- A new line at a level of indentation. -/
def newline (level : Nat) : String := String.ofList ('\n' :: List.replicate (2 * level) ' ')

/-- Parts between brackets, one a line, the closing bracket at `level`. -/
def block (opening closing : String) (level : Nat) (parts : List String) : String :=
  if parts.isEmpty then opening ++ closing
  else opening ++ newline (level + 1) ++ ("," ++ newline (level + 1)).intercalate parts
    ++ newline level ++ closing

mutual

/-- The text with one item a line, the first line being at `level`. -/
def prettyAt (level : Nat) : Json → String
  | null => "null"
  | bool b => toString b
  | int n => toString n
  | double bits => number .double bits.toNat
  | string s => quote s
  | array items => block "[" "]" level (prettyItems (level + 1) items)
  | object members => block "\x7b" "\x7d" level (prettyMembers (level + 1) members)

/-- The texts of the items of an array at `level`. -/
def prettyItems (level : Nat) : List Json → List String
  | [] => []
  | item :: rest => prettyAt level item :: prettyItems level rest

/-- The texts of the members of an object at `level`. -/
def prettyMembers (level : Nat) : List (String × Json) → List String
  | [] => []
  | (name, item) :: rest =>
      (quote name ++ ": " ++ prettyAt level item) :: prettyMembers level rest

end

/-- The text with one item a line. -/
def pretty (j : Json) : String := prettyAt 0 j

end Json

end SelfDescribing
