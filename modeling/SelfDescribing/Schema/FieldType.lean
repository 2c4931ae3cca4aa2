import SelfDescribing.Text.Blank
import SelfDescribing.Text.Quoted

namespace SelfDescribing

/-!
# Field types

The declared type of a field, property or constructor parameter, and its text in a schema.

* `Primitive` — the types of values without parts, each with its name.
* `FieldType` — a primitive, a list, any value (`*`), or a registered type by name.
* `FieldType.text`, `FieldType.parse` — the text of a type, and reading it.  A text that is no
  primitive, list or `*` is taken as the name of a registered type, so every text can be read.
-/

/-- The types of values without parts. -/
inductive Primitive where
  | boolean | byte | short | int | long | ubyte | ushort | uint | ulong
  | float | double | char | timestamp | string | symbol | binary
deriving DecidableEq

namespace Primitive

/-- The name of a primitive in a schema. -/
def name : Primitive → String
  | boolean => "boolean"
  | byte => "byte"
  | short => "short"
  | int => "int"
  | long => "long"
  | ubyte => "ubyte"
  | ushort => "ushort"
  | uint => "uint"
  | ulong => "ulong"
  | float => "float"
  | double => "double"
  | char => "char"
  | timestamp => "timestamp"
  | string => "string"
  | symbol => "symbol"
  | binary => "binary"

/-- The name of a primitive in diagnostics. -/
def label : Primitive → String
  | boolean => "Boolean"
  | byte => "Byte"
  | short => "Short"
  | int => "Int"
  | long => "Long"
  | ubyte => "UByte"
  | ushort => "UShort"
  | uint => "UInt"
  | ulong => "ULong"
  | float => "Float"
  | double => "Double"
  | char => "Char"
  | timestamp => "Timestamp"
  | string => "String"
  | symbol => "Symbol"
  | binary => "Binary"

/-- Every primitive. -/
def all : List Primitive :=
  [boolean, byte, short, int, long, ubyte, ushort, uint, ulong, float, double, char, timestamp,
    string, symbol, binary]

/-- The primitive with a given name. -/
def ofName? (s : String) : Option Primitive := all.find? (fun p => decide (p.name = s))

/-- The table lists every primitive type. -/
theorem mem_all (p : Primitive) : p ∈ all := by cases p <;> decide

end Primitive

/-- The declared type of a field, property or constructor parameter. -/
inductive FieldType where
  | primitive (p : Primitive)
  /-- A list whose items all have one type. -/
  | list (element : FieldType)
  /-- Any value; what it is at run time decides how it is encoded. -/
  | any
  /-- A registered type, by name. -/
  | named (name : String)
deriving DecidableEq

namespace FieldType

/-- The text of a type as a schema records it. -/
def text : FieldType → String
  | primitive p => p.name
  | list element => "list<" ++ element.text ++ ">"
  | any => "*"
  | named name => name

/-- Whether a type is one of the primitives. -/
def isPrimitive : FieldType → Bool
  | primitive _ => true
  | _ => false

/-- The text between `list<` and `>`, if these enclose the whole text. -/
def listElement? (cs : List Char) : Option (List Char) :=
  match cs with
  | 'l' :: 'i' :: 's' :: 't' :: '<' :: rest =>
    if rest.getLast? = some '>' then some rest.dropLast else none
  | _ => none

/-- What stands between the brackets is shorter than with them, so that reading nested lists ends.
-/
theorem length_listElement? {cs inner : List Char} (h : listElement? cs = some inner) :
    inner.length < cs.length := by
  unfold listElement? at h
  split at h
  · split at h
    · simp only [Option.some.injEq] at h
      subst h
      simp only [List.length_dropLast, List.length_cons]
      omega
    · simp at h
  · simp at h

/-- Read the text of a type, blanks around it left out at every level. -/
def parseChars (cs : List Char) : FieldType :=
  let trimmed := trimBlanks cs
  if trimmed = ['*'] then any
  else match _h : listElement? trimmed with
    | some inner => list (parseChars inner)
    | none =>
      match Primitive.ofName? (String.ofList trimmed) with
      | some p => primitive p
      | none => named (String.ofList trimmed)
termination_by cs.length
decreasing_by exact Nat.lt_of_lt_of_le (length_listElement? _h) (length_trimBlanks_le cs)

/-- Read the text of a type. -/
def parse (s : String) : FieldType := parseChars s.toList

/-- The text of a type in diagnostics. -/
def diagnostic : FieldType → String
  | primitive p => p.label
  | list element => "List(" ++ element.diagnostic ++ ")"
  | any => "Any"
  | named name => "Named(" ++ Quoted.string name ++ ")"

/-- The text of a type with a question mark where null is allowed. -/
def textWith (t : FieldType) (nullable : Bool) : String := t.text ++ if nullable then "?" else ""

end FieldType

end SelfDescribing
