import SelfDescribing.Schema.Basic
import SelfDescribing.Json.Document

namespace SelfDescribing

/-!
# Schemas from JSON

Reads the document that `Schema.toJson` writes.  Members may come in any order, unknown ones are
passed over, known ones may not repeat, and a label or code that is left out is null.  A record
may also be an array of its members' values in order, with none left out.
-/

namespace Json.Document

/-- How deep arrays and objects may nest. -/
def depthLimit : Nat := 127

/-- A text. -/
def text? : Document → Option String
  | string text => text
  | _ => none

/-- A text or null. -/
def optionalText? : Document → Option (Option String)
  | null => some none
  | d => d.text?.map some

/-- A code or null. -/
def optionalCode? : Document → Option (Option UInt64)
  | null => some none
  | natural n => some (some n)
  | _ => none

/-- A truth value. -/
def flag? : Document → Option Bool
  | bool b => some b
  | _ => none

/-- An array. -/
def items? : Document → Option (List Document)
  | array items => some items
  | _ => none

/-- An array of texts. -/
def texts? (d : Document) : Option (List String) := do (← d.items?).mapM text?

/-- The member of a name, which must be there once. -/
def member? (members : List (Option String × Document)) (name : String) : Option Document :=
  match members.filter (fun m => m.1 == some name) with
  | [m] => some m.2
  | _ => none

/-- The member of a name, which may be there once, or null. -/
def optionalMember? (members : List (Option String × Document)) (name : String) :
    Option Document :=
  match members.filter (fun m => m.1 == some name) with
  | [] => some null
  | [m] => some m.2
  | _ => none

/-- The values of a record: of the members that must be there and of those that may be. -/
def record? (fields : List (String × Bool)) : Document → Option (List Document)
  | object members => fields.mapM fun (name, required) =>
      if required then member? members name else optionalMember? members name
  | array items => if items.length = fields.length then some items else none
  | _ => none

end Json.Document

open Json (Document)

/-- Read a descriptor. -/
def Descriptor.ofJson? (d : Document) : Option Descriptor := do
  match ← d.record? [("name", true), ("code", false)] with
  | [name, code] => return ⟨← name.text?, ← code.optionalCode?⟩
  | _ => none

/-- Read a field. -/
def Field.ofJson? (d : Document) : Option Field := do
  match ← d.record? [("name", true), ("type", true), ("mandatory", true)] with
  | [name, type, mandatory] => return ⟨← name.text?, ← type.text?, ← mandatory.flag?⟩
  | _ => none

/-- Read a composite type. -/
def CompositeType.ofJson? (d : Document) : Option CompositeType := do
  match ← d.record?
      [("name", true), ("label", false), ("provides", true), ("descriptor", true),
        ("fields", true)] with
  | [name, label, provides, descriptor, fields] =>
    return ⟨← name.text?, ← label.optionalText?, ← provides.texts?,
      ← Descriptor.ofJson? descriptor, ← (← fields.items?).mapM Field.ofJson?⟩
  | _ => none

/-- Read a restricted type. -/
def RestrictedType.ofJson? (d : Document) : Option RestrictedType := do
  match ← d.record?
      [("name", true), ("label", false), ("provides", true), ("source", true),
        ("descriptor", true)] with
  | [name, label, provides, source, descriptor] =>
    return ⟨← name.text?, ← label.optionalText?, ← provides.texts?, ← source.text?,
      ← Descriptor.ofJson? descriptor⟩
  | _ => none

/-- Read a type, given its kind. -/
def TypeNotation.ofKind? (kind : String) (d : Document) : Option TypeNotation :=
  match kind with
  | "composite" => (CompositeType.ofJson? d).map .composite
  | "restricted" => (RestrictedType.ofJson? d).map .restricted
  | _ => none

/-- Read a type: its kind is the member `kind`, or the first item. -/
def TypeNotation.ofJson? (d : Document) : Option TypeNotation :=
  match d with
  | .object members => do
    let kind ← Document.member? members "kind"
    ofKind? (← kind.text?) (.object (members.filter (fun m => m.1 != some "kind")))
  | .array (kind :: items) => do ofKind? (← kind.text?) (.array items)
  | _ => none

/-- Read the types of a schema; all of it must be sound, and it must not nest too deep. -/
def Schema.ofTypes? (d : Document) : Option Schema := do
  if d.isSound && decide (d.depth < Document.depthLimit) then
    return ⟨← (← d.items?).mapM TypeNotation.ofJson?⟩
  else none

/-- Read the text of a schema.  What is passed over beside the types is not looked into. -/
def Schema.ofJsonText? (text : String) : Option Schema := do
  match ← Document.parse text with
  | .object members =>
    if members.all (fun m => m.1.isSome) then
      Schema.ofTypes? (← Document.member? members "types")
    else none
  | .array [types] => Schema.ofTypes? types
  | _ => none

end SelfDescribing
