import SelfDescribing.Schema.WellKnown
import SelfDescribing.Names

namespace SelfDescribing

/-!
# Schemas as values

A schema travels through the same encoder as the data that it describes: `Schema.toValue` and
`Schema.ofValue` turn it into a tree of described lists and back, and so do the functions of the
same names for its parts.
-/

variable {ω : Type}

/-! ### Writing -/

/-- A text that may be missing. -/
def optionalText : Option String → Value ω
  | some s => .string s
  | none => .null

/-- A list of texts. -/
def textList (texts : List String) : Value ω := .list (texts.map .string)

/-- The part of a schema that tells a descriptor. -/
def Descriptor.toEntry (d : Descriptor) : Value ω :=
  WellKnown.objectDescriptor.describe
    [.symbol d.name, Value.ofOption (d.code.map .ulong)]

/-- The part of a schema that tells a field. -/
def Field.toValue (f : Field) : Value ω :=
  WellKnown.field.describe [.string f.name, .string f.type, .bool f.mandatory]

/-- The part of a schema that tells a type. -/
def TypeNotation.toValue : TypeNotation → Value ω
  | .composite c => WellKnown.compositeType.describe
      [.string c.name, optionalText c.label, textList c.provides, c.descriptor.toEntry,
        .list (c.fields.map Field.toValue)]
  | .restricted r => WellKnown.restrictedType.describe
      [.string r.name, optionalText r.label, textList r.provides, .string r.source,
        r.descriptor.toEntry]

/-- A schema as a value. -/
def Schema.toValue (s : Schema) : Value ω :=
  WellKnown.schema.describe [.list (s.types.map TypeNotation.toValue)]

/-! ### Reading -/

/-- A text. -/
def Value.toText : Value ω → Except Error String
  | .string s => .ok s
  | v => .error (v.unexpected "string")

/-- A text or null. -/
def Value.toOptionalText : Value ω → Except Error (Option String)
  | .null => .ok none
  | .string s => .ok (some s)
  | v => .error (v.unexpected "string or null")

/-- A list of texts. -/
def Value.toTexts (v : Value ω) : Except Error (List String) := do
  (← v.toItems "string list").mapM Value.toText

/-- The next item of a schema's list, and the items after it. -/
def nextItem : List (Value ω) → Except Error (Value ω × List (Value ω))
  | v :: rest => .ok (v, rest)
  | [] => .error (.malformed .schemaListTooShort)

variable [LiveObject ω]

/-- Read a descriptor.  The code may be left out, and items after it are not looked at. -/
def Descriptor.ofEntry (v : Value ω) : Except Error Descriptor := do
  let (head, rest) ← nextItem (← WellKnown.objectDescriptor.undescribe v)
  let name ← match head with
    | .symbol name => pure name
    | other => throw (.malformed (.partKind "descriptor name" other.kind))
  let code ← match rest with
    | [] | .null :: _ => pure none
    | .ulong code :: _ => pure (some code)
    | other :: _ => throw (.malformed (.partKind "descriptor code" other.kind))
  return ⟨name, code⟩

/-- Read a field. -/
def Field.ofValue (v : Value ω) : Except Error Field := do
  match ← WellKnown.field.undescribe v with
  | [name, type, mandatory] =>
    let name ← name.toText
    let type ← type.toText
    match mandatory with
    | .bool b => return ⟨name, type, b⟩
    | other => throw (.malformed (.partKind "field mandatory flag" other.kind))
  | items => throw (.malformed (.itemCount "field" items.length 3))

/-- Read a composite type; its fields must have distinct names. -/
def CompositeType.ofBody (body : Value ω) : Except Error CompositeType := do
  match ← body.toItems "composite type" with
  | [name, label, provides, descriptor, fields] =>
    let name ← name.toText
    let label ← label.toOptionalText
    let provides ← provides.toTexts
    let descriptor ← Descriptor.ofEntry descriptor
    let fields ← (← fields.toItems "fields").mapM Field.ofValue
    match firstRepeat? (fields.map (·.name)) with
    | some field => throw (.malformed (.repeatedField name field))
    | none => return ⟨name, label, provides, descriptor, fields⟩
  | items => throw (.malformed (.itemCount "composite type" items.length 5))

/-- Read a restricted type. -/
def RestrictedType.ofBody (body : Value ω) : Except Error RestrictedType := do
  match ← body.toItems "restricted type" with
  | [name, label, provides, source, descriptor] =>
    let name ← name.toText
    let label ← label.toOptionalText
    let provides ← provides.toTexts
    let source ← source.toText
    let descriptor ← Descriptor.ofEntry descriptor
    return ⟨name, label, provides, source, descriptor⟩
  | items => throw (.malformed (.itemCount "restricted type" items.length 5))

/-- Read what a schema tells about a type. -/
def TypeNotation.ofValue (v : Value ω) : Except Error TypeNotation := do
  let (descriptor, body) ← v.toDescribed "type notation"
  if WellKnown.compositeType.descriptor.admits descriptor then
    return .composite (← CompositeType.ofBody body)
  else if WellKnown.restrictedType.descriptor.admits descriptor then
    return .restricted (← RestrictedType.ofBody body)
  else
    throw (.malformed (.unknownDescription descriptor.text))

/-- Read a schema.  Items after the list of types are not looked at. -/
def Schema.ofValue (v : Value ω) : Except Error Schema := do
  let (types, _) ← nextItem (← WellKnown.schema.undescribe v)
  return ⟨← (← types.toItems "schema types").mapM TypeNotation.ofValue⟩

end SelfDescribing
