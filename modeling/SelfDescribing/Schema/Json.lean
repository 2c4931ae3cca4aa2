import SelfDescribing.Schema.Basic
import SelfDescribing.Json.Basic

namespace SelfDescribing

/-!
# Schemas as JSON

The document of a schema, for other tools to read.
-/

/-- A text or null. -/
def Json.optionalText : Option String → Json
  | some s => .string s
  | none => .null

/-- A descriptor as JSON. -/
def Descriptor.toJson (d : Descriptor) : Json :=
  .object [("name", .string d.name),
    ("code", match d.code with
      | some code => .int code.toNat
      | none => .null)]

/-- A field as JSON. -/
def Field.toJson (f : Field) : Json :=
  .object [("name", .string f.name), ("type", .string f.type), ("mandatory", .bool f.mandatory)]

/-- A type as JSON; the member `kind` comes first. -/
def TypeNotation.toJson : TypeNotation → Json
  | .composite c => .object
      [("kind", .string "composite"), ("name", .string c.name), ("label", .optionalText c.label),
        ("provides", .array (c.provides.map .string)), ("descriptor", c.descriptor.toJson),
        ("fields", .array (c.fields.map Field.toJson))]
  | .restricted r => .object
      [("kind", .string "restricted"), ("name", .string r.name), ("label", .optionalText r.label),
        ("provides", .array (r.provides.map .string)), ("source", .string r.source),
        ("descriptor", r.descriptor.toJson)]

/-- A schema as JSON. -/
def Schema.toJson (s : Schema) : Json := .object [("types", .array (s.types.map (·.toJson)))]

end SelfDescribing
