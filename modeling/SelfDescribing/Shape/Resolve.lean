import SelfDescribing.Registry.Walk
import SelfDescribing.Schema.Fingerprint
import SelfDescribing.Text.Labelled

namespace SelfDescribing

/-!
# Resolving shapes

A codec of a concrete type needs for each parameter of the chosen constructor a readable property
of the same name whose type can be passed to it.  Abstract types and interfaces are described by
all their properties, sorted by name.
-/

/-- The constructor and the properties that a codec is built from. -/
structure ResolvedShape (ω : Type) where
  /-- None for abstract types and interfaces. -/
  constructor : Option (Constructor ω)
  /-- The properties in the order of the encoded items. -/
  properties : List (Property ω)

namespace TypeShape

variable {ω : Type}

/-- The property that feeds a constructor parameter. -/
def propertyFor (s : TypeShape ω) (r : Registry ω) (p : Param) : Except Error (Property ω) :=
  match s.property? p.name with
  | none => .error (.propertyMismatch s.name p.name .noProperty)
  | some property =>
    if property.getter.isNone then .error (.propertyMismatch s.name p.name .unreadable)
    else if !r.isAssignable property.type property.nullable p.type p.nullable then
      .error (.propertyMismatch s.name p.name
        (.typeDiffers (property.type.textWith property.nullable) (p.type.textWith p.nullable)))
    else .ok property

/-- The constructor of a shape and the properties that feed it. -/
def resolve (s : TypeShape ω) (r : Registry ω) : Except Error (ResolvedShape ω) := do
  s.checkNames
  match ← s.constructor with
  | none => return ⟨none, s.properties.mergeSort (fun a b => decide (a.name ≤ b.name))⟩
  | some c => return ⟨some c, ← c.params.mapM (s.propertyFor r)⟩

end TypeShape

/-! ### Schema notations of shapes -/

/-- The schema field of a property. -/
def Property.field {ω : Type} (p : Property ω) : Field := ⟨p.name, p.type.text, !p.nullable⟩

namespace Registry

variable {ω : Type}

/-- The notation of a record type with the given properties. -/
def compositeOf (r : Registry ω) (typeName : String) (properties : List (Property ω)) :
    CompositeType :=
  let fields := properties.map Property.field
  { name := typeName, label := none, provides := r.provides typeName,
    descriptor := objectDescriptor typeName fields, fields := fields }

/-- The notation of a type that is carried as another one. -/
def restrictedOf (r : Registry ω) (typeName source : String) : RestrictedType :=
  { name := typeName, label := none, provides := r.provides typeName, source := source,
    descriptor := objectDescriptor typeName [] }

end Registry

/-! ### Diagnostics -/

/-- The text of a parameter in diagnostics. -/
def Param.diagnostic (p : Param) : String :=
  Labelled.record "Param" [("name", Quoted.string p.name), ("field_type", p.type.diagnostic),
    ("nullable", toString p.nullable)]

/-- The text of a constructor in diagnostics. -/
def Constructor.diagnostic {ω : Type} (c : Constructor ω) : String :=
  Labelled.record "ConstructorShape"
    [("params", Labelled.list (c.params.map Param.diagnostic)), ("marked", toString c.marked),
      ("primary", toString c.primary)]

/-- The text of a property in diagnostics. -/
def Property.diagnostic {ω : Type} (p : Property ω) : String :=
  Labelled.record "PropertyShape"
    [("name", Quoted.string p.name), ("field_type", p.type.diagnostic),
      ("nullable", toString p.nullable), ("readable", toString p.getter.isSome)]

/-- The text of a resolved shape in diagnostics. -/
def ResolvedShape.diagnostic {ω : Type} (s : ResolvedShape ω) : String :=
  Labelled.record "ResolvedShape"
    [("constructor", Labelled.option (s.constructor.map Constructor.diagnostic)),
      ("properties", Labelled.list (s.properties.map Property.diagnostic))]

end SelfDescribing
