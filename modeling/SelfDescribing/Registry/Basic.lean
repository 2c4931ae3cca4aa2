import SelfDescribing.Shape.Basic
import SelfDescribing.Table

namespace SelfDescribing

/-!
# The registry

The registry knows which shape describes each type name and each host type, and which supertype
names are allowed in schemas.

* `Registry.register` — a shape is checked when it is registered, so that one whose constructor
  cannot be chosen never gets in.  The two tables are changed in place, one after the other.
* `Registry.isOptedIn` — whether schemas may tell a name as a supertype.
-/

/-- The registered shapes. -/
structure Registry (ω : Type) where
  /-- The shape of each type name. -/
  shapes : Table String (TypeShape ω)
  /-- The type name of each host type. -/
  hostNames : Table HostType String
  /-- The names that may be told in schemas without their shapes asking for it. -/
  allowed : List String

namespace Registry

variable {ω : Type}

/-- The registry without shapes. -/
def empty : Registry ω := ⟨.empty, .empty, []⟩

instance : Inhabited (Registry ω) := ⟨empty⟩

/-- The shape of a type name. -/
def shape? (r : Registry ω) (name : String) : Option (TypeShape ω) := r.shapes.find? name

/-- The type name of a host type. -/
def nameOf? (r : Registry ω) (t : HostType) : Option String := r.hostNames.find? t

/-- The shape of a host type. -/
def shapeOf? (r : Registry ω) (t : HostType) : Option (TypeShape ω) := do
  r.shape? (← r.nameOf? t)

/-- The registered type names. -/
def names (r : Registry ω) : List String := r.shapes.keys

/-- A step on a registry; what it stored before it failed stays. -/
abbrev Step (ω α : Type) : Type := EStateM Error (Registry ω) α

/-- Refuse a shape whose name belongs to another host type. -/
def checkName (s : TypeShape ω) : Step ω Unit := do
  match (← get).shape? s.name with
  | some old => if old.hostType? ≠ s.hostType? then throw (.duplicateType s.name)
  | none => return

/-- Give a host type the name of its shape.  A host type that has another name is refused. -/
def nameHost (t : HostType) (name : String) : Step ω Unit := do
  match (← get).nameOf? t with
  | some old => if old ≠ name then throw (.duplicateType name)
  | none => pure ()
  modify fun r => { r with hostNames := r.hostNames.insert t name }

/-- Store a shape under its name. -/
def storeShape (s : TypeShape ω) : Step ω Unit :=
  modify fun r => { r with shapes := r.shapes.insert s.name s }

/-- Register a shape, in place of an earlier one of the same type and name.  A name or host type
that belongs to another type is refused, and so is a shape with repeated names or without a
constructor that reading can use.  The name of the host type is stored before the shape is. -/
def register (s : TypeShape ω) : Step ω Unit := do
  MonadExcept.ofExcept s.checkNames
  let _ ← MonadExcept.ofExcept s.constructor
  checkName s
  match s.hostType? with
  | some t => nameHost t s.name
  | none => pure ()
  storeShape s

/-- Allow a supertype name in schemas. -/
def allow (r : Registry ω) (name : String) : Registry ω :=
  if name ∈ r.allowed then r else { r with allowed := r.allowed ++ [name] }

/-- Whether a type may be told in schemas: its name is allowed, or its shape asks for it. -/
def isOptedIn (r : Registry ω) (name : String) : Bool :=
  decide (name ∈ r.allowed) ||
    match r.shape? name with
    | some s => s.serializable
    | none => false

/-- The declared supertypes of a registered type; other names have none. -/
def supertypes (r : Registry ω) (name : String) : List String :=
  match r.shape? name with
  | some s => s.supertypes
  | none => []

end Registry

end SelfDescribing
