import SelfDescribing.Value.Args
import SelfDescribing.Names

namespace SelfDescribing

/-!
# Shapes

A shape is the registered description of how a type is taken apart and rebuilt: its readable
properties, its constructors and its declared supertypes.

* `Param`, `Property`, `Constructor`, `TypeShape` — the parts of a shape.
* `TypeShape.kind` — whether the type has objects, and of which host type.
* `TypeShape.checkNames` — property names, and the parameter names of each constructor, are
  distinct.
* `TypeShape.constructorIndex`, `TypeShape.constructor` — the constructor that reading uses.
-/

/-- A parameter of a constructor; its name is matched against property names. -/
structure Param where
  name : String
  type : FieldType
  /-- Whether the parameter accepts null. -/
  nullable : Bool
deriving DecidableEq

/-- A property of a type. -/
structure Property (ω : Type) where
  name : String
  type : FieldType
  /-- Whether the property may be null. -/
  nullable : Bool
  /-- How to read it off a live object; properties of abstract types may have no getter. -/
  getter : Option (ω → Except Error (Value ω))

/-- A way to build a live object. -/
structure Constructor (ω : Type) where
  /-- The parameters in call order. -/
  params : List Param
  /-- Whether it is marked as the one that reading should use. -/
  marked : Bool
  /-- Whether it is the type's canonical constructor. -/
  primary : Bool
  /-- Build an object from one value for each parameter. -/
  build : List (Value ω) → Except Error ω

/-- Whether a type has objects, is a base of such types, or an interface. -/
inductive ShapeForm where
  | concrete
  | abstract
  | interface
deriving DecidableEq

/-- The registered shape of a type. -/
structure TypeShape (ω : Type) where
  name : String
  form : ShapeForm
  /-- The host type of the objects.  Only concrete types have objects, but nothing checks that a
  host type is given for these and for no others. -/
  hostType? : Option HostType
  /-- The properties in declaration order. -/
  properties : List (Property ω)
  /-- The constructors in declaration order. -/
  constructors : List (Constructor ω)
  /-- The names of the declared supertypes. -/
  supertypes : List String
  /-- Whether the type asks to be told in schemas. -/
  serializable : Bool

/-- What kind of type a shape describes. -/
inductive ShapeKind where
  /-- A type that has objects, of a host type if the shape gives one. -/
  | concrete (hostType? : Option HostType)
  | abstract
  | interface
deriving DecidableEq

namespace ShapeKind

/-- Whether a type has objects. -/
def isConcrete : ShapeKind → Bool
  | concrete _ => true
  | _ => false

/-- Whether a type is an interface. -/
def isInterface : ShapeKind → Bool
  | interface => true
  | _ => false

end ShapeKind

/-- A getter that reads the objects of one view and refuses all others. -/
def Property.getterOf {ω α : Type} (typeName : String) (h : HostView ω α) (get : α → Value ω)
    (object : ω) : Except Error (Value ω) :=
  match h.view? object with
  | some a => .ok (get a)
  | none => .error (.typeMismatch typeName "foreign object")

namespace TypeShape

variable {ω : Type}

/-- The kind of type; a host type that is given for an abstract type or an interface is no part of
it. -/
def kind (s : TypeShape ω) : ShapeKind :=
  match s.form with
  | .concrete => .concrete s.hostType?
  | .abstract => .abstract
  | .interface => .interface

/-- The first property with a name. -/
def property? (s : TypeShape ω) (name : String) : Option (Property ω) :=
  s.properties.find? (fun p => decide (p.name = name))

/-- The first parameter name that a constructor repeats, over all constructors. -/
def repeatedParam? (s : TypeShape ω) : Option String :=
  s.constructors.findSome? (fun c => firstRepeat? (c.params.map (·.name)))

/-- Refuse repeated property names, and repeated parameter names within a constructor. -/
def checkNames (s : TypeShape ω) : Except Error Unit :=
  match firstRepeat? (s.properties.map (·.name)) with
  | some name => .error (.propertyMismatch s.name name .repeatedProperty)
  | none =>
    match s.repeatedParam? with
    | some name => .error (.propertyMismatch s.name name .repeatedParameter)
    | none => .ok ()

/-- The constructors that are marked. -/
def markedConstructors (s : TypeShape ω) : List (Constructor ω) :=
  s.constructors.filter (·.marked)

/-- The position of the constructor that reading prefers: the only one; of two of which exactly one
has no parameters, the other; else the first marked one; else the first primary one. -/
def preferred? (s : TypeShape ω) : Option Nat :=
  let byMark :=
    (s.constructors.findIdx? (·.marked)).or (s.constructors.findIdx? (·.primary))
  match s.constructors with
  | [_] => some 0
  | [first, second] =>
    match first.params.isEmpty, second.params.isEmpty with
    | true, false => some 1
    | false, true => some 0
    | _, _ => byMark
  | _ => byMark

/-- The position of the constructor that reading uses; abstract types and interfaces have none.
Two marked constructors are ambiguous whichever would be preferred. -/
def constructorIndex (s : TypeShape ω) : Except Error (Option Nat) :=
  if !s.kind.isConcrete then .ok none
  else if 1 < s.markedConstructors.length then
    .error (.ambiguousConstructor s.name s.markedConstructors.length)
  else
    match s.preferred? with
    | some index => .ok (some index)
    | none => .error (.noConstructor s.name)

/-- The constructor that reading uses. -/
def constructor (s : TypeShape ω) : Except Error (Option (Constructor ω)) := do
  return (← s.constructorIndex).bind (s.constructors[·]?)

end TypeShape

end SelfDescribing
