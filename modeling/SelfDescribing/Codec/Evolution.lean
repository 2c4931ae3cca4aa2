import SelfDescribing.Codec.Object

namespace SelfDescribing

/-!
# Evolution codecs

A payload may have been written with an older shape of a type.  Its fields are matched to the
parameters of the live constructor by name alone: an old field without a parameter is dropped,
and a parameter without an old field takes null if it may.
-/

/-- A field of an old payload. -/
structure OldField (ω : Type) where
  /-- The field as the payload's schema has it. -/
  field : Field
  /-- Its position among the encoded items. -/
  index : Nat
  /-- Reads values of the type that the payload declares. -/
  codec : PropertyCodec ω

/-- Reads payloads of an older shape of a type, and does not write. -/
structure EvolutionCodec (ω : Type) where
  /-- The name of the live type. -/
  typeName : String
  /-- What the payload's schema tells about the type. -/
  composite : CompositeType
  /-- For each parameter of the live constructor the old field that feeds it, if there is one. -/
  sources : List (Option (OldField ω))
  /-- The live constructor. -/
  constructor : Constructor ω

namespace EvolutionCodec

variable {ω : Type}

/-- The fields of an old composite with their positions. -/
def oldFieldsOf (old : CompositeType) : List (OldField ω) :=
  old.fields.mapIdx fun index field => ⟨field, index, .ofField field⟩

/-- The old field that feeds a parameter, if it can be passed there; null feeds a nullable
parameter that no field of its name exists for. -/
def sourceFor (r : Registry ω) (typeName : String) (fields : List (OldField ω)) (p : Param) :
    Except Error (Option (OldField ω)) :=
  match fields.find? (fun f => decide (f.field.name = p.name)) with
  | some f =>
    if r.isAssignable f.codec.type f.codec.nullable p.type p.nullable then .ok (some f)
    else .error (.incompatible typeName p.name
      (.notAssignable (f.field.type ++ if f.codec.nullable then "?" else "")
        (p.type.textWith p.nullable)))
  | none =>
    if p.nullable then .ok none else .error (.incompatible typeName p.name .absent)

/-- Reconcile what a payload's schema tells about a type with the type's live codec. -/
def make (old : CompositeType) (live : ObjectCodec ω) (r : Registry ω) :
    Except Error (EvolutionCodec ω) :=
  match live.constructor with
  | none => .error (.noConstructor live.typeName)
  | some constructor => do
    let sources ← constructor.params.mapM (sourceFor r live.typeName (oldFieldsOf old))
    return ⟨live.typeName, old, sources, constructor⟩

/-- The fields of the old shape. -/
def oldFields (c : EvolutionCodec ω) : List (OldField ω) := oldFieldsOf c.composite

/-- For each parameter of the live constructor the name of the old field that feeds it. -/
def sourceNames (c : EvolutionCodec ω) : List (Option String) :=
  c.sources.map (·.map (·.field.name))

/-- Read the arguments from the items of an old body.  An item that is read is taken out and leaves
null behind. -/
def readSources (schema : Schema) :
    List (Option (OldField ω)) → List (Value ω) → Reading ω (List (Value ω))
  | [], _ => return []
  | none :: rest, items => do return .null :: (← readSources schema rest items)
  | some f :: rest, items => do
    let v ← f.codec.read schema (items.getD f.index .null)
    return v :: (← readSources schema rest (items.set f.index .null))

/-- Read an old body. -/
def read (c : EvolutionCodec ω) (schema : Schema) : Value ω → Reading ω ω
  | .list items => do
    if items.length ≠ c.composite.fields.length then
      throw (.malformed (.oldFieldCount c.typeName c.composite.fields.length items.length))
    c.constructor.build (← readSources schema c.sources items)
  | v => throw (.malformed (.notFieldList c.typeName v.kind))

end EvolutionCodec

end SelfDescribing
