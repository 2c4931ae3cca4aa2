import SelfDescribing.Factory.Basic

namespace SelfDescribing

/-!
# Writing and reading payloads

* `WriteContext` — what is kept while a payload is written: the codecs built, and the notations of
  the types reached so far, each once, in the order in which they were first reached.
* `Setting.writeWithin`, `Setting.readWithin` — serve the requests of codecs.  Each object written
  or read inside another one uses up a level of the nesting limit.
* `Factory.encode`, `Factory.decode` — objects to payloads and back.
-/

/-- What is kept while a payload is written. -/
structure WriteContext (ω : Type) where
  caches : Caches ω
  /-- The notations of the types reached. -/
  types : List TypeNotation

namespace WriteContext

variable {ω : Type}

/-- A step of writing. -/
abbrev Step (ω α : Type) : Type := EStateM Error (WriteContext ω) α

/-- A step that may build codecs. -/
def building {α : Type} (step : Setting.Building ω α) : Step ω α := fun c =>
  match step c.caches with
  | .ok a caches => .ok a { c with caches := caches }
  | .error e caches => .error e { c with caches := caches }

/-- Remember the notation of a type, unless one of that name is there. -/
def note (type : TypeNotation) : Step ω Unit := modify fun c =>
  if c.types.any (fun t => decide (t.name = type.name)) then c
  else { c with types := c.types ++ [type] }

/-- The name that stands for the type of the object being written where there is none. -/
def noType : String := ""

end WriteContext

namespace Setting

variable {ω : Type} [LiveObject ω]

/-- The codec that writes an object, which must be of the expected type if one is given. -/
def writerFor (s : Setting ω) (request : WriteRequest ω) : WriteContext.Step ω (Codec ω) := do
  let codec ← WriteContext.building (s.codecForHost (LiveObject.hostType request.object))
  match request.expected with
  | none => return codec
  | some expected =>
    if s.registry.isSubtype codec.typeName expected then return codec
    else throw (.typeMismatch expected codec.typeName)

/-- Write an object where `room` levels of nesting are left. -/
def writeWithin (s : Setting ω) : (room : Nat) → WriteRequest ω → WriteContext.Step ω (Value ω)
  | 0, request => do
    let _ ← s.writerFor request
    throw (.depthExceeded s.config.maxDepth)
  | room + 1, request => do
    let codec ← s.writerFor request
    WriteContext.note codec.type
    (codec.write codec.typeName request.object).run (s.writeWithin room)

/-- Carry out an exchange of a codec that is not inside another object. -/
def writing {α : Type} (s : Setting ω) (x : Writing ω α) : WriteContext.Step ω α :=
  x.run (s.writeWithin s.config.maxDepth)

/-- Read an object where `room` levels of nesting are left. -/
def readWithin (s : Setting ω) (schema : Schema) : (room : Nat) → Value ω → Building ω ω
  | room, .described descriptor body =>
    match room with
    | 0 => throw (.depthExceeded s.config.maxDepth)
    | room + 1 => do
      let codec ← s.readerFor schema descriptor
      (codec.read schema body).run (s.readWithin schema room)
  | _, v => throw (.malformed (.notObject v.kind))

/-- Carry out an exchange of a codec that is not inside another object. -/
def reading {α : Type} (s : Setting ω) (schema : Schema) (x : Reading ω α) : Building ω α :=
  x.run (s.readWithin schema s.config.maxDepth)

end Setting

namespace Factory

variable {ω : Type} [LiveObject ω]

/-- Carry out an exchange of writing from its start, and tell the types reached. -/
def writing {α : Type} (x : Writing ω α) : Step ω (α × Schema) := fun f =>
  match f.toSetting.writing x ⟨f.caches, []⟩ with
  | .ok a c => .ok (a, ⟨c.types⟩) { f with caches := c.caches }
  | .error e c => .error e { f with caches := c.caches }

/-- Carry out an exchange of reading from its start. -/
def reading {α : Type} (schema : Schema) (x : Reading ω α) : Step ω α :=
  building fun s => s.reading schema x

/-- An object as a payload. -/
def encode (object : ω) : Step ω (List UInt8) := do
  let (body, schema) ← writing (writeObject object)
  inspecting fun _ => Envelope.toBytes ⟨body, schema⟩

/-- The type name of the root object of a payload. -/
def rootType (e : Envelope ω) : Except Error String :=
  match e.body with
  | .described descriptor _ =>
    match e.schema.findByDescriptor? descriptor with
    | some type => .ok type.name
    | none => .error (.malformed .rootUnlisted)
  | v => .error (.malformed (.rootNotDescribed v.kind))

/-- The envelope of a payload whose root object must be of a host type. -/
def openPayload (t : HostType) (bytes : List UInt8) (f : Factory ω) :
    Except Error (Envelope ω) := do
  let expected ← f.nameOfHost t
  let envelope ← Envelope.parse bytes f.config.maxDepth
  let found ← rootType envelope
  if found ≠ expected then throw (.typeMismatch expected found)
  return envelope

/-- The object of a host type in a payload. -/
def decode (t : HostType) (bytes : List UInt8) : Step ω ω := do
  let envelope ← inspecting (openPayload t bytes)
  let object ← reading envelope.schema (readObject envelope.body)
  inspecting fun _ => Value.downcast (.ofHost t) object

end Factory

end SelfDescribing
