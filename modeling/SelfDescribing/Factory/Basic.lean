import SelfDescribing.Codec.Basic
import SelfDescribing.Config.Basic
import SelfDescribing.Envelope.Basic

namespace SelfDescribing

/-!
# Factories

A factory finds the codec for a type, a name or a descriptor.  It builds codecs from shapes when
they are first needed and keeps them.

* `Setting` — what codecs are found in: the registry, the custom codecs and the configuration.
* `Caches` — the codecs built so far.  A codec whose build fails is not kept.
* `Factory` — both together.
* `Setting.readerFor` — the codec that reads the values of a descriptor in a payload.
-/

/-- What codecs are found in; it does not change while a payload is written or read. -/
structure Setting (ω : Type) where
  registry : Registry ω
  customs : CustomCodecs ω
  config : Config

/-- The codecs that have been built. -/
structure Caches (ω : Type) where
  /-- The default codec of each type name. -/
  live : Table String (ObjectCodec ω)
  /-- The codec of each type name and fingerprint of an older list of fields. -/
  evolution : Table (String × String) (EvolutionCodec ω)

/-- A factory. -/
structure Factory (ω : Type) extends Setting ω where
  caches : Caches ω

/-- No codecs built. -/
def Caches.empty {ω : Type} : Caches ω := ⟨.empty, .empty⟩

namespace Setting

variable {ω : Type}

/-- A step that may build codecs; the codecs that it built stay, also when it fails. -/
abbrev Building (ω α : Type) : Type := EStateM Error (Caches ω) α

/-- The default codec of a registered type name. -/
def liveCodec (s : Setting ω) (name : String) : Building ω (ObjectCodec ω) := do
  match (← get).live.find? name with
  | some c => return c
  | none =>
    match s.registry.shape? name with
    | none => throw (.typeNotFound name)
    | some shape =>
      match ObjectCodec.build shape s.registry with
      | .error e => throw e
      | .ok c =>
        modify fun caches => { caches with live := caches.live.insert name c }
        return c

/-- What identifies an older shape: the type's name and the fingerprint of the fields that the
payload lists, not the descriptor that it claims. -/
def evolutionKey (old : CompositeType) : String × String :=
  (old.name, fingerprint old.name old.fields)

/-- The codec that reads an older shape of a registered type. -/
def evolutionCodec (s : Setting ω) (old : CompositeType) : Building ω (EvolutionCodec ω) := do
  match (← get).evolution.find? (evolutionKey old) with
  | some c => return c
  | none =>
    let live ← s.liveCodec old.name
    match EvolutionCodec.make old live s.registry with
    | .error e => throw e
    | .ok c =>
      modify fun caches =>
        { caches with evolution := caches.evolution.insert (evolutionKey old) c }
      return c

/-- The codec of a type name: a custom one if there is one. -/
def codecForName (s : Setting ω) (name : String) : Building ω (Codec ω) := do
  match s.customs.codec? name with
  | some c => return .custom c
  | none => return .object (← s.liveCodec name)

/-- The codec that writes the objects of a host type: a custom one if there is one. -/
def codecForHost (s : Setting ω) (t : HostType) : Building ω (Codec ω) := do
  match s.customs.codecOf? t with
  | some c => return .custom c
  | none =>
    match s.registry.nameOf? t with
    | none => throw (.typeNotFound t.name)
    | some name => return .object (← s.liveCodec name)

/-- The type name of a host type. -/
def nameOfHost (s : Setting ω) (t : HostType) : Except Error String :=
  match s.customs.codecOf? t with
  | some c => .ok c.typeName
  | none =>
    match s.registry.nameOf? t with
    | some name => .ok name
    | none => .error (.typeNotFound t.name)

/-- The name at the first position where two field lists differ: the old one there, or the live
one where the old list has ended; nothing where they do not differ. -/
def firstDifference : (old live : List Field) → String
  | [], [] => ""
  | [], l :: _ => l.name
  | o :: _, [] => o.name
  | o :: old, l :: live => if o = l then firstDifference old live else o.name

/-- Whether what a schema tells about a type has the live fields; a restricted type has none to
differ. -/
def sameFields (type : TypeNotation) (live : ObjectCodec ω) : Bool :=
  match type.composite? with
  | some old => decide (old.fields = live.composite.fields)
  | none => true

variable [LiveObject ω]

/-- The codec that reads the values of a descriptor.  The schema's notation for it names the type;
a descriptor that the schema does not list may belong to a custom codec.  The default codec of the
type reads payloads that list the live fields, and others are reconciled with them. -/
def readerFor (s : Setting ω) (schema : Schema) (descriptor : Value ω) :
    Building ω (Codec ω) := do
  match schema.findByDescriptor? descriptor with
  | none =>
    match s.customs.codecFor? descriptor with
    | some c => return .custom c
    | none => throw (.malformed (.unlistedDescriptor descriptor.text))
  | some type =>
    match s.customs.codec? type.name with
    | some c => return .custom c
    | none =>
      let live ← s.liveCodec type.name
      if live.composite.descriptor.admits descriptor && sameFields type live then
        return .object live
      match type.composite? with
      | none => throw (.malformed (.restrictedWithoutCodec type.name))
      | some old =>
        if !s.config.evolution then
          throw (.incompatible type.name (firstDifference old.fields live.composite.fields)
            .evolutionDisabled)
        return .evolution (← s.evolutionCodec old)

end Setting

namespace Factory

variable {ω : Type}

/-- A step on a factory. -/
abbrev Step (ω α : Type) : Type := EStateM Error (Factory ω) α

/-- A factory with the default configuration, which scans its custom codecs in some order. -/
def new (r : Registry ω) (order : ScanOrder) : Factory ω := ⟨⟨r, .empty order, .default⟩, .empty⟩

/-- A factory with a configuration, whose names are allowed in the registry. -/
def withConfig (r : Registry ω) (order : ScanOrder) (c : Config) : Except Error (Factory ω) := do
  c.validate
  return ⟨⟨c.allowList.foldl Registry.allow r, .empty order, c⟩, .empty⟩

/-- Carry out a step that may build codecs. -/
def building {α : Type} (step : Setting ω → Setting.Building ω α) : Step ω α := fun f =>
  match step f.toSetting f.caches with
  | .ok a caches => .ok a { f with caches := caches }
  | .error e caches => .error e { f with caches := caches }

/-- Carry out a step that changes nothing. -/
def inspecting {α : Type} (look : Factory ω → Except Error α) : Step ω α := fun f =>
  match look f with
  | .ok a => .ok a f
  | .error e => .error e f

/-- Carry out a step on the registry. -/
def registering {α : Type} (step : Registry.Step ω α) : Step ω α := fun f =>
  match step f.registry with
  | .ok a r => .ok a { f with registry := r }
  | .error e r => .error e { f with registry := r }

/-- Register a shape. -/
def register (shape : TypeShape ω) : Step ω Unit := registering (Registry.register shape)

/-- Forget the codecs built for some type names. -/
def Caches.forget (c : Caches ω) (names : List String) : Caches ω :=
  ⟨c.live.filterKeys (fun name => decide (name ∉ names)),
    c.evolution.filterKeys (fun key => decide (key.1 ∉ names))⟩

/-- Register a custom codec.  Codecs built for its type name are forgotten, and so are those for
the name that its host type had before. -/
def registerCustom (codec : CustomCodec ω) : Step ω Unit := fun f =>
  match BoundCodec.bind codec f.registry with
  | .error e => .error e f
  | .ok bound =>
    let stale := (f.customs.replacedName? bound).toList ++ [bound.typeName]
    .ok () { f with
      customs := f.customs.register bound
      caches := Caches.forget f.caches stale }

/-- The default codec of a registered type name. -/
def liveCodec (name : String) : Step ω (ObjectCodec ω) := building (·.liveCodec name)

/-- The codec that reads an older shape of a registered type. -/
def evolutionCodec (old : CompositeType) : Step ω (EvolutionCodec ω) :=
  building (·.evolutionCodec old)

/-- The codec of a type name. -/
def codecForName (name : String) : Step ω (Codec ω) := building (·.codecForName name)

/-- The codec that writes the objects of a host type. -/
def codecForHost (t : HostType) : Step ω (Codec ω) := building (·.codecForHost t)

/-- What schemas tell about a type name, abstract types and interfaces included. -/
def describe (name : String) : Step ω TypeNotation := return (← codecForName name).type

/-- The text of a factory in diagnostics. -/
def diagnostic (f : Factory ω) : String :=
  Labelled.record "CodecFactory"
    [("config", f.config.diagnostic), ("cached_codecs", toString f.caches.live.size),
      ("cached_evolution_codecs", toString f.caches.evolution.size)]

end Factory

end SelfDescribing
