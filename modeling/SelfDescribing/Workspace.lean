import SelfDescribing.Envelope.Edit
import SelfDescribing.Factory.Payload

namespace SelfDescribing

/-!
# Workspaces

Several factories side by side, of which some may look shapes up in one registry, and payloads
kept by name.  A step on one factory is seen by the others through the registry alone
(`Workspace.run`).  All of them scan their custom codecs in the order of insertion, which is as good
as any other.
-/

/-- Factories and saved payloads. -/
structure Workspace (ω : Type) where
  registries : List (Registry ω)
  /-- The number of its registry, and what each factory holds besides. -/
  factories : List (Nat × Factory ω)
  payloads : Table String (List UInt8)

namespace Workspace

variable {ω : Type}

/-- One factory over an empty registry, and no payloads. -/
def start : Workspace ω := ⟨[.empty], [(0, .new .empty .inserted)], .empty⟩

instance : Inhabited (Workspace ω) := ⟨start⟩

/-- A step on a workspace. -/
abbrev Step (ω α : Type) : Type := EStateM Error (Workspace ω) α

/-- The number of a factory's registry; one past the last where there is no such factory. -/
def registryOf (w : Workspace ω) (index : Nat) : Nat :=
  ((w.factories[index]?).map (·.1)).getD w.registries.length

/-- A factory as it is now, its registry included. -/
def factory (w : Workspace ω) (index : Nat) : Factory ω :=
  let r := w.registries.getD (w.registryOf index) Registry.empty
  match w.factories[index]? with
  | some (_, f) => { f with registry := r }
  | none => .new r .inserted

/-- Put back a factory and its registry. -/
def put (w : Workspace ω) (index : Nat) (f : Factory ω) : Workspace ω :=
  let number := w.registryOf index
  { w with
    registries := w.registries.set number f.registry
    factories := w.factories.set index (number, f) }

/-- Carry out a step on one factory; what it changed stays, also when it fails. -/
def run {α : Type} (index : Nat) (step : Factory.Step ω α) : Step ω α := fun w =>
  match step (w.factory index) with
  | .ok a f => .ok a (w.put index f)
  | .error e f => .error e (w.put index f)

/-- Add a factory over a new registry, or over that of another factory, and tell its number.  With
a configuration, its names are allowed in the registry; one that cannot be used adds nothing. -/
def add (config : Option Config) (share : Option Nat) : Step ω Nat := fun w =>
  let w' := match share with
    | some _ => w
    | none => { w with registries := w.registries ++ [Registry.empty] }
  let number := match share with
    | some other => w.registryOf other
    | none => w.registries.length
  let r := w'.registries.getD number Registry.empty
  let made := match config with
    | some c => Factory.withConfig r .inserted c
    | none => .ok (.new r .inserted)
  match made with
  | .error e => .error e w
  | .ok f =>
    let index := w.factories.length
    .ok index (Workspace.put { w' with factories := w'.factories ++ [(number, f)] } index f)

/-- The payload that was saved under a name; empty if there is none. -/
def payload (w : Workspace ω) (name : String) : List UInt8 := (w.payloads.find? name).getD []

/-- Save a payload. -/
def save (name : String) (bytes : List UInt8) : Step ω Unit :=
  modify fun w => { w with payloads := w.payloads.insert name bytes }

end Workspace

end SelfDescribing
