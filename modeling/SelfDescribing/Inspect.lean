import SelfDescribing.Decimal.Fixed
import SelfDescribing.Entity.Basic
import SelfDescribing.Envelope.Basic
import SelfDescribing.Factory.Payload
import SelfDescribing.Schema.Json
import SelfDescribing.Value.Json

namespace SelfDescribing

/-!
# Looking into payloads

The command line: what is asked for (`Request`, `Request.parse`), and what is shown about the
payload in a file (`Request.run`), given what the file holds.

* `info` — the size, the root type and the number of types.
* `schema` — the types that the payload tells about, as a listing or as JSON.
* `body` — the root value as JSON.
-/

/-- What a payload is looked at for. -/
inductive View where
  | info
  | schema (json : Bool)
  | body
deriving DecidableEq

/-- What a command line asks for. -/
inductive Request where
  | version
  | inspect (view : View) (path : String)
deriving DecidableEq

/-! ### Reading a command line -/

/-- The arguments of a view: one path, and flags that the view knows. -/
structure ViewArguments where
  path : Option String
  json : Bool

namespace ViewArguments

/-- Nothing read yet. -/
def empty : ViewArguments := ⟨none, false⟩

/-- Add a path; there is one, and it is not empty. -/
def withPath? (a : ViewArguments) (path : String) : Option ViewArguments :=
  if a.path.isSome || path.isEmpty then none else some { a with path := some path }

/-- Read arguments.  After `--`, everything is a path, and a lone hyphen always is one.  The flag
`--json` is allowed once, where `allowsJson` is set. -/
def read? (allowsJson : Bool) (a : ViewArguments) : List String → Option ViewArguments
  | [] => some a
  | "--" :: rest => rest.foldlM withPath? a
  | "--json" :: rest =>
    if allowsJson && !a.json then read? allowsJson { a with json := true } rest else none
  | arg :: rest =>
    if arg.startsWith "-" && arg != "-" then none
    else (a.withPath? arg).bind fun a => read? allowsJson a rest

end ViewArguments

namespace Request

/-- Read a command line; nothing where it is not understood. -/
def parse (args : List String) : Option Request := do
  match args with
  | "inspect" :: "info" :: rest =>
    let a ← ViewArguments.empty.read? false rest
    return inspect .info (← a.path)
  | "inspect" :: "schema" :: rest =>
    let a ← ViewArguments.empty.read? true rest
    return inspect (.schema a.json) (← a.path)
  | "inspect" :: "body" :: rest =>
    let a ← ViewArguments.empty.read? false rest
    return inspect .body (← a.path)
  | arg :: _ => if arg = "--version" || arg.startsWith "-V" then some version else none
  | [] => none

end Request

/-! ### What is shown -/

/-- What a run of the command line ends with. -/
structure Outcome where
  code : UInt8
  output : String
  errors : String
deriving DecidableEq

/-- A number of bytes for readers, in units of 1024 bytes where there are that many. -/
def sizeText (size : Nat) : String :=
  if 1024 * 1024 ≤ size then twoPlaces size (1024 * 1024) ++ " MiB"
  else if 1024 ≤ size then twoPlaces size 1024 ++ " KiB"
  else toString size ++ " B"

/-- A line of output. -/
def line (text : String) : String := text ++ "\n"

/-- The lines of a listing that tell what a type provides; none if there is nothing to tell. -/
def providesLines (names : List String) : List String :=
  if names.isEmpty then [] else ["  provides: " ++ ", ".intercalate names]

/-- The lines of a listing for one type; the last one is empty. -/
def TypeNotation.lines : TypeNotation → List String
  | .composite c =>
    ["composite " ++ c.name, "  descriptor: " ++ c.descriptor.text] ++ providesLines c.provides
      ++ c.fields.map (fun f => "  " ++ f.name ++ ": " ++ f.type ++ if f.mandatory then "" else "?")
      ++ [""]
  | .restricted r =>
    ["restricted " ++ r.name ++ " = " ++ r.source, "  descriptor: " ++ r.descriptor.text]
      ++ providesLines r.provides ++ [""]

namespace Envelope

variable {ω : Type} [LiveObject ω]

/-- The name of the root type, or what stands there in its place. -/
def rootLabel (e : Envelope ω) : String :=
  match e.body with
  | .described descriptor _ =>
    match e.schema.findByDescriptor? descriptor with
    | some type => type.name
    | none => "<unlisted>"
  | v => "<" ++ v.kind ++ ">"

/-- The lines that a view shows of a payload. -/
def viewLines (e : Envelope ω) (size : Nat) (path : String) : View → List String
  | .info =>
    ["=== " ++ path ++ " ===", "Size: " ++ sizeText size, "Root type: " ++ e.rootLabel,
      "Types: " ++ toString e.schema.types.length]
  | .schema true => [e.schema.toJson.pretty]
  | .schema false => e.schema.types.flatMap TypeNotation.lines
  | .body => [e.body.toJson.pretty]

end Envelope

namespace Request

/-- The outcome of a command line that is not understood. -/
def misuse : Outcome :=
  ⟨2, "", line "usage: evocodec inspect (info | schema [--json] | body) FILE"⟩

/-- The outcome of a run that fails. -/
def failed (reason : String) : Outcome := ⟨1, "", line ("Error: " ++ reason)⟩

/-- Show what is asked for about a file with the given bytes, or none if it cannot be read. -/
def present (view : View) (path : String) : Option (List UInt8) → Outcome
  | none => failed ("failed to read " ++ path)
  | some bytes =>
    match (Envelope.parse bytes Wire.Cursor.defaultLimit : Except Error (Envelope Entity)) with
    | .error _ => failed (path ++ " is not an evocodec payload")
    | .ok e => ⟨0, String.join ((e.viewLines bytes.length path view).map line), ""⟩

/-- Carry out a request; `file` tells what is in a file. -/
def run {m : Type → Type} [Monad m] (file : String → m (Option (List UInt8))) :
    Option Request → m Outcome
  | none => return misuse
  | some version => return ⟨0, line "evocodec 0.1.0", ""⟩
  | some (inspect view path) => return present view path (← file path)

end Request

end SelfDescribing
