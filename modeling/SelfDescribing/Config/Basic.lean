import SelfDescribing.Error
import SelfDescribing.Text.Labelled
import SelfDescribing.Text.Quoted

namespace SelfDescribing

/-!
# Configuration

The settings of a factory.
-/

/-- The settings of a factory. -/
structure Config where
  /-- Supertype names that may be told in schemas. -/
  allowList : List String
  /-- How deep objects may nest when written, and values when read. -/
  maxDepth : Nat
  /-- Whether payloads of older shapes are read. -/
  evolution : Bool
deriving DecidableEq

namespace Config

/-- The settings where none are given. -/
def default : Config := ⟨[], 64, true⟩

/-- Refuse a nesting limit of zero. -/
def validate (c : Config) : Except Error Unit :=
  if c.maxDepth = 0 then .error (.config .zeroDepth) else .ok ()

/-- The text of the settings in diagnostics. -/
def diagnostic (c : Config) : String :=
  Labelled.record "CodecConfig"
    [("allow_list", Labelled.list (c.allowList.map Quoted.string)),
      ("max_depth", toString c.maxDepth), ("evolution", toString c.evolution)]

end Config

end SelfDescribing
