import SelfDescribing.Value.Basic
import SelfDescribing.Decimal.Layout
import SelfDescribing.Text.Labelled

namespace SelfDescribing.Value

/-!
# Values in diagnostics

The text of a value in messages: the name of its kind with its content in brackets.
-/

/-- Numbers in messages are positional from a ten-thousandth up to below ten to the sixteenth. -/
def numberLayout : Layout := ⟨.up, -4, 16, false⟩

/-- A floating-point number in messages. -/
def floatText (f : BinaryFormat) (bits : Nat) : String :=
  match f.decode bits with
  | .nan => "NaN"
  | .infinite negative => String.ofList (Layout.sign negative) ++ "inf"
  | _ => (numberLayout.render? f bits).getD ""

variable {ω : Type} [LiveObject ω]

mutual

/-- The text of a value in messages. -/
def text : Value ω → String
  | null => "Null"
  | bool b => "Bool(" ++ toString b ++ ")"
  | ubyte n => "UByte(" ++ toString n ++ ")"
  | ushort n => "UShort(" ++ toString n ++ ")"
  | uint n => "UInt(" ++ toString n ++ ")"
  | ulong n => "ULong(" ++ toString n ++ ")"
  | byte n => "Byte(" ++ toString n ++ ")"
  | short n => "Short(" ++ toString n ++ ")"
  | int n => "Int(" ++ toString n ++ ")"
  | long n => "Long(" ++ toString n ++ ")"
  | float bits => "Float(" ++ floatText .single bits.toNat ++ ")"
  | double bits => "Double(" ++ floatText .double bits.toNat ++ ")"
  | char c => "Char(" ++ Quoted.char c ++ ")"
  | timestamp ms => "Timestamp(" ++ toString ms ++ ")"
  | binary bytes => "Binary(" ++ Labelled.list (bytes.map toString) ++ ")"
  | string s => "String(" ++ Quoted.string s ++ ")"
  | symbol s => "Symbol(" ++ Quoted.string s ++ ")"
  | list items => "List(" ++ Labelled.list (texts items) ++ ")"
  | map entries => "Map(" ++ Labelled.list (entryTexts entries) ++ ")"
  | described descriptor body =>
      "Described(" ++ Labelled.record "DescribedValue"
        [("descriptor", text descriptor), ("value", text body)] ++ ")"
  | live object => "Instance(Instance(" ++ (LiveObject.hostType object).name ++ "))"

/-- The texts of the items of a list. -/
def texts : List (Value ω) → List String
  | [] => []
  | v :: rest => text v :: texts rest

/-- The texts of the entries of a map. -/
def entryTexts : List (Value ω × Value ω) → List String
  | [] => []
  | (k, v) :: rest => ("(" ++ text k ++ ", " ++ text v ++ ")") :: entryTexts rest

end

end SelfDescribing.Value
