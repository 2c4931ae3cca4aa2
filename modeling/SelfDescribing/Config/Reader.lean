import SelfDescribing.Config.Basic
import SelfDescribing.Config.Token

namespace SelfDescribing.Config

/-!
# Reading configurations

A configuration text gives some of the settings, each at most once, one a line, and nothing else.

* `wholeNumber?` — a number as TOML writes it, below two to the 63rd.
* `Config.ofText` — the configuration of a text.
-/

/-! ### Numbers -/

/-- The digits of a number without the underscores between them; `none` where an underscore has no
digit on both sides or a character is no digit. -/
def plainDigits? (isDigit : Char → Bool) : List Char → Option (List Char)
  | [] => none
  | [c] => if isDigit c then some [c] else none
  | c :: '_' :: rest => if isDigit c then (plainDigits? isDigit rest).map (c :: ·) else none
  | c :: rest => if isDigit c then (plainDigits? isDigit rest).map (c :: ·) else none

/-- The number with the given digits. -/
def numberOf (base : Nat) (digits : List Char) : Nat :=
  digits.foldl (fun n c => base * n + (Token.hexValue? c).getD 0) 0

/-- Whether a character is a digit to some base. -/
def isDigitOf (base : Nat) (c : Char) : Bool :=
  match Token.hexValue? c with
  | some d => decide (d < base)
  | none => false

/-- A number to some base, below two to the 63rd. -/
def numberTo? (base : Nat) (cs : List Char) : Option Nat := do
  let n := numberOf base (← plainDigits? (isDigitOf base) cs)
  if n < 0x8000000000000000 then some n else none

/-- A decimal number, with no zero in front of other digits. -/
def decimalNumber? (cs : List Char) : Option Nat :=
  match cs with
  | '0' :: _ :: _ => none
  | _ => numberTo? 10 cs

/-- A number that is not negative, decimal with an optional sign, or hexadecimal, octal or binary;
the only number with a minus sign is zero. -/
def wholeNumber? (word : String) : Option Nat :=
  match word.toList with
  | '0' :: 'x' :: digits => numberTo? 16 digits
  | '0' :: 'o' :: digits => numberTo? 8 digits
  | '0' :: 'b' :: digits => numberTo? 2 digits
  | '+' :: digits => decimalNumber? digits
  | '-' :: digits => (decimalNumber? digits).filter (· == 0)
  | digits => decimalNumber? digits

/-! ### Settings -/

/-- The settings that a text gives. -/
structure Given where
  allowList : Option (List String)
  maxDepth : Option Nat
  evolution : Option Bool

/-- The names of the settings. -/
inductive Key where
  | allowList
  | maxDepth
  | evolution

/-- The setting with a name. -/
def Key.ofName? : String → Option Key
  | "allow_list" => some .allowList
  | "max_depth" => some .maxDepth
  | "evolution" => some .evolution
  | _ => none

namespace Given

/-- Whether a setting is given. -/
def has (g : Given) : Key → Bool
  | .allowList => g.allowList.isSome
  | .maxDepth => g.maxDepth.isSome
  | .evolution => g.evolution.isSome

/-- Give a setting that is written as a word. -/
def withWord? (g : Given) (k : Key) (word : String) : Option Given :=
  match k with
  | .allowList => none
  | .maxDepth => (wholeNumber? word).map fun n => { g with maxDepth := some n }
  | .evolution =>
    match word with
    | "true" => some { g with evolution := some true }
    | "false" => some { g with evolution := some false }
    | _ => none

/-- The configuration with what is given, and the defaults for what is not. -/
def toConfig (g : Given) : Config :=
  ⟨g.allowList.getD Config.default.allowList, g.maxDepth.getD Config.default.maxDepth,
    g.evolution.getD Config.default.evolution⟩

end Given

/-- What the reader expects next. -/
inductive Place where
  /-- A setting, or an empty line. -/
  | lineStart
  /-- The equals sign after a setting's name. -/
  | equals (k : Key)
  | value (k : Key)
  /-- Nothing more on the line. -/
  | lineEnd
  /-- An item of the list, whose items so far are given, or its end. -/
  | item (items : List String)
  /-- A comma after an item of the list, or its end. -/
  | separator (items : List String)

/-- Read the settings of a text from some place on. -/
def readFrom (g : Given) : Place → List Token → Option Given
  | .lineStart, [] | .lineEnd, [] => some g
  | .lineStart, .newline :: rest => readFrom g .lineStart rest
  | .lineStart, .word name :: rest | .lineStart, .string name :: rest =>
    match Key.ofName? name with
    | some k => if g.has k then none else readFrom g (.equals k) rest
    | none => none
  | .equals k, .equals :: rest => readFrom g (.value k) rest
  | .value k, .word word :: rest =>
    match g.withWord? k word with
    | some g => readFrom g .lineEnd rest
    | none => none
  | .value .allowList, .opening :: rest => readFrom g (.item []) rest
  | .item items, .newline :: rest => readFrom g (.item items) rest
  | .item items, .string s :: rest | .item items, .longString s :: rest =>
    readFrom g (.separator (items ++ [s])) rest
  | .item items, .closing :: rest => readFrom { g with allowList := some items } .lineEnd rest
  | .separator items, .newline :: rest => readFrom g (.separator items) rest
  | .separator items, .comma :: rest => readFrom g (.item items) rest
  | .separator items, .closing :: rest => readFrom { g with allowList := some items } .lineEnd rest
  | .lineEnd, .newline :: rest => readFrom g .lineStart rest
  | _, _ => none

/-- The configuration of a text. -/
def ofText (text : String) : Except Error Config :=
  match (Token.scan text).bind (readFrom ⟨none, none, none⟩ .lineStart) with
  | none => .error (.config .malformedText)
  | some given => do
    given.toConfig.validate
    return given.toConfig

/-- The configuration of a file, given what came of reading the file: its text, or why there is
none. -/
def ofFile (path : String) (content : Except String String) : Except Error Config :=
  match content with
  | .ok text => ofText text
  | .error reason => .error (.config (.unreadable path reason))

end SelfDescribing.Config
