namespace SelfDescribing.Json

/-!
# Tokens of JSON texts

`Token.scan` cuts a JSON text into punctuation, words and strings.  A string may name half of a
surrogate pair without the other half; it has no text then, which matters only to who wants its
text.
-/

/-- A piece of a JSON text. -/
inductive Token where
  | openArray
  | closeArray
  | openObject
  | closeObject
  | comma
  | colon
  /-- A number, truth value or null. -/
  | word (s : String)
  /-- A string, with its text if it has one. -/
  | string (text : Option String)

namespace Token

/-- What the scanner is inside of, with the characters read of it so far, last one first. -/
inductive Mode where
  | plain
  | word (read : List Char)
  /-- In a string; nothing is kept once it has half of a surrogate pair. -/
  | string (read : Option (List Char))

/-- A blank between tokens. -/
def isSpace (c : Char) : Bool := c = ' ' || c = '\n' || c = '\t' || c = '\r'

/-- A character of a number, truth value or null. -/
def isWordChar (c : Char) : Bool := c.isAlphanum || c = '-' || c = '+' || c = '.'

/-- The token of a punctuation character. -/
def punctuation? : Char → Option Token
  | '[' => some openArray
  | ']' => some closeArray
  | '\x7b' => some openObject
  | '\x7d' => some closeObject
  | ',' => some comma
  | ':' => some colon
  | _ => none

/-- The value of a hexadecimal digit. -/
def hexValue? (c : Char) : Option Nat :=
  if '0' ≤ c ∧ c ≤ '9' then some (c.toNat - 48)
  else if 'a' ≤ c ∧ c ≤ 'f' then some (c.toNat - 87)
  else if 'A' ≤ c ∧ c ≤ 'F' then some (c.toNat - 55)
  else none

/-- The 16-bit unit with the given hexadecimal digits. -/
def unit? (a b c d : Char) : Option Nat := do
  return 4096 * (← hexValue? a) + 256 * (← hexValue? b) + 16 * (← hexValue? c) + (← hexValue? d)

/-- Whether a unit is the first half of a pair. -/
def isLeading (n : Nat) : Bool := decide (0xd800 ≤ n) && decide (n < 0xdc00)

/-- Whether a unit is the second half of a pair. -/
def isTrailing (n : Nat) : Bool := decide (0xdc00 ≤ n) && decide (n < 0xe000)

/-- The character of a pair. -/
def ofPair (leading trailing : Nat) : Char :=
  Char.ofNat (0x10000 + 1024 * (leading - 0xd800) + (trailing - 0xdc00))

/-- The character that a letter after a backslash stands for. -/
def escaped? : Char → Option Char
  | '"' => some '"'
  | '\\' => some '\\'
  | '/' => some '/'
  | 'b' => some '\x08'
  | 'f' => some '\x0c'
  | 'n' => some '\n'
  | 'r' => some '\r'
  | 't' => some '\t'
  | _ => none

/-- One more character of a string. -/
def keep (c : Char) (read : Option (List Char)) : Option (List Char) := read.map (c :: ·)

/-- The text of characters that were read last one first. -/
def textOf (read : List Char) : String := String.ofList read.reverse

/-- A token in front of the others. -/
def followedBy (t : Token) (rest : Option (List Token)) : Option (List Token) :=
  rest.map (t :: ·)

/-- Scan in a mode; `none` where a character cannot stand. -/
def scanIn : Mode → List Char → Option (List Token)
  | .plain, [] => some []
  | .word read, [] => some [word (textOf read)]
  | .string _, [] => none
  | .plain, c :: rest =>
    if isSpace c then scanIn .plain rest
    else if c = '"' then scanIn (.string (some [])) rest
    else if isWordChar c then scanIn (.word [c]) rest
    else match punctuation? c with
      | some t => t.followedBy (scanIn .plain rest)
      | none => none
  | .word read, c :: rest =>
    if isWordChar c then scanIn (.word (c :: read)) rest
    else (word (textOf read)).followedBy <|
      if isSpace c then scanIn .plain rest
      else match punctuation? c with
        | some t => t.followedBy (scanIn .plain rest)
        | none => none
  | .string read, '\\' :: 'u' :: a :: b :: c :: d :: '\\' :: 'u' :: e :: f :: g :: h :: rest =>
    match unit? a b c d, unit? e f g h with
    | some m, some n =>
      if isLeading m && isTrailing n then scanIn (.string (keep (ofPair m n) read)) rest
      else if isLeading m || isTrailing m then
        scanIn (.string none) ('\\' :: 'u' :: e :: f :: g :: h :: rest)
      else
        scanIn (.string (keep (Char.ofNat m) read)) ('\\' :: 'u' :: e :: f :: g :: h :: rest)
    | _, _ => none
  | .string read, '\\' :: 'u' :: a :: b :: c :: d :: rest =>
    match unit? a b c d with
    | some m =>
      if isLeading m || isTrailing m then scanIn (.string none) rest
      else scanIn (.string (keep (Char.ofNat m) read)) rest
    | none => none
  | .string read, '\\' :: c :: rest =>
    match escaped? c with
    | some x => scanIn (.string (keep x read)) rest
    | none => none
  | .string read, c :: rest =>
    if c = '"' then (string (read.map textOf)).followedBy (scanIn .plain rest)
    else if c ≠ '\\' && decide (0x20 ≤ c.toNat) then scanIn (.string (keep c read)) rest
    else none

/-- The tokens of a text. -/
def scan (text : String) : Option (List Token) := scanIn .plain text.toList

end Token

end SelfDescribing.Json
