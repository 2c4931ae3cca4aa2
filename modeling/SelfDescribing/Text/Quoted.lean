import SelfDescribing.Text.DefaultIgnorable
import SelfDescribing.Text.GraphemeExtend
import SelfDescribing.Text.Hex

namespace SelfDescribing.Quoted

/-!
# Quoted text

Strings and characters as they appear in messages: between quotes, with the quote itself, the
backslash and four controls escaped by a letter, and every other character that would not show,
or would join its neighbour, given by its code point.
-/

/-- A character given by its code point. -/
def codePoint (c : Char) : List Char :=
  ['\\', 'u', '\x7b'] ++ Nat.toDigits 16 c.toNat ++ ['\x7d']

/-- Whether a character joins the one before it: all that extend a grapheme, but for the two
halfwidth sound marks, which are letters with a width of their own. -/
def joins (c : Char) : Bool :=
  isGraphemeExtend c && c != '\uff9e' && c != '\uff9f'

/-- Whether a character is given by its code point. -/
def isGivenByCode (c : Char) : Bool := joins c || isDefaultIgnorable c || isUnprintable c

/-- One character between quotes of the kind `quote`. -/
def escape (quote c : Char) : List Char :=
  if c = '\x00' then ['\\', '0']
  else if c = '\t' then ['\\', 't']
  else if c = '\r' then ['\\', 'r']
  else if c = '\n' then ['\\', 'n']
  else if c = '\\' ∨ c = quote then ['\\', c]
  else if isGivenByCode c then codePoint c
  else [c]

/-- A string between double quotes. -/
def string (s : String) : String :=
  String.ofList ('"' :: s.toList.flatMap (escape '"') ++ ['"'])

/-- A character between single quotes. -/
def char (c : Char) : String :=
  String.ofList ('\x27' :: escape '\x27' c ++ ['\x27'])

end SelfDescribing.Quoted
