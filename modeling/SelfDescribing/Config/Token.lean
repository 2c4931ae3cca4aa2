namespace SelfDescribing.Config

/-!
# Tokens of configuration texts

A configuration text is a TOML document.  `Token.scan` cuts it into words, strings, punctuation
and line ends; blanks and comments are left out.  The settings are a number, a truth value and a
list of strings, so tables in braces and dotted keys need no tokens: a text with one is refused.
-/

/-- A piece of a configuration text. -/
inductive Token where
  | newline
  | equals
  | comma
  | opening
  | closing
  /-- A key, number or truth value. -/
  | word (s : String)
  /-- A string on one line. -/
  | string (s : String)
  /-- A string between triple quotes. -/
  | longString (s : String)
deriving DecidableEq

namespace Token

/-- What the scanner is inside of, with the characters read of it so far, last one first. -/
inductive Mode where
  | plain
  | comment
  | word (read : List Char)
  /-- A string on one line, with escapes. -/
  | basic (read : List Char)
  /-- A string on one line, without escapes. -/
  | literal (read : List Char)
  /-- A string between triple quotes, with escapes; `folding` after a backslash at the end of a
  line, while blanks and line ends are left out. -/
  | longBasic (folding : Bool) (read : List Char)
  /-- A string between triple quotes, without escapes. -/
  | longLiteral (read : List Char)

/-- A blank within a line. -/
def isSpace (c : Char) : Bool := c = ' ' || c = '\t'

/-- A character that may stand in strings and comments. -/
def isText (c : Char) : Bool := c = '\t' || decide (0x20 ≤ c.toNat) && c.toNat != 0x7f

/-- A character of a word. -/
def isWordChar (c : Char) : Bool := c.isAlphanum || c = '_' || c = '-' || c = '+' || c = '.'

/-- The value of a hexadecimal digit. -/
def hexValue? (c : Char) : Option Nat :=
  if '0' ≤ c ∧ c ≤ '9' then some (c.toNat - 48)
  else if 'a' ≤ c ∧ c ≤ 'f' then some (c.toNat - 87)
  else if 'A' ≤ c ∧ c ≤ 'F' then some (c.toNat - 55)
  else none

/-- The character with the given hexadecimal digits. -/
def codePoint? (digits : List Char) : Option Char := do
  let values ← digits.mapM hexValue?
  let n := values.foldl (fun n d => 16 * n + d) 0
  if n.isValidChar then some (Char.ofNat n) else none

/-- The character that a letter after a backslash stands for. -/
def escaped? : Char → Option Char
  | 'b' => some '\x08'
  | 't' => some '\t'
  | 'n' => some '\n'
  | 'f' => some '\x0c'
  | 'r' => some '\r'
  | '"' => some '"'
  | '\\' => some '\\'
  | _ => none

/-- Whether a line ends after blanks. -/
def endsLine (cs : List Char) : Bool :=
  match cs.dropWhile isSpace with
  | '\n' :: _ | '\r' :: '\n' :: _ => true
  | _ => false

/-- The text of characters that were read last one first. -/
def textOf (read : List Char) : String := String.ofList read.reverse

/-- A token in front of the others. -/
def followedBy (t : Token) (rest : Option (List Token)) : Option (List Token) :=
  rest.map (t :: ·)

/-- Scan in a mode; `none` where a character cannot stand. -/
def scanIn : Mode → List Char → Option (List Token)
  | .plain, [] | .comment, [] => some []
  | .word read, [] => some [word (textOf read)]
  | .basic _, [] | .literal _, [] | .longBasic .., [] | .longLiteral _, [] => none
  -- Plain
  | .plain, '"' :: '"' :: '"' :: '\n' :: rest => scanIn (.longBasic false []) rest
  | .plain, '"' :: '"' :: '"' :: '\r' :: '\n' :: rest => scanIn (.longBasic false []) rest
  | .plain, '"' :: '"' :: '"' :: rest => scanIn (.longBasic false []) rest
  | .plain, '\x27' :: '\x27' :: '\x27' :: '\n' :: rest => scanIn (.longLiteral []) rest
  | .plain, '\x27' :: '\x27' :: '\x27' :: '\r' :: '\n' :: rest => scanIn (.longLiteral []) rest
  | .plain, '\x27' :: '\x27' :: '\x27' :: rest => scanIn (.longLiteral []) rest
  | .plain, '\r' :: '\n' :: rest => newline.followedBy (scanIn .plain rest)
  | .plain, c :: rest =>
    if isSpace c then scanIn .plain rest
    else if c = '"' then scanIn (.basic []) rest
    else if c = '\x27' then scanIn (.literal []) rest
    else if c = '#' then scanIn .comment rest
    else if c = '\n' then newline.followedBy (scanIn .plain rest)
    else if c = '=' then equals.followedBy (scanIn .plain rest)
    else if c = ',' then comma.followedBy (scanIn .plain rest)
    else if c = '[' then opening.followedBy (scanIn .plain rest)
    else if c = ']' then closing.followedBy (scanIn .plain rest)
    else if isWordChar c then scanIn (.word [c]) rest
    else none
  -- Comments
  | .comment, '\r' :: '\n' :: rest => newline.followedBy (scanIn .plain rest)
  | .comment, c :: rest =>
    if c = '\n' then newline.followedBy (scanIn .plain rest)
    else if isText c then scanIn .comment rest
    else none
  -- Words
  | .word read, '\r' :: '\n' :: rest =>
    (word (textOf read)).followedBy (newline.followedBy (scanIn .plain rest))
  | .word read, c :: rest =>
    if isWordChar c then scanIn (.word (c :: read)) rest
    else (word (textOf read)).followedBy <|
      if isSpace c then scanIn .plain rest
      else if c = '#' then scanIn .comment rest
      else if c = '\n' then newline.followedBy (scanIn .plain rest)
      else if c = '=' then equals.followedBy (scanIn .plain rest)
      else if c = ',' then comma.followedBy (scanIn .plain rest)
      else if c = ']' then closing.followedBy (scanIn .plain rest)
      else none
  -- Strings on one line
  | .basic read, '\\' :: 'u' :: a :: b :: c :: d :: rest =>
    match codePoint? [a, b, c, d] with
    | some x => scanIn (.basic (x :: read)) rest
    | none => none
  | .basic read, '\\' :: 'U' :: a :: b :: c :: d :: e :: f :: g :: h :: rest =>
    match codePoint? [a, b, c, d, e, f, g, h] with
    | some x => scanIn (.basic (x :: read)) rest
    | none => none
  | .basic read, '\\' :: c :: rest =>
    match escaped? c with
    | some x => scanIn (.basic (x :: read)) rest
    | none => none
  | .basic read, c :: rest =>
    if c = '"' then (string (textOf read)).followedBy (scanIn .plain rest)
    else if c ≠ '\\' && isText c then scanIn (.basic (c :: read)) rest
    else none
  | .literal read, c :: rest =>
    if c = '\x27' then (string (textOf read)).followedBy (scanIn .plain rest)
    else if isText c then scanIn (.literal (c :: read)) rest
    else none
  -- Strings between triple quotes; up to two quotes before the closing ones belong to the string
  | .longBasic _ read, '"' :: '"' :: '"' :: '"' :: '"' :: rest =>
    (longString (textOf ('"' :: '"' :: read))).followedBy (scanIn .plain rest)
  | .longBasic _ read, '"' :: '"' :: '"' :: '"' :: rest =>
    (longString (textOf ('"' :: read))).followedBy (scanIn .plain rest)
  | .longBasic _ read, '"' :: '"' :: '"' :: rest =>
    (longString (textOf read)).followedBy (scanIn .plain rest)
  | .longBasic _ read, '\\' :: 'u' :: a :: b :: c :: d :: rest =>
    match codePoint? [a, b, c, d] with
    | some x => scanIn (.longBasic false (x :: read)) rest
    | none => none
  | .longBasic _ read, '\\' :: 'U' :: a :: b :: c :: d :: e :: f :: g :: h :: rest =>
    match codePoint? [a, b, c, d, e, f, g, h] with
    | some x => scanIn (.longBasic false (x :: read)) rest
    | none => none
  | .longBasic folding read, '\r' :: '\n' :: rest =>
    scanIn (.longBasic folding (if folding then read else '\n' :: read)) rest
  | .longBasic _ read, '\\' :: c :: rest =>
    if endsLine (c :: rest) then
      scanIn (.longBasic true read) rest
    else match escaped? c with
      | some x => scanIn (.longBasic false (x :: read)) rest
      | none => none
  | .longBasic folding read, c :: rest =>
    if folding && (isSpace c || c = '\n') then scanIn (.longBasic true read) rest
    else if c ≠ '\\' && (c = '\n' || isText c) then scanIn (.longBasic false (c :: read)) rest
    else none
  | .longLiteral read, '\x27' :: '\x27' :: '\x27' :: '\x27' :: '\x27' :: rest =>
    (longString (textOf ('\x27' :: '\x27' :: read))).followedBy (scanIn .plain rest)
  | .longLiteral read, '\x27' :: '\x27' :: '\x27' :: '\x27' :: rest =>
    (longString (textOf ('\x27' :: read))).followedBy (scanIn .plain rest)
  | .longLiteral read, '\x27' :: '\x27' :: '\x27' :: rest =>
    (longString (textOf read)).followedBy (scanIn .plain rest)
  | .longLiteral read, '\r' :: '\n' :: rest => scanIn (.longLiteral ('\n' :: read)) rest
  | .longLiteral read, c :: rest =>
    if c = '\n' || isText c then scanIn (.longLiteral (c :: read)) rest else none

/-- The tokens of a text, a byte order mark at its start left out. -/
def scan (text : String) : Option (List Token) :=
  match text.toList with
  | '\ufeff' :: rest => scanIn .plain rest
  | cs => scanIn .plain cs

end Token

end SelfDescribing.Config
