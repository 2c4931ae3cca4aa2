import SelfDescribing.Decimal.Shortest

namespace SelfDescribing

/-!
# Layout of decimals

Where a decimal is written positionally and where with an exponent is the decision of each text
format; a `Layout` records it and `Layout.render?` carries it out.  A positional number always has
a point, and a zero behind it where the number is whole.
-/

/-- How a text format writes numbers. -/
structure Layout where
  /-- Where two decimals are equally short and equally near. -/
  tie : Tie
  /-- The least power of ten of a first digit that is still written positionally. -/
  positionalFrom : Int
  /-- The least power of ten of a first digit that is written with an exponent again. -/
  positionalBelow : Int
  /-- Whether a positive exponent has a sign. -/
  plusSign : Bool

namespace Layout

/-- The number with a point and no exponent. -/
def positional (d : Decimal) : List Char :=
  match d.exponent with
  | .negSucc n => '0' :: '.' :: (List.replicate n '0' ++ d.digits)
  | .ofNat n =>
    let whole := d.digits.take (n + 1)
    let fraction := d.digits.drop (n + 1)
    whole ++ List.replicate (n + 1 - whole.length) '0' ++ '.' ::
      (if fraction.isEmpty then ['0'] else fraction)

/-- The number with one digit before the point, if there is a point, and an exponent. -/
def scientific (l : Layout) (d : Decimal) : List Char :=
  let fraction := d.digits.drop 1
  d.digits.take 1 ++ (if fraction.isEmpty then [] else '.' :: fraction) ++ 'e' ::
    (if l.plusSign && decide (0 ≤ d.exponent) then ['+'] else []) ++ (toString d.exponent).toList

/-- A positive decimal in this layout. -/
def decimal (l : Layout) (d : Decimal) : List Char :=
  if l.positionalFrom ≤ d.exponent ∧ d.exponent < l.positionalBelow then positional d
  else l.scientific d

/-- The sign of a negative number. -/
def sign (negative : Bool) : List Char := if negative then ['-'] else []

/-- The text of a finite number; `none` for infinities and what is no number. -/
def render? (l : Layout) (f : BinaryFormat) (bits : Nat) : Option String :=
  match f.decode bits with
  | .nan | .infinite _ => none
  | .zero negative => some (String.ofList (sign negative ++ ['0', '.', '0']))
  | .finite negative v => some (String.ofList (sign negative ++ l.decimal (v.shortest l.tie)))

end Layout

end SelfDescribing
