namespace SelfDescribing

/-!
# Shortest decimals

A binary floating-point number stands for a whole interval of reals: all that round to it.  The
shortest decimal of a number is the one with the fewest digits in that interval, and of those the
nearest to the number.  Everything is exact arithmetic on natural numbers.

* `BinaryFormat.decode` — bits to sign, significand and exponent.
* `Magnitude` — a positive number `m * 2 ^ q` with the interval that rounds to it.
* `Magnitude.shortest` — its shortest decimal.
-/

/-- A binary interchange format: the widths of its fraction and exponent fields. -/
structure BinaryFormat where
  fractionBits : Nat
  exponentBits : Nat

/-- The 32-bit format. -/
def BinaryFormat.single : BinaryFormat := ⟨23, 8⟩

/-- The 64-bit format. -/
def BinaryFormat.double : BinaryFormat := ⟨52, 11⟩

/-- A positive number `significand * 2 ^ exponent`.  `atPowerOfTwo` says that the neighbour below
is only half as far away as the neighbour above. -/
structure Magnitude where
  significand : Nat
  exponent : Int
  atPowerOfTwo : Bool

/-- What the bits of a floating-point number stand for. -/
inductive FloatValue where
  | nan
  | infinite (negative : Bool)
  | zero (negative : Bool)
  | finite (negative : Bool) (magnitude : Magnitude)

/-- Read the bits of a floating-point number. -/
def BinaryFormat.decode (f : BinaryFormat) (bits : Nat) : FloatValue :=
  let negative := (bits >>> (f.fractionBits + f.exponentBits)) % 2 == 1
  let exponent := (bits >>> f.fractionBits) % (1 <<< f.exponentBits)
  let fraction := bits % (1 <<< f.fractionBits)
  let lowest : Int := 2 - ((1 <<< (f.exponentBits - 1) : Nat) : Int) - f.fractionBits
  if exponent = (1 <<< f.exponentBits) - 1 then
    if fraction = 0 then .infinite negative else .nan
  else if exponent = 0 then
    if fraction = 0 then .zero negative else .finite negative ⟨fraction, lowest, false⟩
  else
    .finite negative
      ⟨fraction + (1 <<< f.fractionBits), (exponent : Int) - 1 + lowest,
        fraction == 0 && exponent > 1⟩

/-- A decimal `0.d₁d₂… * 10 ^ (exponent + 1)`: digits without trailing zeros, and the power of ten
of the first one. -/
structure Decimal where
  digits : List Char
  exponent : Int
deriving DecidableEq

/-- Which way an exact tie between two neighbouring decimals goes. -/
inductive Tie where
  | up
  | toEven

namespace Magnitude

/-- Quarter units: the number and the ends of its interval are whole multiples of this power of
two. -/
def quarter (v : Magnitude) : Int := v.exponent - 2

/-- The number, in quarter units. -/
def centre (v : Magnitude) : Nat := 4 * v.significand

/-- The upper end of the interval, in quarter units. -/
def high (v : Magnitude) : Nat := v.centre + 2

/-- The lower end of the interval, in quarter units. -/
def low (v : Magnitude) : Nat := v.centre - (if v.atPowerOfTwo then 1 else 2)

/-- The power of ten of the first digit. -/
def leading (v : Magnitude) : Int :=
  let numerator := v.centre <<< v.quarter.toNat
  let denominator := 1 <<< (-v.quarter).toNat
  if denominator ≤ numerator then
    ((Nat.toDigits 10 (numerator / denominator)).length : Int) - 1
  else
    let inverse := (denominator + numerator - 1) / numerator
    let places := (Nat.toDigits 10 (inverse - 1)).length
    Int.neg places

/-- The decimal with the digits of `coefficient`, the last of them at the power `unit` of ten. -/
def decimalOf (coefficient : Nat) (unit : Int) : Decimal :=
  let digits := Nat.toDigits 10 coefficient
  ⟨(digits.reverse.dropWhile (· == '0')).reverse, (digits.length : Int) - 1 + unit⟩

/-- The decimals with last digit at the power `unit` of ten are a grid; of the two grid points
around the number, the nearer one that rounds to it. -/
def onGrid (v : Magnitude) (tie : Tie) (unit : Int) : Option Nat :=
  -- Both sides of a comparison are multiplied by `scale`, so that all are whole numbers.
  let scale (quarters : Nat) : Nat := (quarters <<< v.quarter.toNat) * Nat.pow 10 (-unit).toNat
  let step := Nat.pow 10 unit.toNat <<< (-v.quarter).toNat
  let below := scale v.centre / step
  let rest := scale v.centre % step
  let inside (point : Nat) : Bool :=
    if v.significand % 2 = 0 then
      decide (scale v.low ≤ point * step) && decide (point * step ≤ scale v.high)
    else
      decide (scale v.low < point * step) && decide (point * step < scale v.high)
  match inside below, inside (below + 1) with
  | false, false => none
  | true, false => some below
  | false, true => some (below + 1)
  | true, true =>
      if 2 * rest < step then some below
      else if step < 2 * rest then some (below + 1)
      else match tie with
        | .up => some (below + 1)
        | .toEven => if below % 2 = 0 then some below else some (below + 1)

/-- Try ever finer grids, `tries` of them, and give up on the last. -/
def search (v : Magnitude) (tie : Tie) : (tries : Nat) → (unit : Int) → Decimal
  | 0, unit => decimalOf ((v.centre <<< v.quarter.toNat) * Nat.pow 10 (-unit).toNat
      / (Nat.pow 10 unit.toNat <<< (-v.quarter).toNat)) unit
  | tries + 1, unit =>
    match v.onGrid tie unit with
    | some coefficient => decimalOf coefficient unit
    | none => v.search tie tries (unit - 1)

/-- The shortest decimal that rounds to the number; seventeen digits always suffice for the
formats of this file. -/
def shortest (v : Magnitude) (tie : Tie) : Decimal :=
  v.search tie 17 v.leading

end Magnitude

end SelfDescribing
