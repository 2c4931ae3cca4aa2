namespace SelfDescribing

/-!
# Decimals with two places

A quotient of natural numbers, rounded to hundredths; a half goes to the even neighbour.
-/

/-- The whole number nearest to `numerator / denominator`; of two equally near ones the even one. -/
def roundDiv (numerator denominator : Nat) : Nat :=
  let below := numerator / denominator
  let rest := numerator % denominator
  if 2 * rest < denominator then below
  else if denominator < 2 * rest then below + 1
  else if below % 2 = 0 then below
  else below + 1

/-- `numerator / denominator` with two places after the point. -/
def twoPlaces (numerator denominator : Nat) : String :=
  let hundredths := roundDiv (100 * numerator) denominator
  let fraction := hundredths % 100
  toString (hundredths / 100) ++ "." ++ (if fraction < 10 then "0" else "") ++ toString fraction

end SelfDescribing
