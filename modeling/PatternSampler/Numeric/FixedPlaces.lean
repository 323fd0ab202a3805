import PatternSampler.Text.Numeral

set_option autoImplicit false

/-!
# Fixed decimal places

A number is written with a fixed number of digits behind the point. The digits are those of the
nearest decimal, and of two that are equally near those with an even last digit.

## Main definitions

* `roundDiv` — a quotient rounded to the nearest whole number.
* `dyadic` — a finite number as a significand and a power of two.
* `fixedPlaces` — its digits.
-/

namespace PatternSampler

/-- The whole number nearest to a quotient. A half goes to the even neighbour. -/
def roundDiv (numerator denominator : Nat) : Nat :=
  let quotient := numerator / denominator
  let twice := 2 * (numerator % denominator)
  if twice < denominator then quotient
  else if denominator < twice then quotient + 1
  else if quotient % 2 = 0 then quotient else quotient + 1

/-- The number of values of the fraction in 64 bits. -/
def fractionSize : Nat := 0x10000000000000

/-- A finite number of 64 bits without its sign, as a significand and an exponent of two. -/
def dyadic (x : Float) : Nat × Int :=
  let bits := x.toBits.toNat
  let exponent : Nat := bits / fractionSize % 0x800
  let fraction : Nat := bits % fractionSize
  if exponent = 0 then (fraction, -1074) else (fraction + fractionSize, (exponent : Int) - 1075)

/-- The significand times a power of two, in units of the decimal place `places`. -/
def scaled (places significand : Nat) : Int → Nat
  | .ofNat exponent => significand * Nat.pow 10 places * Nat.pow 2 exponent
  | .negSucc exponent => roundDiv (significand * Nat.pow 10 places) (Nat.pow 2 (exponent + 1))

/-- A finite number with `places` digits behind the point. -/
def fixedPlaces (places : Nat) (x : Float) : String :=
  let (significand, exponent) := dyadic x
  let units := scaled places significand exponent
  let sign := if 0x8000000000000000 ≤ x.toBits.toNat then "-" else ""
  sign ++ (units / Nat.pow 10 places).repr ++ "." ++
    zeroPaddedNat places (units % Nat.pow 10 places)

end PatternSampler
