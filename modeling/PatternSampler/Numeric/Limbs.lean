import PatternSampler.Text.Numeral

set_option autoImplicit false

/-!
# Limbs

A number of any size as a row of limbs, which are digits in the base of a thousand million. The row
starts with the least significant limb, so that a number grows at its end.

## Main definitions

* `limbSize` — the base.
* `Limbs.sums`, `Limbs.carryOut` — what one pass over the limbs adds up and what it leaves over.
* `Limbs.push` — the limbs with one more hexadecimal digit behind their number.
* `Limbs.render` — the limbs in decimal.

## Implementation notes

The base is a power of ten, so that each limb is written by itself. All limbs but the most
significant one are filled up with zeros to nine digits.
-/

namespace PatternSampler

/-- The base of the limbs. -/
def limbSize : Nat := 1000000000

namespace Limbs

/-- The sums of one pass over the limbs: sixteen times a limb and what the limb below carries. -/
def sums (carry : Nat) : List Nat → List Nat
  | [] => []
  | limb :: higher =>
    let sum := limb * 16 + carry
    sum :: sums (sum / limbSize) higher

/-- What one pass over the limbs carries out of the last one. -/
def carryOut (carry : Nat) : List Nat → Nat
  | [] => carry
  | limb :: higher => carryOut ((limb * 16 + carry) / limbSize) higher

/-- The limbs with a hexadecimal digit behind their number. A carry out of the last limb is a new
limb. -/
def push (digit : Nat) (limbs : List Nat) : List Nat :=
  let carry := carryOut digit limbs
  (sums digit limbs).map (· % limbSize) ++ if 0 < carry then [carry] else []

/-- The limbs in decimal, without zeros in front of the most significant one. -/
def render (limbs : List Nat) : String :=
  match limbs.reverse with
  | [] => ""
  | top :: lower => top.repr ++ String.join (lower.map (zeroPaddedNat 9))

end Limbs

end PatternSampler
