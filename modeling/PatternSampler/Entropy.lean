set_option autoImplicit false

/-!
# Entropy

The entropy of a generated text is kept as an expression in the choices behind it. The expression
has two readings: a floating-point number of bits, and the exact number of outcomes that these
bits are the logarithm of.

## Main definitions

* `Entropy` — uniform choices, sums, and minima.
* `Entropy.bits` — the number of bits, rounded as the sums are taken from left to right.
* `Entropy.outcomes` — two to the power of the exact entropy.
* `Entropy.isPositive` — whether there is any choice left at all.
-/

namespace PatternSampler

/-- The entropy of a random text, as an expression. -/
inductive Entropy
  /-- A uniform choice among a number of outcomes. -/
  | choice (outcomes : Nat)
  /-- Independent parts. -/
  | sum (parts : List Entropy)
  /-- The smallest of several entropies. -/
  | least (first : Entropy) (others : List Entropy)
deriving Repr, Inhabited

namespace Entropy

/-- No entropy. -/
def zero : Entropy := sum []

/-! ## In bits -/

/-- The smaller one of two numbers. -/
def smaller (x y : Float) : Float := if y < x then y else x

mutual

/-- The number of bits. -/
def bits : Entropy → Float
  | choice n => (Float.ofNat n).log2
  | sum parts => bitsSum 0.0 parts
  | least first others => bitsLeast first.bits others

/-- The bits of independent parts on top of `total`. -/
def bitsSum (total : Float) : List Entropy → Float
  | [] => total
  | part :: rest => bitsSum (total + part.bits) rest

/-- The smallest number of bits of several entropies and of `least`. -/
def bitsLeast (least : Float) : List Entropy → Float
  | [] => least
  | other :: rest => bitsLeast (smaller least other.bits) rest

end

/-! ## In outcomes -/

mutual

/-- The number of equally likely outcomes that have this entropy. -/
def outcomes : Entropy → Nat
  | choice n => n
  | sum parts => outcomesProduct parts
  | least first others => outcomesLeast first.outcomes others

/-- The outcomes of independent parts together. -/
def outcomesProduct : List Entropy → Nat
  | [] => 1
  | part :: rest => part.outcomes * outcomesProduct rest

/-- The smallest number of outcomes of several entropies and of `least`. -/
def outcomesLeast (least : Nat) : List Entropy → Nat
  | [] => least
  | other :: rest => outcomesLeast (min least other.outcomes) rest

end

/-! ## Whether anything is random -/

mutual

/-- Whether an entropy is more than nothing. -/
def isPositive : Entropy → Bool
  | choice n => 2 ≤ n
  | sum parts => anyPositive parts
  | least first others => first.isPositive && allPositive others

/-- Whether one of several entropies is more than nothing. -/
def anyPositive : List Entropy → Bool
  | [] => false
  | part :: rest => part.isPositive || anyPositive rest

/-- Whether each of several entropies is more than nothing. -/
def allPositive : List Entropy → Bool
  | [] => true
  | other :: rest => other.isPositive && allPositive rest

end

end Entropy

end PatternSampler
