import Mathlib
import PatternSampler.Encoding.Bits

set_option autoImplicit false

/-!
# Bits of numbers and bytes

The bits of a number can be cut anywhere, and the bits of a row of bytes give the bytes back even if
some bits follow them.

## Main definitions

* `Bits.toBytes` — the whole bytes at the front of a row of bits.

## Main results

* `Bits.ofNat_add` — the higher and the lower bits of a number.
* `Bits.value_ofNat` — the number that the lowest bits of a number spell.
* `Bits.toBytes_ofBytes_append` — the bytes of the bits of a row of bytes.
-/

namespace PatternSampler.Bits

/-! ## Bits of numbers -/

/-- Only the bits below `width` count. -/
lemma ofNat_congr {width m n : Nat} (h : ∀ i < width, m.testBit i = n.testBit i) :
    ofNat width m = ofNat width n := by
  induction width with
  | zero => rfl
  | succ width ih => rw [ofNat, ofNat, h width (by omega), ih fun i hi => h i (by omega)]

/-- The higher and the lower bits of a number. -/
theorem ofNat_add (high low n : Nat) :
    ofNat (high + low) n = ofNat high (n >>> low) ++ ofNat low n := by
  induction high with
  | zero => rw [Nat.zero_add, ofNat, List.nil_append]
  | succ high ih =>
    rw [Nat.add_right_comm, ofNat, ofNat, ih, Nat.testBit_shiftRight, Nat.add_comm low,
      List.cons_append]

/-- The higher bits of a number are those of the number shifted. -/
lemma take_ofNat (high low n : Nat) :
    (ofNat (high + low) n).take high = ofNat high (n >>> low) := by
  rw [ofNat_add, List.take_left' (length_ofNat high _)]

/-- The bits of zero are all off. -/
lemma ofNat_zero (width : Nat) : ofNat width 0 = List.replicate width false := by
  induction width with
  | zero => rfl
  | succ width ih => rw [ofNat, ih, Nat.zero_testBit, List.replicate_succ]

/-- The value of bits behind others is that of both, with the first ones shifted. -/
lemma value_append (front back : List Bool) :
    value (front ++ back) = value front * 2 ^ back.length + value back := by
  induction back using List.reverseRecOn with
  | nil => simp [value]
  | append_singleton back bit ih =>
    have hconcat (bits : List Bool) : value (bits ++ [bit]) = 2 * value bits + bit.toNat := by
      simp [value]
    rw [← List.append_assoc, hconcat, hconcat, ih, List.length_append, List.length_singleton,
      pow_succ]
    ring

/-- The number that the lowest bits of a number spell. -/
theorem value_ofNat (width n : Nat) : value (ofNat width n) = n % 2 ^ width := by
  induction width with
  | zero => rw [pow_zero, Nat.mod_one]; rfl
  | succ width ih =>
    have hbit : value [n.testBit width] = (n.testBit width).toNat := by simp [value]
    rw [ofNat, ← List.singleton_append, value_append, length_ofNat, ih, hbit, Nat.toNat_testBit,
      Nat.mod_pow_succ, Nat.add_comm, Nat.mul_comm]

/-! ## Bits of bytes -/

/-- No bytes have no bits. -/
@[simp] lemma ofBytes_nil : ofBytes [] = [] := rfl

/-- The bits of the first byte come first. -/
lemma ofBytes_cons (byte : UInt8) (rest : List UInt8) :
    ofBytes (byte :: rest) = ofNat 8 byte.toNat ++ ofBytes rest := rfl

/-- The bits of two rows of bytes are one row behind the other. -/
lemma ofBytes_append (x y : List UInt8) : ofBytes (x ++ y) = ofBytes x ++ ofBytes y :=
  List.flatMap_append

/-- The bits of bytes that are zero are all off. -/
lemma ofBytes_replicate_zero (n : Nat) :
    ofBytes (List.replicate n 0) = List.replicate (8 * n) false := by
  induction n with
  | zero => rfl
  | succ n ih =>
    rw [List.replicate_succ, ofBytes_cons, ih, show (0 : UInt8).toNat = 0 from rfl, ofNat_zero,
      List.replicate_append_replicate, Nat.mul_succ, Nat.add_comm]

/-- The whole bytes at the front of a row of bits. -/
def toBytes : List Bool → List UInt8
  | b₇ :: b₆ :: b₅ :: b₄ :: b₃ :: b₂ :: b₁ :: b₀ :: rest =>
    UInt8.ofNat (value [b₇, b₆, b₅, b₄, b₃, b₂, b₁, b₀]) :: toBytes rest
  | _ => []

/-- The bits of a byte at the front are read as this byte. -/
lemma toBytes_ofNat_append (byte : UInt8) (rest : List Bool) :
    toBytes (ofNat 8 byte.toNat ++ rest) = byte :: toBytes rest := by
  have hvalue : UInt8.ofNat (value (ofNat 8 byte.toNat)) = byte := by
    rw [value_ofNat, Nat.mod_eq_of_lt byte.toNat_lt, UInt8.ofNat_toNat]
  calc toBytes (ofNat 8 byte.toNat ++ rest)
      = UInt8.ofNat (value (ofNat 8 byte.toNat)) :: toBytes rest := rfl
    _ = byte :: toBytes rest := by rw [hvalue]

/-- Less than eight bits are no byte. -/
lemma toBytes_of_length_lt {bits : List Bool} (h : bits.length < 8) : toBytes bits = [] := by
  unfold toBytes
  split
  · simp only [List.length_cons] at h
    omega
  · rfl

/-- The bytes of the bits of a row of bytes, if less than a byte follows them. -/
theorem toBytes_ofBytes_append (bytes : List UInt8) {rest : List Bool} (h : rest.length < 8) :
    toBytes (ofBytes bytes ++ rest) = bytes := by
  induction bytes with
  | nil => exact toBytes_of_length_lt h
  | cons byte bytes ih => rw [ofBytes_cons, List.append_assoc, toBytes_ofNat_append, ih]

end PatternSampler.Bits
