set_option autoImplicit false

/-!
# Rows of bits

Base 64 and mnemonics both cut the bits of a row of bytes into groups of their own size and write
one symbol for each group.

## Main definitions

* `Bits.ofNat`, `Bits.value` — a number of a fixed width as bits, most significant first.
* `Bits.ofBytes` — the bits of a row of bytes.
* `Bits.groups` — the values of the groups of a given width, the last one filled up with zeros.

## Main results

* `Bits.length_ofNat`, `Bits.length_ofBytes`.
-/

namespace PatternSampler.Bits

/-- The lowest `width` bits of a number, most significant first. -/
def ofNat : (width : Nat) → Nat → List Bool
  | 0, _ => []
  | width + 1, n => n.testBit width :: ofNat width n

/-- The number that a row of bits spells, most significant first. -/
def value (bits : List Bool) : Nat := bits.foldl (fun n bit => 2 * n + bit.toNat) 0

/-- The bits of a row of bytes. -/
def ofBytes (bytes : List UInt8) : List Bool := bytes.flatMap fun byte => ofNat 8 byte.toNat

/-- Groups of `width` bits, a positive number. The last group is filled up with zeros. -/
def chunks (width : Nat) : List Bool → List (List Bool)
  | [] => []
  | bit :: rest =>
    let group := bit :: rest.take (width - 1)
    (group ++ List.replicate (width - group.length) false) :: chunks width (rest.drop (width - 1))
termination_by bits => bits.length
decreasing_by
  simp only [List.length_drop, List.length_cons]
  omega

/-- The values of the groups of `width` bits. -/
def groups (width : Nat) (bits : List Bool) : List Nat := (chunks width bits).map value

/-- A number is written with as many bits as asked for. -/
@[simp] theorem length_ofNat (width n : Nat) : (ofNat width n).length = width := by
  induction width with
  | zero => rfl
  | succ width ih => simp [ofNat, ih]

/-- Each byte has eight bits. -/
@[simp] theorem length_ofBytes (bytes : List UInt8) :
    (ofBytes bytes).length = 8 * bytes.length := by
  induction bytes with
  | nil => rfl
  | cons byte rest ih =>
    simp only [ofBytes, List.flatMap_cons, List.length_append, length_ofNat, List.length_cons] at *
    omega

end PatternSampler.Bits
