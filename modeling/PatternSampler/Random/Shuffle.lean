import PatternSampler.Random.Uniform

set_option autoImplicit false

/-!
# Shuffling

A row is shuffled from the front: each element is swapped with one of the elements up to itself.
One draw serves several swaps. It is a number below a product of consecutive radices, and the swap
indices are its digits in these radices.

## Main definitions

* `radixProduct` — the largest product of consecutive numbers that fits in one word.
* `RadixGroup` — consecutive places whose swap indices come from one draw.
* `radixGroups` — the groups of a row, which depend on its length alone.
* `RadixGroup.indices` — the swap indices in a drawn value.
* `swapAll` — the swaps themselves.
* `shuffle` — a shuffled row and the position behind the draws.

## Main results

* `le_radixProduct_snd` — each group has at least one place.

## Implementation notes

The last group may reach beyond the row. Its draw is made all the same, and the indices that have
no place are dropped.
-/

namespace PatternSampler

/-- The product `bound * next * (next + 1) * …` as far as it fits in one word, and the first
factor left out. -/
def radixProduct (bound next : Nat) : Nat × Nat :=
  if 0 < bound ∧ bound * next < wordSize then radixProduct (bound * next) (next + 1)
  else (bound, next)
termination_by wordSize - next
decreasing_by
  rename_i h
  have : next ≤ bound * next := Nat.le_mul_of_pos_left next h.1
  omega

/-- Factors are taken in order, so the first one left out is not smaller than the first one. -/
theorem le_radixProduct_snd (bound next : Nat) : next ≤ (radixProduct bound next).2 := by
  fun_induction radixProduct bound next with
  | case1 bound next h ih => omega
  | case2 => exact Nat.le_refl _

/-! ## Groups of places -/

/-- `count` consecutive places, the first of which has `radix` possible swap indices. All of them
come from one value below `bound`. -/
structure RadixGroup where
  radix : Nat
  count : Nat
  bound : Nat
deriving DecidableEq, Repr, Inhabited

namespace RadixGroup

/-- The group of places that starts with `radix` possible swap indices. -/
def ofRadix (radix : Nat) : RadixGroup :=
  let (bound, next) := radixProduct radix (radix + 1)
  ⟨radix, next - radix, bound⟩

/-- The next `count` digits of a value, from the radix `radix` on. The last one is what is left of
the value. -/
def digits : (count radix value : Nat) → List Nat
  | 0, _, _ => []
  | 1, _, value => [value]
  | count + 1, radix, value => value % radix :: digits count (radix + 1) (value / radix)

/-- The swap indices in a drawn value. -/
def indices (g : RadixGroup) (value : Nat) : List Nat := digits g.count g.radix value

/-- Each group has at least one place. -/
theorem count_ofRadix_pos (radix : Nat) : 0 < (ofRadix radix).count := by
  have := le_radixProduct_snd radix (radix + 1)
  simp only [ofRadix]
  omega

end RadixGroup

/-- The groups of the places from `place` on in a row of `length` elements. -/
def radixGroups (length place : Nat) : List RadixGroup :=
  if place < length then
    .ofRadix (place + 1) :: radixGroups length (place + (RadixGroup.ofRadix (place + 1)).count)
  else []
termination_by length - place
decreasing_by
  have := RadixGroup.count_ofRadix_pos (place + 1)
  omega

/-! ## Shuffling a row -/

/-- One draw below each of several bounds, and the position behind the draws. -/
def drawEach (stream : WordStream) : List Nat → Nat → List Nat × Nat
  | [], position => ([], position)
  | bound :: rest, position =>
    let (value, position) := uniform stream bound position
    let (values, position) := drawEach stream rest position
    (value :: values, position)

/-- The swap indices in the values drawn for some groups. -/
def swapIndices (groups : List RadixGroup) (values : List Nat) : List Nat :=
  (List.zipWith RadixGroup.indices groups values).flatten

/-- Swaps each place from `place` on with the index given for it. Indices without a place have no
effect. -/
def swapAll {α : Type} : (place : Nat) → List Nat → Array α → Array α
  | _, [], row => row
  | place, index :: later, row => swapAll (place + 1) later (row.swapIfInBounds place index)

/-- A shuffled row, and the position behind the draws. The first place is not swapped, so that
rows of less than two elements take no draws. -/
def shuffle {α : Type} (stream : WordStream) (row : List α) (position : Nat) : List α × Nat :=
  let groups := radixGroups row.length 1
  let (values, position) := drawEach stream (groups.map RadixGroup.bound) position
  ((swapAll 1 (swapIndices groups values) row.toArray).toList, position)

end PatternSampler
