import PatternSampler.CharSet.Range

set_option autoImplicit false

/-!
# Character sets

A set of characters in the order in which they were added. Sampling picks a member by its place
in this order, so the order is part of a set.

## Main definitions

* `CharSet` — ranges that lie apart from each other.
* `CharSet.insert`, `CharSet.insertAll` — adds what is not in the set yet.
* `CharSet.size`, `CharSet.get`, `CharSet.toList` — the members in order.
* `CharSet.complement` — the printable ASCII characters outside a set.

## Implementation notes

A set may have a million members, so its members are never listed to answer a question about it.
-/

namespace PatternSampler

/-- A set of characters in the order in which they were added. -/
structure CharSet where
  ranges : List CharRange
  apart : ranges.Pairwise CharRange.Apart
deriving DecidableEq

namespace CharSet

/-- No characters. -/
def empty : CharSet := ⟨[], .nil⟩

/-- By default a set is empty. -/
instance : Inhabited CharSet := ⟨empty⟩

/-- Adds the characters of a range that are not in the set yet, in order, behind the others. -/
def insert (set : CharSet) (r : CharRange) : CharSet where
  ranges := set.ranges ++ cutAll [r] set.ranges
  apart := List.pairwise_append.2
    ⟨set.apart, pairwise_cutAll (List.pairwise_singleton _ _) _,
      fun _ ha _ hb => apart_of_mem_cutAll hb ha⟩

/-- Adds the characters of several ranges one after the other. -/
def insertAll (set : CharSet) (ranges : List CharRange) : CharSet := ranges.foldl insert set

/-- The set of the characters of several ranges. -/
def ofRanges (ranges : List CharRange) : CharSet := empty.insertAll ranges

/-- The printable ASCII characters in order, from the space to the tilde. -/
def printable : CharSet := ofRanges (CharRange.ofChars? ' ' '~').toList

/-- The printable ASCII characters that are not in a set. -/
def complement (set : CharSet) : CharSet where
  ranges := cutAll printable.ranges set.ranges
  apart := pairwise_cutAll printable.apart _

/-- Whether a set has no members. -/
def isEmpty (set : CharSet) : Bool := set.ranges.isEmpty

/-- Whether a character is in a set. -/
def contains (set : CharSet) (c : Char) : Bool := set.ranges.any fun r => r.contains c

/-- The members in order. -/
def toList (set : CharSet) : List Char := set.ranges.flatMap CharRange.toList

/-- The number of characters in ranges that lie apart. -/
def total : List CharRange → Nat
  | [] => 0
  | r :: rest => r.size + total rest

/-- The number of members. -/
def size (set : CharSet) : Nat := total set.ranges

/-- The number of the character at place `i` of some ranges. -/
def rankAt : (ranges : List CharRange) → (i : Nat) → i < total ranges → Nat
  | r :: rest, i, h =>
    if hi : i < r.size then r.first + i
    else rankAt rest (i - r.size) (by
      simp only [total] at h
      omega)

/-- The member at a place. -/
def get (set : CharSet) (i : Fin set.size) : Char := ofRank (rankAt set.ranges i i.isLt)

end CharSet

end PatternSampler
