import PatternSampler.Text.Scalar

set_option autoImplicit false

/-!
# Ranges of characters

A range is given by the numbers of its first character and of the one behind its last. Ranges
are never empty.

## Main definitions

* `CharRange` — a nonempty range.
* `CharRange.ofBounds?`, `CharRange.ofChars?` — the range between two bounds.
* `CharRange.minus` — what a range leaves of another one.
* `cutAll` — what several ranges leave of several others.

## Main results

* `pairwise_cutAll` — cutting keeps ranges apart from one another.
* `apart_of_mem_cutAll` — what is left lies apart from everything that was cut out.
-/

namespace PatternSampler

/-- A nonempty range of characters, by number. -/
structure CharRange where
  first : Nat
  stop : Nat
  first_lt_stop : first < stop
  stop_le : stop ≤ scalarCount
deriving DecidableEq, Repr

namespace CharRange

/-- The range from number `first` up to but not including number `stop`. -/
def ofBounds? (first stop : Nat) : Option CharRange :=
  if h : first < stop ∧ stop ≤ scalarCount then some ⟨first, stop, h.1, h.2⟩ else none

/-- The range of a single character. -/
def singleton (c : Char) : CharRange := ⟨rank c, rank c + 1, Nat.lt_succ_self _, rank_lt c⟩

/-- The range from one character to another, both included. -/
def ofChars? (low high : Char) : Option CharRange := ofBounds? (rank low) (rank high + 1)

/-- The number of characters in a range. -/
def size (r : CharRange) : Nat := r.stop - r.first

/-- The characters of a range in order. -/
def toList (r : CharRange) : List Char := (List.range' r.first r.size).map ofRank

/-- Whether a character lies in a range. -/
def contains (r : CharRange) (c : Char) : Bool := r.first ≤ rank c && rank c < r.stop

/-- Two ranges have no character in common. -/
def Apart (r s : CharRange) : Prop := r.stop ≤ s.first ∨ s.stop ≤ r.first

/-- Whether two ranges lie apart can be decided by their ends. -/
instance (r s : CharRange) : Decidable (Apart r s) :=
  inferInstanceAs (Decidable (_ ∨ _))

/-- What is left of `r` without `s`: the part in front of it and the part behind it. -/
def minus (r s : CharRange) : List CharRange :=
  (ofBounds? r.first (min r.stop s.first)).toList ++
    (ofBounds? (max r.first s.stop) r.stop).toList

/-- A range made from two bounds has these bounds. -/
theorem eq_of_mem_ofBounds? {first stop : Nat} {r : CharRange}
    (h : r ∈ (ofBounds? first stop).toList) : r.first = first ∧ r.stop = stop := by
  unfold ofBounds? at h
  split at h
  · simp only [Option.toList_some, List.mem_singleton] at h
    subst h
    exact ⟨rfl, rfl⟩
  · simp at h

/-- What is left of a range lies inside it and apart from what was cut out. -/
theorem of_mem_minus {p r s : CharRange} (h : p ∈ r.minus s) :
    r.first ≤ p.first ∧ p.stop ≤ r.stop ∧ Apart s p := by
  rcases List.mem_append.1 h with h | h
  · have := eq_of_mem_ofBounds? h
    refine ⟨by omega, by omega, .inr ?_⟩
    omega
  · have := eq_of_mem_ofBounds? h
    refine ⟨by omega, by omega, .inl ?_⟩
    omega

/-- The parts that are left lie apart from each other. -/
theorem pairwise_minus (r s : CharRange) : (r.minus s).Pairwise Apart := by
  have hs := s.first_lt_stop
  refine List.pairwise_append.2 ⟨?_, ?_, ?_⟩
  · cases ofBounds? r.first (min r.stop s.first) <;> simp
  · cases ofBounds? (max r.first s.stop) r.stop <;> simp
  · intro a ha b hb
    have ha := eq_of_mem_ofBounds? ha
    have hb := eq_of_mem_ofBounds? hb
    left
    omega

end CharRange

open CharRange

/-- What is left of `ranges` without `holes`, in the same order. -/
def cutAll (ranges : List CharRange) (holes : List CharRange) : List CharRange :=
  holes.foldl (fun pieces hole => pieces.flatMap fun piece => piece.minus hole) ranges

/-- Cutting a hole out of ranges that lie apart leaves pieces that lie apart. -/
theorem pairwise_flatMap_minus {ranges : List CharRange} (h : ranges.Pairwise Apart)
    (hole : CharRange) : (ranges.flatMap fun piece => piece.minus hole).Pairwise Apart := by
  induction ranges with
  | nil => simp
  | cons r rest ih =>
    obtain ⟨hr, hrest⟩ := List.pairwise_cons.1 h
    rw [List.flatMap_cons]
    refine List.pairwise_append.2 ⟨pairwise_minus r hole, ih hrest, ?_⟩
    intro a ha b hb
    obtain ⟨s, hs, hb⟩ := List.mem_flatMap.1 hb
    have ha := of_mem_minus ha
    have hb := of_mem_minus hb
    rcases hr s hs with hrs | hrs
    · left; omega
    · right; omega

/-- Cutting several holes out of ranges that lie apart leaves pieces that lie apart. -/
theorem pairwise_cutAll {ranges : List CharRange} (h : ranges.Pairwise Apart)
    (holes : List CharRange) : (cutAll ranges holes).Pairwise Apart := by
  induction holes generalizing ranges with
  | nil => exact h
  | cons hole rest ih => exact ih (pairwise_flatMap_minus h hole)

/-- What is left lies inside one of the given ranges. -/
theorem exists_of_mem_cutAll {ranges holes : List CharRange} {p : CharRange}
    (h : p ∈ cutAll ranges holes) : ∃ r ∈ ranges, r.first ≤ p.first ∧ p.stop ≤ r.stop := by
  induction holes generalizing ranges with
  | nil => exact ⟨p, h, Nat.le_refl _, Nat.le_refl _⟩
  | cons hole rest ih =>
    obtain ⟨q, hq, hp⟩ := ih h
    obtain ⟨r, hr, hq⟩ := List.mem_flatMap.1 hq
    have := of_mem_minus hq
    exact ⟨r, hr, by omega, by omega⟩

/-- What is left behind the holes lies apart from each of them. -/
theorem apart_of_mem_cutAll {ranges holes : List CharRange} {p hole : CharRange}
    (h : p ∈ cutAll ranges holes) (hh : hole ∈ holes) : Apart hole p := by
  induction holes generalizing ranges with
  | nil => simp at hh
  | cons first rest ih =>
    rcases List.mem_cons.1 hh with rfl | hh
    · have hleft : p ∈ cutAll (ranges.flatMap fun piece => piece.minus hole) rest := h
      obtain ⟨q, hq, hp⟩ := exists_of_mem_cutAll hleft
      obtain ⟨r, hr, hq⟩ := List.mem_flatMap.1 hq
      rcases (of_mem_minus hq).2.2 with hap | hap
      · left; omega
      · right; omega
    · exact ih h hh

end PatternSampler
