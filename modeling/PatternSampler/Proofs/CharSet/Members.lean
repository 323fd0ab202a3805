import Mathlib.Data.Finset.Card
import Mathlib.Data.Set.Card
import PatternSampler.CharSet.Basic

set_option autoImplicit false

/-!
# The members of a set

A set has each of its members at some place, and it has no more members than there are characters.
Adding and cutting out ranges adds and takes away their characters.

## Main definitions

* `CharSet.ranks` — the numbers of the characters in ranges, in order.

## Main results

* `CharSet.size_le` — a set is not larger than the set of all characters.
* `CharSet.contains_iff` — the members are what stands at the places.
* `CharSet.ncard_contains` — the size of a set is the number of its members.
* `CharSet.nodup_toList`, `CharSet.mem_toList` — each member is listed once.
* `CharSet.contains_insert`, `CharSet.contains_complement` — the members behind an operation.
-/

namespace PatternSampler

namespace CharSet

/-- The numbers of the characters in ranges, in order. -/
def ranks (ranges : List CharRange) : List Nat :=
  ranges.flatMap fun r => List.range' r.first r.size

/-- The numbers in a row of ranges are those that lie in one of them. -/
lemma mem_ranks {ranges : List CharRange} {n : Nat} :
    n ∈ ranks ranges ↔ ∃ r ∈ ranges, r.first ≤ n ∧ n < r.stop := by
  rw [ranks, List.mem_flatMap]
  refine exists_congr fun r => and_congr_right fun _ => ?_
  have := r.first_lt_stop
  rw [List.mem_range'_1, CharRange.size]
  omega

/-- There are as many numbers as the ranges have characters. -/
lemma length_ranks (ranges : List CharRange) : (ranks ranges).length = total ranges := by
  induction ranges with
  | nil => rfl
  | cons r rest ih =>
    rw [ranks, List.flatMap_cons, List.length_append, List.length_range', total, ← ih]
    rfl

/-- Ranges that lie apart have no number in common. -/
lemma nodup_ranks {ranges : List CharRange} (h : ranges.Pairwise CharRange.Apart) :
    (ranks ranges).Nodup := by
  induction ranges with
  | nil => exact .nil
  | cons r rest ih =>
    obtain ⟨hr, hrest⟩ := List.pairwise_cons.1 h
    rw [ranks, List.flatMap_cons]
    apply List.Nodup.append List.nodup_range' (ih hrest)
    intro n hn hn'
    obtain ⟨s, hs, hlow, hhigh⟩ := mem_ranks.1 hn'
    rw [List.mem_range'_1, CharRange.size] at hn
    rcases hr s hs with hapart | hapart <;> omega

/-- A set is not larger than the set of all characters. -/
theorem size_le (set : CharSet) : set.size ≤ scalarCount := by
  rw [size, ← length_ranks, ← List.toFinset_card_of_nodup (nodup_ranks set.apart)]
  rw [← Finset.card_range scalarCount]
  apply Finset.card_le_card
  intro n hn
  obtain ⟨r, -, -, hhigh⟩ := mem_ranks.1 (List.mem_toFinset.1 hn)
  exact Finset.mem_range.2 (Nat.lt_of_lt_of_le hhigh r.stop_le)

/-- The number at a place is found by skipping ranges. -/
lemma rankAt_eq (ranges : List CharRange) (i : Nat) (h : i < total ranges) :
    (ranks ranges)[i]? = some (rankAt ranges i h) := by
  induction ranges generalizing i with
  | nil => exact absurd h (Nat.not_lt_zero i)
  | cons r rest ih =>
    rw [ranks, List.flatMap_cons, rankAt]
    split
    · rename_i hi
      rw [List.getElem?_append_left (by rwa [List.length_range']), List.getElem?_range' hi,
        Nat.one_mul]
    · rename_i hi
      rw [List.getElem?_append_right (by rw [List.length_range']; omega), List.length_range']
      exact ih _ _

/-- Each number in the ranges is found at some place. -/
lemma mem_ranks_iff_exists_rankAt {ranges : List CharRange} {n : Nat} :
    n ∈ ranks ranges ↔ ∃ (i : Nat) (h : i < total ranges), rankAt ranges i h = n := by
  constructor
  · intro hn
    obtain ⟨i, hi, rfl⟩ := List.mem_iff_getElem.1 hn
    have hi' : i < total ranges := by rwa [← length_ranks]
    refine ⟨i, hi', ?_⟩
    have := rankAt_eq ranges i hi'
    rw [List.getElem?_eq_getElem hi, Option.some.injEq] at this
    exact this.symm
  · rintro ⟨i, hi, rfl⟩
    exact List.mem_of_getElem? (rankAt_eq ranges i hi)

/-- The members of a set are what stands at its places. -/
theorem contains_iff {set : CharSet} {c : Char} : set.contains c = true ↔ ∃ i, set.get i = c := by
  have hranks : set.contains c = true ↔ rank c ∈ ranks set.ranges := by
    simp only [contains, List.any_eq_true, CharRange.contains, Bool.and_eq_true,
      decide_eq_true_eq, mem_ranks]
  rw [hranks]
  constructor
  · intro hc
    obtain ⟨i, hi, hrank⟩ := mem_ranks_iff_exists_rankAt.1 hc
    refine ⟨⟨i, hi⟩, ?_⟩
    rw [get, hrank, ofRank_rank]
  · rintro ⟨i, rfl⟩
    have hmem := mem_ranks_iff_exists_rankAt.2 ⟨i.1, i.2, rfl⟩
    obtain ⟨r, -, -, hhigh⟩ := mem_ranks.1 hmem
    rw [get, rank_ofRank (Nat.lt_of_lt_of_le hhigh r.stop_le)]
    exact hmem

/-- Different places have different members. -/
lemma get_injective (set : CharSet) : Function.Injective set.get := by
  intro i j h
  have hrank : ∀ k : Fin set.size, rank (set.get k) = rankAt set.ranges k.1 k.2 := by
    intro k
    obtain ⟨r, -, -, hhigh⟩ := mem_ranks.1 (mem_ranks_iff_exists_rankAt.2 ⟨k.1, k.2, rfl⟩)
    rw [get, rank_ofRank (Nat.lt_of_lt_of_le hhigh r.stop_le)]
  have hplaces : (ranks set.ranges)[i.1]? = (ranks set.ranges)[j.1]? := by
    rw [rankAt_eq _ i.1 i.2, rankAt_eq _ j.1 j.2, ← hrank, ← hrank, h]
  have hlength : i.1 < (ranks set.ranges).length := by
    rw [length_ranks]
    exact i.2
  exact Fin.ext ((List.getElem?_inj hlength (nodup_ranks set.apart)).1 hplaces)

/-- The size of a set is the number of its members. -/
theorem ncard_contains (set : CharSet) : Set.ncard {c | set.contains c = true} = set.size := by
  have hrange : {c | set.contains c = true} = set.get '' Set.univ := by
    ext c
    simp [contains_iff]
  rw [hrange, Set.ncard_image_of_injective _ set.get_injective, Set.ncard_univ, Nat.card_fin]

/-- A set is empty if it has no members. -/
lemma isEmpty_iff {set : CharSet} : set.isEmpty = true ↔ set.size = 0 := by
  rw [isEmpty, List.isEmpty_iff, size]
  cases hranges : set.ranges with
  | nil => simp [total]
  | cons r rest =>
    have := r.first_lt_stop
    simp only [total, CharRange.size]
    refine ⟨fun h => (List.cons_ne_nil _ _ h).elim, fun h => ?_⟩
    omega

/-! ## Lists of members -/

/-- The members are the characters with the numbers in the ranges. -/
lemma toList_eq (set : CharSet) : set.toList = (ranks set.ranges).map ofRank := by
  simp only [toList, ranks, List.map_flatMap]
  rfl

/-- Each member is listed once. -/
theorem nodup_toList (set : CharSet) : set.toList.Nodup := by
  rw [toList_eq]
  refine (nodup_ranks set.apart).map_on fun m hm n hn heq => ?_
  obtain ⟨r, -, -, hhigh⟩ := mem_ranks.1 hm
  obtain ⟨r', -, -, hhigh'⟩ := mem_ranks.1 hn
  rw [← rank_ofRank (Nat.lt_of_lt_of_le hhigh r.stop_le), heq,
    rank_ofRank (Nat.lt_of_lt_of_le hhigh' r'.stop_le)]

/-- The members in order are those that the set contains. -/
theorem mem_toList {set : CharSet} {c : Char} : c ∈ set.toList ↔ set.contains c = true := by
  rw [contains_iff, toList_eq, List.mem_map]
  constructor
  · rintro ⟨n, hn, rfl⟩
    obtain ⟨i, hi, rfl⟩ := mem_ranks_iff_exists_rankAt.1 hn
    exact ⟨⟨i, hi⟩, rfl⟩
  · rintro ⟨i, rfl⟩
    exact ⟨_, mem_ranks_iff_exists_rankAt.2 ⟨i.1, i.2, rfl⟩, rfl⟩

end CharSet

/-! ## Operations on ranges -/

/-- Characters in order have numbers in order. -/
lemma rank_le_rank_iff {c d : Char} : rank c ≤ rank d ↔ c ≤ d := by
  rw [← Nat.not_lt, rank_lt_rank_iff, Nat.not_lt]
  rfl

namespace CharRange

variable {c d low high : Char} {r s : CharRange}

/-- A range contains the characters whose numbers lie between its bounds. -/
lemma contains_eq_true_iff : r.contains c = true ↔ r.first ≤ rank c ∧ rank c < r.stop := by
  rw [contains, Bool.and_eq_true, decide_eq_true_eq, decide_eq_true_eq]

/-- A range of one character contains this character alone. -/
lemma contains_singleton : (singleton c).contains d = true ↔ d = c := by
  rw [contains_eq_true_iff]
  constructor
  · rintro ⟨hle, hlt⟩
    have hrank : rank d = rank c := Nat.le_antisymm (Nat.lt_succ_iff.1 hlt) hle
    rw [← ofRank_rank d, hrank, ofRank_rank]
  · rintro rfl
    exact ⟨Nat.le_refl _, Nat.lt_succ_self _⟩

/-- The range between two characters has the characters between them. -/
lemma contains_of_ofChars? (h : ofChars? low high = some r) :
    r.contains c = true ↔ low ≤ c ∧ c ≤ high := by
  have hmem : r ∈ (ofBounds? (rank low) (rank high + 1)).toList := by
    rw [show ofBounds? (rank low) (rank high + 1) = some r from h]
    exact List.mem_singleton_self r
  obtain ⟨hfirst, hstop⟩ := eq_of_mem_ofBounds? hmem
  rw [contains_eq_true_iff, hfirst, hstop]
  exact and_congr rank_le_rank_iff (Nat.lt_succ_iff.trans rank_le_rank_iff)

/-- Two characters in order are the ends of a range. -/
lemma exists_ofChars? (h : low ≤ high) : ∃ r, ofChars? low high = some r :=
  ⟨_, dif_pos ⟨Nat.lt_succ_of_le (rank_le_rank_iff.2 h), rank_lt high⟩⟩

/-- A range made from bounds contains what lies between the bounds. Without such characters there is
no range. -/
lemma exists_mem_ofBounds? {first stop : Nat} (h : stop ≤ scalarCount) :
    (∃ p ∈ (ofBounds? first stop).toList, p.contains c = true) ↔
      first ≤ rank c ∧ rank c < stop := by
  constructor
  · rintro ⟨p, hp, hc⟩
    obtain ⟨rfl, rfl⟩ := eq_of_mem_ofBounds? hp
    exact contains_eq_true_iff.1 hc
  · intro hc
    have hbounds : first < stop ∧ stop ≤ scalarCount := ⟨Nat.lt_of_le_of_lt hc.1 hc.2, h⟩
    refine ⟨⟨first, stop, hbounds.1, hbounds.2⟩, ?_, contains_eq_true_iff.2 hc⟩
    rw [ofBounds?, dif_pos hbounds]
    exact List.mem_singleton_self _

/-- What is left of a range are its characters that are not cut out. -/
lemma exists_mem_minus :
    (∃ p ∈ r.minus s, p.contains c = true) ↔ r.contains c = true ∧ ¬s.contains c = true := by
  have hfront : min r.stop s.first ≤ scalarCount := Nat.le_trans (Nat.min_le_left _ _) r.stop_le
  have hparts : (∃ p ∈ r.minus s, p.contains c = true) ↔
      (∃ p ∈ (ofBounds? r.first (min r.stop s.first)).toList, p.contains c = true) ∨
        ∃ p ∈ (ofBounds? (max r.first s.stop) r.stop).toList, p.contains c = true := by
    simp only [minus, List.mem_append, or_and_right, exists_or]
  rw [hparts, exists_mem_ofBounds? hfront, exists_mem_ofBounds? r.stop_le, contains_eq_true_iff,
    contains_eq_true_iff]
  omega

end CharRange

/-- What is left of ranges are their characters that are not cut out. -/
lemma exists_mem_cutAll {c : Char} {ranges holes : List CharRange} :
    (∃ p ∈ cutAll ranges holes, p.contains c = true) ↔
      (∃ r ∈ ranges, r.contains c = true) ∧ ¬∃ hole ∈ holes, hole.contains c = true := by
  induction holes generalizing ranges with
  | nil => simp [cutAll]
  | cons hole rest ih =>
    have hcut : cutAll ranges (hole :: rest) = cutAll (ranges.flatMap fun r => r.minus hole) rest :=
      rfl
    have hfirst : (∃ p ∈ ranges.flatMap fun r => r.minus hole, p.contains c = true) ↔
        (∃ r ∈ ranges, r.contains c = true) ∧ ¬hole.contains c = true := by
      constructor
      · rintro ⟨p, hp, hc⟩
        obtain ⟨r, hr, hp⟩ := List.mem_flatMap.1 hp
        obtain ⟨hcr, hhole⟩ := CharRange.exists_mem_minus.1 ⟨p, hp, hc⟩
        exact ⟨⟨r, hr, hcr⟩, hhole⟩
      · rintro ⟨⟨r, hr, hcr⟩, hhole⟩
        obtain ⟨p, hp, hc⟩ := CharRange.exists_mem_minus.2 ⟨hcr, hhole⟩
        exact ⟨p, List.mem_flatMap.2 ⟨r, hr, hp⟩, hc⟩
    rw [hcut, ih, hfirst, and_assoc, List.exists_mem_cons_iff, not_or]

/-! ## Operations on sets -/

namespace CharSet

variable {c : Char} {set : CharSet}

/-- A set contains what one of its ranges contains. -/
lemma contains_eq_true_iff : set.contains c = true ↔ ∃ r ∈ set.ranges, r.contains c = true := by
  rw [contains, List.any_eq_true]

/-- The members behind one more range. -/
theorem contains_insert {r : CharRange} :
    (set.insert r).contains c = true ↔ set.contains c = true ∨ r.contains c = true := by
  have hnew : (∃ p ∈ cutAll [r] set.ranges, p.contains c = true) ↔
      r.contains c = true ∧ ¬set.contains c = true := by
    rw [exists_mem_cutAll, contains_eq_true_iff]
    simp
  rw [contains_eq_true_iff, insert]
  simp only [List.mem_append, or_and_right, exists_or]
  rw [hnew, ← contains_eq_true_iff]
  tauto

/-- Adding ranges adds the characters of the ranges. -/
lemma contains_insertAll {ranges : List CharRange} :
    (set.insertAll ranges).contains c = true ↔
      set.contains c = true ∨ ∃ r ∈ ranges, r.contains c = true := by
  induction ranges generalizing set with
  | nil => simp [insertAll]
  | cons r rest ih =>
    have hfold : set.insertAll (r :: rest) = (set.insert r).insertAll rest := rfl
    rw [hfold, ih, contains_insert, or_assoc, List.exists_mem_cons_iff]

/-- The empty set contains nothing. -/
lemma contains_empty : ¬empty.contains c = true := by
  rw [contains_eq_true_iff]
  simp [empty]

/-- The printable characters go from the space to the tilde. -/
lemma contains_printable : printable.contains c = true ↔ ' ' ≤ c ∧ c ≤ '~' := by
  obtain ⟨r, hr⟩ := CharRange.exists_ofChars? (show ' ' ≤ '~' by decide)
  rw [printable, hr, ofRanges, contains_insertAll, ← CharRange.contains_of_ofChars? hr]
  simp [contains_empty]

/-- The members of a complement are the printable characters that are not in the set. -/
theorem contains_complement :
    set.complement.contains c = true ↔ (' ' ≤ c ∧ c ≤ '~') ∧ ¬set.contains c = true := by
  rw [contains_eq_true_iff, complement, exists_mem_cutAll, ← contains_eq_true_iff,
    ← contains_eq_true_iff, contains_printable]

end CharSet

end PatternSampler
