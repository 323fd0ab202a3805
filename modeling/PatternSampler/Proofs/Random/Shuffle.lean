import PatternSampler.Proofs.Random.Radices
import PatternSampler.Proofs.Run.Shift

set_option autoImplicit false

/-!
# Shuffling is fair

Swaps only rearrange a row. A row without repetitions comes into each order by just one choice of
swap indices, so every order is as frequent as any other one among the values that can be drawn.

## Main results

* `perm_shuffle` — a shuffled row has the elements of the row.
* `existsUnique_swapAll` — the swap indices for a given order.
* `ncard_values_mul_factorial` — the number of rows of drawn values that lead to an order.
* `shuffle_permutes_fairly` — calls that shuffle, and how often each order comes up.
-/

namespace PatternSampler

/-! ## Swaps -/

section Swaps

variable {α : Type}

/-- Swapping two places only changes the order. -/
lemma perm_swapIfInBounds (row : Array α) (i j : Nat) : (row.swapIfInBounds i j).Perm row := by
  rw [Array.swapIfInBounds_def]
  split
  · split
    · exact Array.swap_perm _ _
    · exact .refl row
  · exact .refl row

/-- What stands at a place after two places have been swapped. -/
lemma getElem?_swapIfInBounds {row : Array α} {i j : Nat} (hi : i < row.size) (hj : j < row.size)
    (k : Nat) : (row.swapIfInBounds i j)[k]? =
      if j = k then row[i]? else if i = k then row[j]? else row[k]? := by
  rw [Array.swapIfInBounds_def, dif_pos hi, dif_pos hj, Array.getElem?_swap,
    Array.getElem?_eq_getElem hi, Array.getElem?_eq_getElem hj]

/-- A swap is taken back by the same swap. -/
lemma swapIfInBounds_swapIfInBounds {row : Array α} {i j : Nat} (hi : i < row.size)
    (hj : j < row.size) : (row.swapIfInBounds i j).swapIfInBounds i j = row := by
  simp only [Array.swapIfInBounds_def, dif_pos hi, dif_pos hj, Array.size_swap, Array.swap_swap]

/-- Swaps rearrange a row. -/
lemma perm_swapAll (place : Nat) (indices : List Nat) (row : Array α) :
    (swapAll place indices row).Perm row := by
  induction indices generalizing place row with
  | nil => exact .refl row
  | cons index later ih => exact (ih (place + 1) _).trans (perm_swapIfInBounds row place index)

/-- A shuffled row has the elements of the row. -/
theorem perm_shuffle (stream : WordStream) (row : List α) (position : Nat) :
    (shuffle stream row position).1.Perm row :=
  Array.perm_iff_toList_perm.1 (perm_swapAll 1 _ row.toArray)

/-- Swaps one behind the other, each further on by the number of swaps in front of it. -/
lemma swapAll_append (place : Nat) (front back : List Nat) (row : Array α) :
    swapAll place (front ++ back) row =
      swapAll (place + front.length) back (swapAll place front row) := by
  induction front generalizing place row with
  | nil => rfl
  | cons index front ih =>
    rw [List.cons_append, swapAll, swapAll, ih, List.length_cons, Nat.add_right_comm place,
      Nat.add_assoc place]

/-- Behind the row there is nothing to swap. -/
lemma swapAll_of_size_le {place : Nat} (indices : List Nat) {row : Array α}
    (h : row.size ≤ place) : swapAll place indices row = row := by
  induction indices generalizing place with
  | nil => rfl
  | cons index later ih =>
    rw [swapAll, Array.swapIfInBounds_def, dif_neg (by omega)]
    exact ih (by omega)

/-- Swaps with places in front leave the places behind them as they are. -/
lemma getElem?_swapAll {place : Nat} {indices : List Nat}
    (h : indices ∈ below (List.range' (place + 1) indices.length)) (row : Array α) {j : Nat}
    (hj : place + indices.length ≤ j) : (swapAll place indices row)[j]? = row[j]? := by
  induction indices generalizing place row with
  | nil => rfl
  | cons index later ih =>
    rw [List.length_cons, List.range'_succ] at h
    obtain ⟨hindex, hlater⟩ := cons_mem_below.1 h
    rw [List.length_cons] at hj
    rw [swapAll, ih hlater _ (by omega)]
    by_cases hplace : place < row.size
    · rw [getElem?_swapIfInBounds hplace (by omega), if_neg (by omega), if_neg (by omega)]
    · rw [Array.swapIfInBounds_def, dif_neg hplace]

end Swaps

/-! ## The indices for an order -/

section Orders

variable {α : Type} {row : Array α}

/-- Rows that agree behind the first place and have the same elements are the same. -/
lemma eq_of_perm_of_getElem? {xs ys : Array α} (hperm : xs.Perm ys)
    (hsame : ∀ j, 0 < j → xs[j]? = ys[j]?) : xs = ys := by
  obtain ⟨xs⟩ := xs
  obtain ⟨ys⟩ := ys
  rw [Array.perm_iff_toList_perm] at hperm
  cases xs with
  | nil =>
    obtain rfl : ys = [] := List.nil_perm.1 hperm
    rfl
  | cons x xs =>
    cases ys with
    | nil => cases (show x :: xs = [] from hperm.eq_nil)
    | cons y ys =>
      have htail : xs = ys := List.ext_getElem? fun j => by simpa using hsame (j + 1) j.succ_pos
      subst htail
      have hhead : [x].Perm [y] := (List.perm_append_right_iff xs).1 hperm
      rw [List.singleton_perm_singleton.1 hhead]

/-- A row without repetitions has an element at one place only. -/
lemma eq_of_getElem?_eq (hrow : row.toList.Nodup) {i j : Nat} {x : α} (hi : row[i]? = some x)
    (hj : row[j]? = some x) : i = j := by
  rw [← Array.getElem?_toList] at hi hj
  exact (List.getElem?_inj (List.getElem?_eq_some_iff.1 hi).1 hrow).1 (hi.trans hj.symm)

/-- The last of several swaps moves the element of its place to its index, and the other swaps lead
to the row in which it is taken back. -/
lemma swapAll_concat_eq_iff {front : List Nat} {places index : Nat} {target : Array α}
    (hfront : front ∈ below (List.range' 2 places)) (hplaces : places + 1 < row.size)
    (hindex : index ≤ places + 1) (hsize : target.size = row.size) :
    swapAll 1 (front ++ [index]) row = target ↔ target[index]? = row[places + 1]? ∧
      swapAll 1 front row = target.swapIfInBounds (places + 1) index := by
  have hlength := length_of_mem_below hfront
  rw [List.length_range'] at hlength
  rw [swapAll_append, hlength, Nat.add_comm 1 places, swapAll, swapAll]
  constructor
  · rintro rfl
    have hmid := (perm_swapAll 1 front row).size_eq
    have hlast : (swapAll 1 front row)[places + 1]? = row[places + 1]? :=
      getElem?_swapAll (by rwa [hlength]) row (by omega)
    refine ⟨?_, (swapIfInBounds_swapIfInBounds (by omega) (by omega)).symm⟩
    rw [getElem?_swapIfInBounds (by omega) (by omega), if_pos rfl, hlast]
  · rintro ⟨-, hswap⟩
    rw [hswap]
    exact swapIfInBounds_swapIfInBounds (by omega) (by omega)

/-- **The swap indices for a given order**: if a row without repetitions is to be rearranged in its
first places only, there is just one way to do so by swaps with places in front.

**Proof sketch.** By induction on the number of places. The element that stands at the last one of
them is not moved before its own swap, so the index of this swap is the place where the element
ends up. The swaps in front lead to the order in which this last swap is taken back. -/
theorem existsUnique_swapAll (hrow : row.toList.Nodup) (places : Nat) (hplaces : places < row.size)
    (target : Array α) (hperm : target.Perm row) (hsame : ∀ j, places < j → target[j]? = row[j]?) :
    ∃! indices, indices ∈ below (List.range' 2 places) ∧ swapAll 1 indices row = target := by
  induction places generalizing target with
  | zero =>
    refine ⟨[], ⟨nil_mem_below, (eq_of_perm_of_getElem? hperm hsame).symm⟩, fun indices h => ?_⟩
    exact List.eq_nil_of_length_eq_zero (length_of_mem_below h.1)
  | succ places ih =>
    have hsize := hperm.size_eq
    have htarget : target.toList.Nodup := hperm.toList.nodup_iff.2 hrow
    -- the last element to be swapped, and the place where it ends up
    obtain ⟨x, hx⟩ : ∃ x, row[places + 1]? = some x := ⟨_, Array.getElem?_eq_getElem hplaces⟩
    have hmem : x ∈ target := hperm.mem_iff.2 (Array.mem_of_getElem? hx)
    obtain ⟨index, hindex⟩ := Array.getElem?_of_mem hmem
    have hle : index ≤ places + 1 := by
      by_contra hlt
      have := eq_of_getElem?_eq hrow ((hsame index (by omega)).symm.trans hindex) hx
      omega
    -- the order in front of the last swap
    have hearlier : ∀ j, places < j →
        (target.swapIfInBounds (places + 1) index)[j]? = row[j]? := by
      intro j hj
      rw [getElem?_swapIfInBounds (by omega) (by omega)]
      by_cases hlast : places + 1 = j
      · subst hlast
        rw [if_pos rfl, hindex, hx]
        split
        · rename_i heq
          rw [← heq, hindex]
        · rfl
      · rw [if_neg (by omega), if_neg hlast, hsame j (by omega)]
    obtain ⟨front, ⟨hfront, hswap⟩, hunique⟩ :=
      ih (by omega) _ ((perm_swapIfInBounds target _ _).trans hperm) hearlier
    rw [List.range'_1_concat]
    refine ⟨front ++ [index], ⟨mem_below_append.2 ⟨front, hfront, [index],
      cons_mem_below.2 ⟨by omega, nil_mem_below⟩, rfl⟩,
      (swapAll_concat_eq_iff hfront hplaces hle hsize).2 ⟨hindex.trans hx.symm, hswap⟩⟩, ?_⟩
    rintro indices ⟨hindices, hreached⟩
    obtain ⟨front', hfront', back, hback, rfl⟩ := mem_below_append.1 hindices
    obtain ⟨index', hlt', rfl⟩ := mem_below_singleton.1 hback
    obtain ⟨hindex', hswap'⟩ :=
      (swapAll_concat_eq_iff hfront' hplaces (by omega) hsize).1 hreached
    obtain rfl := eq_of_getElem?_eq htarget (hindex'.trans hx) hindex
    rw [hunique front' ⟨hfront', hswap'⟩]

/-- The rows of swap indices that lead to a given order. The indices that have no place are free. -/
lemma exists_swapAll_eq_iff {row row' : List α} (hrow : row.Nodup) (hperm : row'.Perm row) :
    ∃ front ∈ below (List.range' 2 (row.length - 1)), ∀ bounds indices,
      indices ∈ below (List.range' 2 (row.length - 1) ++ bounds) →
        ((swapAll 1 indices row.toArray).toList = row' ↔
          indices ∈ (fun back => front ++ back) '' below bounds) := by
  rcases Nat.eq_zero_or_pos row.length with hempty | hpos
  · obtain rfl := List.eq_nil_of_length_eq_zero hempty
    obtain rfl := hperm.eq_nil
    refine ⟨[], nil_mem_below, fun bounds indices hindices => ?_⟩
    rw [swapAll_of_size_le indices (Nat.zero_le 1)]
    exact iff_of_true rfl ⟨indices, hindices, rfl⟩
  · have hsame : ∀ j, row.length - 1 < j → row'.toArray[j]? = row.toArray[j]? := by
      intro j hj
      have hlength := hperm.length_eq
      rw [Array.getElem?_eq_none (by rw [List.size_toArray]; omega),
        Array.getElem?_eq_none (by rw [List.size_toArray]; omega)]
    obtain ⟨front, ⟨hfront, hswap⟩, hunique⟩ :=
      existsUnique_swapAll hrow (row.length - 1)
        (by rw [List.size_toArray]; omega) row'.toArray (Array.perm_iff_toList_perm.2 hperm) hsame
    refine ⟨front, hfront, fun bounds indices hindices => ?_⟩
    obtain ⟨a, ha, b, hb, rfl⟩ := mem_below_append.1 hindices
    have hlength := (length_of_mem_below ha).trans List.length_range'
    have hcut : swapAll 1 (a ++ b) row.toArray = swapAll 1 a row.toArray := by
      rw [swapAll_append, swapAll_of_size_le]
      rw [(perm_swapAll 1 a row.toArray).size_eq, List.size_toArray]
      omega
    rw [hcut]
    constructor
    · intro hreached
      refine ⟨b, hb, ?_⟩
      rw [hunique a ⟨ha, by rw [← hreached, Array.toArray_toList]⟩]
    · rintro ⟨back, hback, heq⟩
      have hfrontLength := (length_of_mem_below hfront).trans List.length_range'
      obtain ⟨rfl, -⟩ := List.append_inj heq (hfrontLength.trans hlength.symm)
      rw [hswap]

/-- The radices behind the first place multiply to a factorial. -/
lemma prod_range'_two (n : Nat) : (List.range' 2 n).prod = (n + 1).factorial := by
  induction n with
  | zero => rfl
  | succ n ih =>
    rw [List.range'_1_concat, List.prod_append, ih, List.prod_singleton, Nat.factorial_succ (n + 1),
      Nat.mul_comm, Nat.add_comm 2 n]

/-- **Orders are equally frequent**: among the rows of values that can be drawn for the groups of a
row without repetitions, each order of the row has the same number of them.

**Proof sketch.** The rows of values correspond to the rows of swap indices. The indices of the row
itself are determined by the order, and those that have no place are free. -/
theorem ncard_values_mul_factorial {row row' : List α} (hrow : row.Nodup) (hperm : row'.Perm row) :
    let groups := radixGroups row.length 1
    let bounds := groups.map RadixGroup.bound
    {values ∈ below bounds |
        (swapAll 1 (swapIndices groups values) row.toArray).toList = row'}.ncard *
      row.length.factorial = bounds.prod := by
  intro groups bounds
  have hindices := bijOn_swapIndices row.length 1
  have hcover := le_add_placesFrom row.length 1
  obtain ⟨free, hfree⟩ : ∃ free, placesFrom row.length 1 = row.length - 1 + free :=
    ⟨placesFrom row.length 1 - (row.length - 1), by omega⟩
  rw [hfree, ← List.range'_append] at hindices
  obtain ⟨front, hmem, hfront⟩ := exists_swapAll_eq_iff hrow hperm
  have hvalues : Set.BijOn (swapIndices groups)
      {values ∈ below bounds |
        (swapAll 1 (swapIndices groups values) row.toArray).toList = row'}
      ((fun back => front ++ back) '' below (List.range' (2 + 1 * (row.length - 1)) free)) := by
    refine ⟨fun values h => (hfront _ _ (hindices.mapsTo h.1)).1 h.2,
      hindices.injOn.mono fun values h => h.1, fun indices h => ?_⟩
    obtain ⟨back, hback, rfl⟩ := h
    have hbelow := mem_below_append.2 ⟨front, hmem, back, hback, rfl⟩
    obtain ⟨values, hvalues, heq⟩ := hindices.surjOn hbelow
    refine ⟨values, ⟨hvalues, ?_⟩, heq⟩
    rw [heq, hfront _ _ hbelow]
    exact ⟨back, hback, rfl⟩
  have hfactorial : (row.length - 1 + 1).factorial = row.length.factorial := by
    cases row.length <;> rfl
  rw [hvalues.ncard_eq, (List.append_right_injective front).injOn.ncard_image, ncard_below,
    ← ncard_below bounds, hindices.ncard_eq, ncard_below, List.prod_append, prod_range'_two,
    hfactorial, Nat.mul_comm]

end Orders

/-! ## Drawn values -/

/-- A group of radices has a positive bound. -/
lemma RadixGroup.bound_pos {group : RadixGroup} {length place : Nat}
    (h : group ∈ radixGroups length place) : 0 < group.bound := by
  fun_induction radixGroups length place with
  | case1 place hplace ih =>
    rcases List.mem_cons.1 h with rfl | hlater
    · rw [RadixGroup.bound_ofRadix]
      refine List.prod_pos fun radix hradix => ?_
      have := (List.mem_range'_1.1 hradix).1
      omega
    · exact ih hlater
  | case2 => simp at h

/-- The bound of a group of radices fits into a word. -/
lemma RadixGroup.bound_lt {group : RadixGroup} {length place : Nat} (hlength : length < wordSize)
    (h : group ∈ radixGroups length place) : group.bound < wordSize := by
  fun_induction radixGroups length place with
  | case1 place hplace ih =>
    rcases List.mem_cons.1 h with rfl | hlater
    · exact RadixGroup.radixProduct_fst_lt _ (by omega)
    · exact ih hlater
  | case2 => simp at h

/-- Values drawn below positive bounds stay below them. -/
lemma drawEach_mem_below (stream : WordStream) {bounds : List Nat} (h : ∀ bound ∈ bounds, 0 < bound)
    (position : Nat) : (drawEach stream bounds position).1 ∈ below bounds := by
  induction bounds generalizing position with
  | nil => exact nil_mem_below
  | cons bound bounds ih =>
    obtain ⟨hbound, hbounds⟩ := List.forall_mem_cons.1 h
    exact cons_mem_below.2 ⟨uniform_lt stream position hbound, ih hbounds _⟩

/-- A swap index is at most its place. -/
lemma swapIndices_le {length place : Nat} {values : List Nat}
    (h : values ∈ below ((radixGroups length place).map RadixGroup.bound)) {i index : Nat}
    (hindex : (swapIndices (radixGroups length place) values)[i]? = some index) :
    index ≤ place + i := by
  have hbelow := (bijOn_swapIndices length place).mapsTo h
  have hlength := length_of_mem_below hbelow
  have hi := (List.getElem?_eq_some_iff.1 hindex).1
  rw [hlength, List.length_range'] at hi
  have := lt_of_mem_below hbelow hindex (List.getElem?_range' hi)
  omega

/-! ## Calls -/

/-- A call that shuffles generates its argument and shuffles its characters. -/
lemma Construct.run_shuffle (stream : WordStream) (argument : Argument) :
    (do (← (Construct.shuffle argument).prepare stream)) =
      argument.sample stream >>= fun s => s.shuffled stream := by
  rw [prepare, pure_bind]

/-- **Shuffling**: wherever a pattern calls for the characters of an argument in random order,
generating fails as the argument does, or shuffles the characters of the argument's text: it yields
the shuffled row, which has the same characters, with the entropy of the argument, and stands behind
the draws for the row.

For a row of elements that are all different, the values drawn stay below their bounds, which fit in
one word as long as the length of the row does. The swap index of each place behind the first one is
at most the place. Among all rows of values below the bounds, each order of the row comes from
equally many.

**Proof sketch.** Swaps rearrange a row. The digits of the values are the rows of swap indices, each
of them once (`bijOn_swapIndices`), and just one row of indices leads to a given order
(`existsUnique_swapAll`). -/
theorem shuffle_permutes_fairly :
    (∀ (stream : WordStream) (opened : Nat) (span : Span) (arguments : Slice) (p : Progress),
      ∃ c, Construct.ofToken opened span (.call .shuffle arguments) = .ok c ∧
        match arguments.sample stream opened p with
        | .ok s q =>
          let (row, position) := shuffle stream s.text.toList q.position
          ∃ t, (do (← c.prepare stream)) p = .ok t { q with position } ∧
            t.text.toList = row ∧ row.Perm s.text.toList ∧ t.entropy = s.entropy
        | .error fault q => (do (← c.prepare stream)) p = .error fault q) ∧
      ∀ {α : Type} (row : List α), row.Nodup →
        let groups := radixGroups row.length 1
        let bounds := groups.map RadixGroup.bound
        let arrange := fun values => (swapAll 1 (swapIndices groups values) row.toArray).toList
        (row.length < 2 ^ 32 → ∀ bound ∈ bounds, bound < 2 ^ 32) ∧
          (∀ stream position, (drawEach stream bounds position).1 ∈ below bounds ∧
            (shuffle stream row position).1 = arrange (drawEach stream bounds position).1) ∧
          (∀ values ∈ below bounds, ∀ i index, (swapIndices groups values)[i]? = some index →
            index ≤ 1 + i) ∧
          0 < bounds.prod ∧
          ∀ row', row'.Perm row →
            {values ∈ below bounds | arrange values = row'}.ncard * row.length.factorial =
              bounds.prod := by
  constructor
  · intro stream opened span arguments p
    refine ⟨.shuffle ⟨arguments.span, Pattern.ofSlice opened arguments⟩, by rw [Construct.ofToken],
      ?_⟩
    rw [Construct.run_shuffle, Argument.sample, ← Slice.sample]
    simp only [bind, EStateM.bind]
    cases arguments.sample stream opened p with
    | ok s q =>
      exact ⟨_, rfl, String.toList_ofList, perm_shuffle stream s.text.toList q.position, rfl⟩
    | error fault q => rfl
  · intro α row hrow groups bounds arrange
    have hpos : ∀ bound ∈ bounds, 0 < bound := by
      intro bound hbound
      obtain ⟨group, hgroup, rfl⟩ := List.mem_map.1 hbound
      exact RadixGroup.bound_pos hgroup
    refine ⟨fun hlength bound hbound => ?_, fun stream position =>
      ⟨drawEach_mem_below stream hpos position, rfl⟩, fun values hvalues i index hindex =>
      swapIndices_le hvalues hindex, List.prod_pos hpos, fun row' hperm =>
      ncard_values_mul_factorial hrow hperm⟩
    obtain ⟨group, hgroup, rfl⟩ := List.mem_map.1 hbound
    exact RadixGroup.bound_lt hlength hgroup

/-- The swaps of fourteen elements take two draws, the second of which serves five places behind the
row as well. All the same the order from back to front has its share of the values. -/
theorem shuffle_permutes_fairly_two_draws :
    (List.range 14).Nodup ∧
      {values ∈ below [479001600, 253955520] |
          (swapAll 1 (swapIndices (radixGroups 14 1) values) (List.range 14).toArray).toList =
            (List.range 14).reverse}.ncard * Nat.factorial 14 = 479001600 * 253955520 := by
  have hbounds : (radixGroups (List.range 14).length 1).map RadixGroup.bound =
      [479001600, 253955520] := by cbv
  refine ⟨List.nodup_range, ?_⟩
  obtain ⟨-, -, -, -, hcount⟩ := shuffle_permutes_fairly.2 (List.range 14) List.nodup_range
  have hreverse := hcount (List.range 14).reverse (List.reverse_perm _)
  rwa [hbounds, List.length_range] at hreverse

end PatternSampler
