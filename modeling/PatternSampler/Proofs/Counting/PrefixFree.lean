import Mathlib

set_option autoImplicit false

/-!
# Prefix-free languages

No word of a prefix-free language continues another one. Words of such languages can therefore be
put one behind the other without losing any of them.

## Main definitions

* `PrefixFree` — no word of the language continues another one.
* `tagged` — words of several languages behind a letter that names the language.

## Main results

* `PrefixFree.ncard_mul` — the number of words of a product.
* `ncard_tagged` — the number of words behind tags.
-/

namespace PatternSampler

variable {α : Type}

/-- No word of the language continues another one. -/
def PrefixFree (L : Language α) : Prop :=
  ∀ u ∈ L, ∀ u' ∈ L, ∀ v v' : List α, u ++ v = u' ++ v' → u = u'

/-- The words of the first `n` languages of a row, each behind the tag of its language. -/
def tagged (tag : Nat → α) (n : Nat) (K : Nat → Language α) : Language α :=
  {word | ∃ i < n, ∃ rest ∈ K i, word = tag i :: rest}

/-! ## Prefixes -/

/-- A single word is not continued by another one. -/
lemma prefixFree_singleton (word : List α) : PrefixFree ({word} : Language α) := by
  rintro u hu u' hu' v v' -
  exact (show u = word from hu).trans (show u' = word from hu').symm

/-- Where no word continues another one, the same holds of words behind one another. -/
lemma PrefixFree.mul {L M : Language α} (hL : PrefixFree L) (hM : PrefixFree M) :
    PrefixFree (L * M) := by
  intro u hu u' hu' v v' heq
  obtain ⟨x, hx, y, hy, rfl⟩ := Language.mem_mul.1 hu
  obtain ⟨x', hx', y', hy', rfl⟩ := Language.mem_mul.1 hu'
  simp only [List.append_assoc] at heq
  obtain rfl := hL x hx x' hx' _ _ heq
  rw [hM y hy y' hy' v v' (List.append_cancel_left heq)]

/-- Words behind different tags do not continue each other. -/
lemma prefixFree_tagged {tag : Nat → α} (htag : Function.Injective tag) {n : Nat}
    {K : Nat → Language α} (hK : ∀ i < n, PrefixFree (K i)) : PrefixFree (tagged tag n K) := by
  rintro _ ⟨i, hi, u, hu, rfl⟩ _ ⟨j, -, u', hu', rfl⟩ v v' heq
  obtain ⟨htags, hrest⟩ := List.cons.inj heq
  obtain rfl := htag htags
  rw [hK i hi u hu u' hu' v v' hrest]

/-! ## Numbers of words -/

/-- Finitely many words behind finitely many others are finitely many. -/
lemma finite_mul {L M : Language α} (hL : Set.Finite L) (hM : Set.Finite M) :
    Set.Finite (L * M : Language α) :=
  hL.image2 (· ++ ·) hM

/-- Each word of a product is put together from one pair of words. -/
lemma PrefixFree.ncard_mul {L : Language α} (hL : PrefixFree L) (M : Language α) :
    Set.ncard (L * M : Language α) = Set.ncard L * Set.ncard M := by
  have himage : Set.image2 (· ++ ·) L M =
      (fun x : List α × List α => x.1 ++ x.2) '' Set.prod L M := (Set.image_prod (· ++ ·)).symm
  have hinj : Set.InjOn (fun x : List α × List α => x.1 ++ x.2) (Set.prod L M) := by
    rintro ⟨x, y⟩ ⟨hx, -⟩ ⟨x', y'⟩ ⟨hx', -⟩ heq
    obtain rfl := hL x hx x' hx' y y' heq
    obtain rfl : y = y' := List.append_cancel_left heq
    rfl
  rw [Language.mul_def, himage, hinj.ncard_image]
  exact Set.ncard_prod

/-- The words with one more tag. -/
private lemma tagged_succ (tag : Nat → α) (n : Nat) (K : Nat → Language α) :
    tagged tag (n + 1) K = Set.union (tagged tag n K) (Set.image (List.cons (tag n)) (K n)) := by
  ext word
  constructor
  · rintro ⟨i, hi, rest, hrest, rfl⟩
    rcases Nat.lt_succ_iff_lt_or_eq.1 hi with hlt | rfl
    · exact .inl ⟨i, hlt, rest, hrest, rfl⟩
    · exact .inr ⟨rest, hrest, rfl⟩
  · rintro (⟨i, hi, rest, hrest, rfl⟩ | ⟨rest, hrest, rfl⟩)
    · exact ⟨i, Nat.lt_succ_of_lt hi, rest, hrest, rfl⟩
    · exact ⟨n, Nat.lt_succ_self n, rest, hrest, rfl⟩

/-- Without languages there are no words. -/
private lemma tagged_zero (tag : Nat → α) (K : Nat → Language α) : tagged tag 0 K = 0 :=
  Set.eq_empty_of_forall_notMem fun _ ⟨i, hi, _⟩ => Nat.not_lt_zero i hi

/-- Finitely many finite languages have finitely many words, also behind tags. -/
lemma finite_tagged (tag : Nat → α) {n : Nat} {K : Nat → Language α}
    (hK : ∀ i < n, Set.Finite (K i)) : Set.Finite (tagged tag n K) := by
  induction n with
  | zero =>
    rw [tagged_zero]
    exact Set.finite_empty
  | succ n ih =>
    rw [tagged_succ]
    exact (ih fun i hi => hK i (Nat.lt_succ_of_lt hi)).union ((hK n (Nat.lt_succ_self n)).image _)

/-- Words with different tags are different. -/
lemma ncard_tagged {tag : Nat → α} (htag : Function.Injective tag) {n : Nat}
    {K : Nat → Language α} (hK : ∀ i < n, Set.Finite (K i)) :
    Set.ncard (tagged tag n K) = ∑ i ∈ Finset.range n, Set.ncard (K i) := by
  induction n with
  | zero =>
    rw [tagged_zero, Finset.range_zero, Finset.sum_empty]
    exact Set.ncard_empty _
  | succ n ih =>
    have hbelow : ∀ i < n, Set.Finite (K i) := fun i hi => hK i (Nat.lt_succ_of_lt hi)
    have hdisjoint : @Disjoint (Set (List α)) _ _ (tagged tag n K) (List.cons (tag n) '' K n) := by
      refine Set.disjoint_left.2 ?_
      rintro _ ⟨i, hi, rest, -, rfl⟩ ⟨rest', -, heq⟩
      exact hi.ne' (htag (List.cons.inj heq).1)
    have hunion := Set.ncard_union_eq hdisjoint (finite_tagged tag hbelow)
      ((hK n (Nat.lt_succ_self n)).image _)
    rw [tagged_succ, Finset.sum_range_succ, ← ih hbelow,
      ← Set.ncard_image_of_injective (K n) List.cons_injective]
    exact hunion

end PatternSampler
