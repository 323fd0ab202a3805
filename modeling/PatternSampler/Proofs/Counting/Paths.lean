import PatternSampler.Proofs.Counting.PrefixFree
import PatternSampler.Proofs.Entropy.Measure

set_option autoImplicit false

/-!
# Paths

A path of a pattern is a sequence of draws that its text can be generated with. The draws of the
branches that are probed are no part of it. There are at least as many paths as the entropy of the
pattern says, and without alternations there are exactly as many.

## Main definitions

* `Draw` — a draw with its result.
* `Pattern.paths` — the paths of a pattern.
* `Pattern.Straight` — a pattern without calls and alternations.
* `Weighs` — a prefix-free set of paths has enough words for a number of bits.

## Main results

* `weighs_addedPaths` — the paths that repeat counts add.
* `Pattern.weighs_paths` — the number of paths against the measure of a pattern.

## Implementation notes

The paths are those for counts whose bounds are the same. Such a count may be drawn nevertheless,
and the draw has one result only.
-/

namespace PatternSampler

/-- A draw: the number of values that it is made among, and the value. -/
abbrev Draw : Type := Nat × Nat

/-! ## Straight patterns -/

mutual

/-- There are no calls and no alternations in the pattern. -/
def Pattern.Straight : Pattern → Prop
  | .done | .stop _ => True
  | .seq head _ rest => head.Straight ∧ rest.Straight

/-- There are no calls and no alternations in the construct. -/
def Construct.Straight : Construct → Prop
  | .character _ | .oneOf _ | .reference _ _ => True
  | .group _ body => body.Straight
  | _ => False

end

mutual

/-- A straight pattern calls no function. -/
lemma Pattern.Straight.callFree : ∀ {t : Pattern}, t.Straight → t.CallFree
  | .done, _ | .stop _, _ => trivial
  | .seq _ _ _, h => ⟨h.1.callFree, h.2.callFree⟩

/-- A straight construct calls no function. -/
lemma Construct.Straight.callFree : ∀ {c : Construct}, c.Straight → c.CallsIn fun _ => False
  | .character _, _ | .oneOf _, _ | .reference _ _, _ => trivial
  | .group _ body, h => Pattern.Straight.callFree (t := body) h

end

mutual

/-- A pattern without calls has no numbers in its arguments. -/
lemma Pattern.CallFree.plainNumbers : ∀ {t : Pattern}, t.CallFree → t.PlainNumbers
  | .done, _ | .stop _, _ => trivial
  | .seq _ _ _, h => ⟨Construct.plainNumbers_of_callFree h.1, Pattern.CallFree.plainNumbers h.2⟩

/-- A construct without calls has no numbers in its arguments. -/
lemma Construct.plainNumbers_of_callFree :
    ∀ {c : Construct}, c.CallsIn (fun _ => False) → c.PlainNumbers
  | .character _, _ | .oneOf _, _ | .reference _ _, _ => trivial
  | .group _ body, h => Pattern.CallFree.plainNumbers (t := body) h
  | .alternation _ branches, h => Branches.plainNumbers_of_callFree (b := branches) h

/-- Branches without calls have no numbers in their arguments. -/
lemma Branches.plainNumbers_of_callFree :
    ∀ {b : Branches}, b.CallsIn (fun _ => False) → b.PlainNumbers
  | .one _ _ body, h => Pattern.CallFree.plainNumbers (t := body) h
  | .more _ _ _ _, h => ⟨Pattern.CallFree.plainNumbers h.1, Branches.plainNumbers_of_callFree h.2⟩

end

/-! ## Paths -/

/-- The draw of a count whose bounds are the same, if it takes one. -/
def RepeatCount.path : RepeatCount → List Draw
  | exactly _ => []
  | between low high => [(high - low + 1, 0)]

/-- The paths of a construct repeated by a count, behind that of the count. -/
def RepeatCount.paths (count : RepeatCount) (L : Language Draw) : Language Draw :=
  {count.path} * L ^ count.low

/-- The paths that repeat counts add behind the first instance of a construct. -/
def addedPaths : List RepeatCount → Language Draw → Language Draw
  | [], _ => 1
  | count :: later, L =>
    {count.path} * (L ^ (count.low - 1) * addedPaths later (count.paths L))

/-- One draw for each member. An empty set takes no draw. -/
def CharSet.paths (set : CharSet) : Language Draw :=
  if 0 < set.size then tagged (Prod.mk set.size) set.size fun _ => 1 else 1

mutual

/-- The paths of a pattern. -/
def Pattern.paths : Pattern → Language Draw
  | .done | .stop _ => 1
  | .seq head counts rest => head.paths * addedPaths counts head.paths * rest.paths

/-- The paths of a construct. Calls count as having one. -/
def Construct.paths : Construct → Language Draw
  | .oneOf set => set.paths
  | .group _ body => body.paths
  | .alternation _ branches =>
    tagged (Prod.mk branches.length) branches.length fun choice => branches.chosenPaths choice
  | _ => 1

/-- The paths of the branch at a place, or of the last branch behind all places. -/
def Branches.chosenPaths : Branches → (choice : Nat) → Language Draw
  | .one _ _ body, _ => body.paths
  | .more _ _ body _, 0 => body.paths
  | .more _ _ _ rest, choice + 1 => rest.chosenPaths choice

end

/-! ## Numbers of paths -/

/-- No path continues another one, and there are at least as many as `bits` bits can tell apart.
Under the condition `C` there are exactly as many. -/
structure Weighs (L : Language Draw) (bits : ℝ) (C : Prop) : Prop where
  prefixFree : PrefixFree L
  finite : Set.Finite L
  le_ncard : (2 : ℝ) ^ bits ≤ Set.ncard L
  ncard_eq : C → (Set.ncard L : ℝ) = 2 ^ bits

section Weighs

variable {L M : Language Draw} {x y : ℝ} {C C' : Prop}

/-- A stronger condition may be asked for. -/
lemma Weighs.imp (h : Weighs L x C) (hC : C' → C) : Weighs L x C' :=
  { h with ncard_eq := fun h' => h.ncard_eq (hC h') }

/-- A single path carries no bits. -/
lemma weighs_singleton (path : List Draw) : Weighs {path} 0 C where
  prefixFree := prefixFree_singleton path
  finite := Set.finite_singleton path
  le_ncard := by
    rw [Real.rpow_zero]
    exact_mod_cast (Set.ncard_singleton path).ge
  ncard_eq _ := by
    rw [Real.rpow_zero]
    exact_mod_cast Set.ncard_singleton path

/-- The empty path carries no bits. -/
lemma weighs_one : Weighs 1 0 C := weighs_singleton []

/-- Paths one behind the other carry the bits of both. -/
lemma Weighs.mul (hL : Weighs L x C) (hM : Weighs M y C) : Weighs (L * M) (x + y) C where
  prefixFree := hL.prefixFree.mul hM.prefixFree
  finite := finite_mul hL.finite hM.finite
  le_ncard := by
    rw [hL.prefixFree.ncard_mul, Nat.cast_mul, Real.rpow_add two_pos]
    exact mul_le_mul hL.le_ncard hM.le_ncard (Real.rpow_nonneg zero_le_two y) (Nat.cast_nonneg _)
  ncard_eq hC := by
    rw [hL.prefixFree.ncard_mul, Nat.cast_mul, Real.rpow_add two_pos, hL.ncard_eq hC,
      hM.ncard_eq hC]

/-- Paths repeated `n` times carry `n` times the bits. -/
lemma Weighs.pow (hL : Weighs L x C) (n : Nat) : Weighs (L ^ n) (n * x) C := by
  induction n with
  | zero =>
    rw [pow_zero, Nat.cast_zero, zero_mul]
    exact weighs_one
  | succ n ih =>
    rw [pow_succ, Nat.cast_succ, add_one_mul]
    exact ih.mul hL

/-- The paths of a repeated construct carry at least the bits of as many instances as the count asks
for. -/
lemma Weighs.paths (hL : Weighs L x C) (count : RepeatCount) :
    Weighs (count.paths L) (count.low * x) C := by
  rw [← zero_add (count.low * x)]
  exact (weighs_singleton count.path).mul (hL.pow count.low)

/-- What repeat counts add to the paths of a construct.

**Proof sketch.** By induction on the counts. The first count adds its own number of instances
less the one that is there. The later counts see a construct that the first count has multiplied. -/
lemma weighs_addedPaths {counts : List RepeatCount} (hcounts : ∀ count ∈ counts, count.Valid)
    (hL : Weighs L x C) :
    Weighs (addedPaths counts L) (((counts.map RepeatCount.low).prod : Nat) * x - x) C := by
  induction counts generalizing L x with
  | nil =>
    rw [List.map_nil, List.prod_nil, Nat.cast_one, one_mul, sub_self]
    exact weighs_one
  | cons count later ih =>
    obtain ⟨hcount, hlater⟩ := List.forall_mem_cons.1 hcounts
    have hall := (weighs_singleton count.path).mul
      ((hL.pow (count.low - 1)).mul (ih hlater (hL.paths count)))
    rw [Nat.cast_sub hcount.low_pos] at hall
    have hbits : (((count :: later).map RepeatCount.low).prod : Nat) * x - x =
        0 + ((count.low - (1 : Nat)) * x +
          (((later.map RepeatCount.low).prod : Nat) * (count.low * x) - count.low * x)) := by
      rw [List.map_cons, List.prod_cons]
      push_cast
      ring
    rw [hbits]
    exact hall

/-- The first instance of a construct, and what repeat counts add. -/
lemma Weighs.repeated {counts : List RepeatCount} (hL : Weighs L x C)
    (hcounts : ∀ count ∈ counts, count.Valid) :
    Weighs (L * addedPaths counts L) (((counts.map RepeatCount.low).prod : Nat) * x) C := by
  have hall := hL.mul (weighs_addedPaths hcounts hL)
  rwa [add_sub_cancel] at hall

/-- A choice among sets of paths, each with enough of them. -/
lemma weighs_tagged {n : Nat} (hn : 0 < n) {K : Nat → Language Draw}
    (hK : ∀ i < n, Weighs (K i) x C) :
    Weighs (tagged (Prod.mk n) n K) (Entropy.choiceBits n + x) C := by
  have hncard := ncard_tagged (Prod.mk_right_injective n) fun i hi => (hK i hi).finite
  have hbits : (2 : ℝ) ^ (Entropy.choiceBits n + x) = ∑ i ∈ Finset.range n, (2 : ℝ) ^ x := by
    rw [Real.rpow_add two_pos, Entropy.two_rpow_choiceBits hn, Finset.sum_const,
      Finset.card_range, nsmul_eq_mul]
  refine ⟨prefixFree_tagged (Prod.mk_right_injective n) fun i hi => (hK i hi).prefixFree,
    finite_tagged _ fun i hi => (hK i hi).finite, ?_, fun hC => ?_⟩
  · rw [hncard, hbits, Nat.cast_sum]
    exact Finset.sum_le_sum fun i hi => (hK i (Finset.mem_range.1 hi)).le_ncard
  · rw [hncard, hbits, Nat.cast_sum]
    exact Finset.sum_congr rfl fun i hi => (hK i (Finset.mem_range.1 hi)).ncard_eq hC

/-- The paths of a set carry the bits of the choice of a member. -/
lemma weighs_charSet (set : CharSet) : Weighs set.paths (Entropy.choiceBits set.size) C := by
  unfold CharSet.paths
  split
  · rename_i hsize
    have hall := weighs_tagged (C := C) hsize fun _ _ => weighs_one
    rwa [add_zero] at hall
  · rename_i hsize
    rw [Nat.eq_zero_of_not_pos hsize, Entropy.choiceBits_zero]
    exact weighs_one

/-- Fewer bits are told apart as well. -/
lemma Weighs.le (h : Weighs L x C) (hy : y ≤ x) : Weighs L y False :=
  { h with
    le_ncard := (Real.rpow_le_rpow_of_exponent_le one_le_two hy).trans h.le_ncard
    ncard_eq := False.elim }

end Weighs

mutual

/-- **A pattern has enough paths**: no path of a pattern without calls continues another one, and
there are at least as many as its measure says. Without alternations there are exactly as many.

**Proof sketch.** By induction over the tree. Paths of constructs one behind the other are put
together from one path of each, since none of them continues another one. An alternation has the
paths of all branches, each behind its own choice, and each branch has at least as many as the
branch with the fewest bits. -/
theorem Pattern.weighs_paths : ∀ {t : Pattern}, t.CallFree → t.CountsIn RepeatCount.Valid →
    Weighs t.paths (t.measure RepeatCount.low) t.Straight
  | .done, _, _ | .stop _, _, _ => weighs_one
  | .seq head counts rest, hcalls, ⟨hhead, hcounts, hrest⟩ => by
    rw [Pattern.paths, Pattern.measure]
    exact (((Construct.weighs_paths hcalls.1 hhead).repeated hcounts).imp fun h => h.1).mul
      ((Pattern.weighs_paths hcalls.2 hrest).imp fun h => h.2)

/-- The paths of a construct carry at least the bits of its smallest measure, and just as many in a
straight one. -/
lemma Construct.weighs_paths : ∀ {c : Construct}, c.CallsIn (fun _ => False) →
    c.CountsIn RepeatCount.Valid → Weighs c.paths (c.measure RepeatCount.low) c.Straight
  | .character _, _, _ | .reference _ _, _, _ => weighs_one
  | .oneOf set, _, _ => by
    rw [Construct.paths, Construct.measure, CharSet.ncard_contains]
    exact weighs_charSet set
  | .group _ body, hcalls, hcounts => Pattern.weighs_paths (t := body) hcalls hcounts
  | .alternation _ branches, hcalls, hcounts => by
    rw [Construct.paths, Construct.measure]
    exact (weighs_tagged branches.length_pos fun i hi =>
      Branches.weighs_chosenPaths hcalls hcounts hi).imp False.elim

/-- Each branch has enough paths for the branch with the fewest bits. -/
lemma Branches.weighs_chosenPaths : ∀ {b : Branches}, b.CallsIn (fun _ => False) →
    b.CountsIn RepeatCount.Valid → ∀ {choice : Nat}, choice < b.length →
      Weighs (b.chosenPaths choice) (b.leastMeasure RepeatCount.low) False
  | .one _ _ body, hcalls, hcounts, choice, _ => by
    rw [Branches.chosenPaths]
    exact (Pattern.weighs_paths (t := body) hcalls hcounts).le le_rfl
  | .more _ _ _ _, hcalls, hcounts, 0, _ =>
    (Pattern.weighs_paths hcalls.1 hcounts.1).le (min_le_left _ _)
  | .more _ _ _ _, hcalls, hcounts, _ + 1, h =>
    (Branches.weighs_chosenPaths hcalls.2 hcounts.2 (Nat.lt_of_succ_lt_succ h)).le
      (min_le_right _ _)

end

end PatternSampler
