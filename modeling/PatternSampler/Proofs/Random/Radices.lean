import Mathlib
import PatternSampler.Random.Shuffle

set_option autoImplicit false

/-!
# Swap indices as mixed-radix digits

The values drawn for the groups of a row and the swap indices read off them are both rows of numbers
below given bounds. Each row of swap indices comes from just one row of values.

## Main definitions

* `below` — the rows of numbers that stay below given bounds, place by place.

## Main results

* `ncard_below` — there are as many of them as the product of the bounds says.
* `RadixGroup.bijOn_digits` — the digits of the values below a product of consecutive radices.
* `bijOn_swapIndices` — the swap indices of a row of any length.

## Implementation notes

The last digit of a group is what is left of the value, without a remainder being taken. It stays
below its radix because the value stays below the product.
-/

namespace PatternSampler

/-! ## Bounded rows -/

/-- The rows of numbers that stay below the bounds, place by place. -/
def below (bounds : List Nat) : Set (List Nat) := {values | List.Forall₂ (· < ·) values bounds}

/-- Without bounds there is the empty row. -/
lemma nil_mem_below : [] ∈ below [] := List.Forall₂.nil

/-- A row stays below its bounds if its first number and the others do. -/
lemma cons_mem_below {value bound : Nat} {values bounds : List Nat} :
    value :: values ∈ below (bound :: bounds) ↔ value < bound ∧ values ∈ below bounds :=
  List.forall₂_cons

/-- A row has one number for each bound. -/
lemma length_of_mem_below {values bounds : List Nat} (h : values ∈ below bounds) :
    values.length = bounds.length :=
  List.Forall₂.length_eq h

/-- The empty row is the only one without bounds. -/
lemma below_nil : below [] = {[]} := by
  ext values
  exact List.forall₂_nil_right_iff

/-- The rows below a single bound. -/
lemma mem_below_singleton {values : List Nat} {bound : Nat} :
    values ∈ below [bound] ↔ ∃ value < bound, values = [value] := by
  constructor
  · rintro (_ | ⟨hvalue, _ | _⟩)
    exact ⟨_, hvalue, rfl⟩
  · rintro ⟨value, hvalue, rfl⟩
    exact cons_mem_below.2 ⟨hvalue, nil_mem_below⟩

/-- A row below two rows of bounds falls into two rows. -/
lemma mem_below_append {values front back : List Nat} :
    values ∈ below (front ++ back) ↔ ∃ a ∈ below front, ∃ b ∈ below back, values = a ++ b := by
  constructor
  · intro h
    exact ⟨_, List.forall₂_take_append _ _ _ h, _, List.forall₂_drop_append _ _ _ h,
      (List.take_append_drop _ _).symm⟩
  · rintro ⟨a, ha, b, hb, rfl⟩
    exact List.rel_append ha hb

/-- Each number of a bounded row stays below its bound. -/
lemma lt_of_mem_below {values bounds : List Nat} (h : values ∈ below bounds) {i value bound : Nat}
    (hvalue : values[i]? = some value) (hbound : bounds[i]? = some bound) : value < bound := by
  induction h generalizing i with
  | nil => simp at hvalue
  | cons hlt _ ih =>
    cases i with
    | zero =>
      simp only [List.getElem?_cons_zero, Option.some.injEq] at hvalue hbound
      rwa [← hvalue, ← hbound]
    | succ i => exact ih hvalue hbound

/-- A row of at least one place is a number and the other numbers. -/
lemma bijOn_cons (bound : Nat) (bounds : List Nat) :
    Set.BijOn (fun x : Nat × List Nat => x.1 :: x.2) (Set.Iio bound ×ˢ below bounds)
      (below (bound :: bounds)) := by
  refine ⟨fun x hx => cons_mem_below.2 hx, fun x _ y _ hxy => ?_, fun values hvalues => ?_⟩
  · obtain ⟨hfirst, hrest⟩ := List.cons.inj hxy
    exact Prod.ext hfirst hrest
  · cases hvalues with
    | cons hvalue hrest => exact ⟨(_, _), Set.mk_mem_prod hvalue hrest, rfl⟩

/-- A row behind another one, both of them of fixed lengths. -/
lemma bijOn_append (front back : List Nat) :
    Set.BijOn (fun x : List Nat × List Nat => x.1 ++ x.2) (below front ×ˢ below back)
      (below (front ++ back)) := by
  refine ⟨fun x hx => mem_below_append.2 ⟨x.1, hx.1, x.2, hx.2, rfl⟩, fun x hx y hy hxy => ?_,
    fun values hvalues => ?_⟩
  · have hlength : x.1.length = y.1.length :=
      (length_of_mem_below hx.1).trans (length_of_mem_below hy.1).symm
    obtain ⟨hfront, hback⟩ := List.append_inj hxy hlength
    exact Prod.ext hfront hback
  · obtain ⟨a, ha, b, hb, rfl⟩ := mem_below_append.1 hvalues
    exact ⟨(a, b), Set.mk_mem_prod ha hb, rfl⟩

/-- There are as many bounded rows as the product of the bounds says. -/
theorem ncard_below (bounds : List Nat) : (below bounds).ncard = bounds.prod := by
  induction bounds with
  | nil => rw [below_nil, Set.ncard_singleton, List.prod_nil]
  | cons bound bounds ih =>
    rw [← (bijOn_cons bound bounds).ncard_eq, Set.ncard_prod, ih, List.prod_cons, Set.ncard_Iio_nat]

/-! ## One group -/

/-- Remainder and quotient. -/
lemma bijOn_mod_div {radix : Nat} (hradix : 0 < radix) (size : Nat) :
    Set.BijOn (fun value => (value % radix, value / radix)) (Set.Iio (radix * size))
      (Set.Iio radix ×ˢ Set.Iio size) := by
  refine ⟨fun value hvalue => ⟨Nat.mod_lt value hradix, Nat.div_lt_of_lt_mul hvalue⟩,
    fun value _ value' _ h => ?_, ?_⟩
  · obtain ⟨hmod, hdiv⟩ := Prod.mk.inj h
    rw [← Nat.div_add_mod value radix, hmod, hdiv, Nat.div_add_mod]
  · rintro ⟨digit, rest⟩ h
    obtain ⟨hdigit, hrest⟩ : digit < radix ∧ rest < size := h
    refine ⟨digit + radix * rest, ?_, ?_⟩
    · have := Nat.mul_le_mul_left radix (Nat.succ_le_of_lt hrest)
      rw [Nat.mul_succ] at this
      exact Set.mem_Iio.2 (by omega)
    · dsimp only
      rw [Nat.add_mul_mod_self_left, Nat.mod_eq_of_lt hdigit, Nat.add_mul_div_left _ _ hradix,
        Nat.div_eq_of_lt hdigit, Nat.zero_add]

namespace RadixGroup

/-- The digits of the values below a product of consecutive radices.

**Proof sketch.** By induction on the number of digits. The first one is the remainder by its radix,
and the others are the digits of the quotient. The last digit is the whole value, which is below the
last radix. -/
theorem bijOn_digits (count : Nat) {radix : Nat} (hradix : 0 < radix) :
    Set.BijOn (digits (count + 1) radix) (Set.Iio (List.range' radix (count + 1)).prod)
      (below (List.range' radix (count + 1))) := by
  induction count generalizing radix with
  | zero =>
    refine ⟨fun value hvalue => ?_, fun value _ value' _ h => (List.cons.inj h).1, ?_⟩
    · rw [Set.mem_Iio, List.range'_one, List.prod_singleton] at hvalue
      exact cons_mem_below.2 ⟨hvalue, nil_mem_below⟩
    · intro values hvalues
      obtain ⟨value, hvalue, rfl⟩ := mem_below_singleton.1 hvalues
      refine ⟨value, ?_, rfl⟩
      rwa [Set.mem_Iio, List.range'_one, List.prod_singleton]
  | succ count ih =>
    have hdigits := (Set.bijOn_id (Set.Iio radix)).prodMap (ih (Nat.succ_pos radix))
    rw [List.range'_succ, List.prod_cons]
    exact (bijOn_cons radix _).comp (hdigits.comp (bijOn_mod_div hradix _))

/-- The bound of a group is the product of its radices. -/
lemma radixProduct_fst (bound next : Nat) :
    (radixProduct bound next).1 =
      bound * (List.range' next ((radixProduct bound next).2 - next)).prod := by
  fun_induction radixProduct bound next with
  | case1 bound next h ih =>
    have hle := le_radixProduct_snd (bound * next) (next + 1)
    obtain ⟨count, hcount⟩ := Nat.le.dest hle
    rw [ih, ← hcount, Nat.add_sub_cancel_left, show next + 1 + count - next = count + 1 by omega,
      List.range'_succ, List.prod_cons, Nat.mul_assoc]
  | case2 bound next h => rw [Nat.sub_self, List.range'_zero, List.prod_nil, Nat.mul_one]

/-- The bound of a group is the product of its radices. -/
lemma bound_ofRadix (radix : Nat) :
    (ofRadix radix).bound = (List.range' radix (ofRadix radix).count).prod := by
  have hle := le_radixProduct_snd radix (radix + 1)
  obtain ⟨count, hcount⟩ := Nat.le.dest hle
  simp only [ofRadix]
  rw [radixProduct_fst, ← hcount, Nat.add_sub_cancel_left,
    show radix + 1 + count - radix = count + 1 by omega, List.range'_succ, List.prod_cons]

/-- The bound of a group fits in one word if its first radix does. -/
lemma radixProduct_fst_lt {bound : Nat} (next : Nat) (h : bound < wordSize) :
    (radixProduct bound next).1 < wordSize := by
  fun_induction radixProduct bound next with
  | case1 bound next hnext ih => exact ih hnext.2
  | case2 => exact h

/-- The swap indices of a group. -/
lemma bijOn_indices_ofRadix {radix : Nat} (hradix : 0 < radix) :
    Set.BijOn (ofRadix radix).indices (Set.Iio (ofRadix radix).bound)
      (below (List.range' radix (ofRadix radix).count)) := by
  obtain ⟨count, hcount⟩ := Nat.exists_eq_succ_of_ne_zero (count_ofRadix_pos radix).ne'
  rw [bound_ofRadix, hcount]
  have hindices : (ofRadix radix).indices = digits (count + 1) radix := by
    funext value
    rw [indices, hcount]
    rfl
  rw [hindices]
  exact bijOn_digits count hradix

end RadixGroup

/-! ## All groups of a row -/

/-- The number of places of the groups of a row from a place on, including those that lie behind
the row. -/
def placesFrom (length place : Nat) : Nat := ((radixGroups length place).map RadixGroup.count).sum

/-- The groups of a row reach to its end. -/
lemma le_add_placesFrom (length place : Nat) : length ≤ place + placesFrom length place := by
  unfold placesFrom
  fun_induction radixGroups length place with
  | case1 place h ih =>
    rw [List.map_cons, List.sum_cons]
    omega
  | case2 place h => omega

/-- The swap indices in the values drawn for the groups of a row. The index for a place is at most
the place itself, and each row of such indices comes from just one row of values.

**Proof sketch.** By induction along the groups: the indices of the first group stand in front of
the others. -/
theorem bijOn_swapIndices (length place : Nat) :
    Set.BijOn (swapIndices (radixGroups length place))
      (below ((radixGroups length place).map RadixGroup.bound))
      (below (List.range' (place + 1) (placesFrom length place))) := by
  unfold placesFrom
  fun_induction radixGroups length place with
  | case1 place h ih =>
    have hfirst := RadixGroup.bijOn_indices_ofRadix (Nat.succ_pos place)
    have hboth := (bijOn_append _ _).comp (hfirst.prodMap ih)
    rw [List.map_cons, List.map_cons, List.sum_cons, ← List.range'_append, Nat.one_mul]
    rw [← (bijOn_cons _ _).image_eq, ← Set.bijOn_comp_iff (bijOn_cons _ _).injOn]
    rw [Nat.add_right_comm] at hboth
    exact hboth
  | case2 place h =>
    simp only [List.map_nil, List.sum_nil, List.range'_zero, below_nil]
    exact Set.bijOn_singleton.2 rfl

end PatternSampler
