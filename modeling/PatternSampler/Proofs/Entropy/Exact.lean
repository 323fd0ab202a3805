import Mathlib
import PatternSampler.Pattern.Sample

set_option autoImplicit false

/-!
# Exact entropies

The real number that an entropy stands for, with logarithms to the base two that are neither rounded
themselves nor where they are added up.

## Main definitions

* `Entropy.choiceBits` — the number of bits of a choice.
* `Entropy.exact` — the number of bits of an entropy as a real number.

## Main results

* `Entropy.exact_nonneg` — an entropy is not negative.
* `Entropy.exact_eq_choiceBits` — it is that of a choice among its outcomes.
-/

namespace PatternSampler

namespace Entropy

/-! ## Bits -/

/-- The number of bits of a choice among `n` values. -/
noncomputable def choiceBits (n : Nat) : ℝ := Real.logb 2 n

/-- A choice among no values has no bits. -/
@[simp] lemma choiceBits_zero : choiceBits 0 = 0 := by
  simp [choiceBits]

/-- A choice among one value has no bits. -/
@[simp] lemma choiceBits_one : choiceBits 1 = 0 := by
  simp [choiceBits]

/-- A choice among two to the power of `n` values has `n` bits. -/
lemma choiceBits_two_pow (n : Nat) : choiceBits (2 ^ n) = n := by
  rw [choiceBits, Nat.cast_pow, Nat.cast_ofNat, Real.logb_pow, Real.logb_self_eq_one one_lt_two,
    mul_one]

/-- The bits of a choice are not negative. -/
lemma choiceBits_nonneg (n : Nat) : 0 ≤ choiceBits n := by
  cases n with
  | zero => simp [choiceBits]
  | succ n => exact Real.logb_nonneg one_lt_two (by exact_mod_cast Nat.succ_pos n)

/-- The bits of two choices add up. -/
lemma choiceBits_mul {m n : Nat} (hm : 0 < m) (hn : 0 < n) :
    choiceBits (m * n) = choiceBits m + choiceBits n := by
  have hm := Nat.cast_ne_zero (R := ℝ).2 hm.ne'
  have hn := Nat.cast_ne_zero (R := ℝ).2 hn.ne'
  simp only [choiceBits, Nat.cast_mul, Real.logb_mul hm hn]

/-- A choice among more values has more bits. -/
lemma choiceBits_le_choiceBits {m n : Nat} (hm : 0 < m) (h : m ≤ n) :
    choiceBits m ≤ choiceBits n :=
  Real.logb_le_logb_of_le one_lt_two (Nat.cast_pos.2 hm) (Nat.cast_le.2 h)

/-- The smaller one of two numbers of bits belongs to the choice among less values. -/
lemma min_choiceBits {m n : Nat} (hm : 0 < m) (hn : 0 < n) :
    min (choiceBits m) (choiceBits n) = choiceBits (min m n) := by
  rcases le_total m n with h | h
  · rw [Nat.min_eq_left h, min_eq_left (choiceBits_le_choiceBits hm h)]
  · rw [Nat.min_eq_right h, min_eq_right (choiceBits_le_choiceBits hn h)]

/-- Bits are at most those of a choice if two to their power is at most the number of values. -/
lemma le_choiceBits_iff {x : ℝ} {n : Nat} (hn : 0 < n) : x ≤ choiceBits n ↔ (2 : ℝ) ^ x ≤ n :=
  Real.le_logb_iff_rpow_le one_lt_two (Nat.cast_pos.2 hn)

/-- Two to the power of the bits of a choice is the number of values. -/
lemma two_rpow_choiceBits {n : Nat} (hn : 0 < n) : (2 : ℝ) ^ choiceBits n = n :=
  Real.rpow_logb two_pos one_lt_two.ne' (Nat.cast_pos.2 hn)

/-! ## Entropies -/

mutual

/-- The number of bits of an entropy as a real number. -/
noncomputable def exact : Entropy → ℝ
  | choice n => choiceBits n
  | sum parts => exactSum parts
  | least first others => exactLeast first.exact others

/-- The bits of independent parts together. -/
noncomputable def exactSum : List Entropy → ℝ
  | [] => 0
  | part :: rest => part.exact + exactSum rest

/-- The smallest number of bits of several entropies and of `least`. -/
noncomputable def exactLeast (least : ℝ) : List Entropy → ℝ
  | [] => least
  | other :: rest => exactLeast (min least other.exact) rest

end

/-- The bits of independent parts are the sum of their bits. -/
lemma exactSum_eq (parts : List Entropy) : exactSum parts = (parts.map exact).sum := by
  induction parts with
  | nil => rfl
  | cons part rest ih => rw [exactSum, ih, List.map_cons, List.sum_cons]

/-- A number is at most the smallest of several if it is at most each of them. -/
lemma le_exactLeast {x least : ℝ} {others : List Entropy} :
    x ≤ exactLeast least others ↔ x ≤ least ∧ ∀ other ∈ others, x ≤ other.exact := by
  induction others generalizing least with
  | nil => simp [exactLeast]
  | cons other rest ih => rw [exactLeast, ih, le_min_iff, List.forall_mem_cons, and_assoc]

/-- The smallest number of bits is at most each of them. -/
lemma exactLeast_le (least : ℝ) (others : List Entropy) :
    exactLeast least others ≤ least ∧ ∀ other ∈ others, exactLeast least others ≤ other.exact :=
  le_exactLeast.1 le_rfl

/-- No entropy has no bits. -/
@[simp] lemma exact_zero : zero.exact = 0 := by
  rw [zero, exact, exactSum]

/-- The entropy of a choice among two to the power of `n` values has `n` bits. -/
lemma exact_choice_two_pow (n : Nat) : (choice (2 ^ n)).exact = n := by
  rw [exact, choiceBits_two_pow]

/-- The entropy of a choice between a text and nothing. -/
lemma exact_choice_2 : (choice 2).exact = 1 := (exact_choice_two_pow 1).trans (by norm_num)

/-- The entropy of a byte. -/
lemma exact_choice_256 : (choice 256).exact = 8 := (exact_choice_two_pow 8).trans (by norm_num)

/-- The entropy of a mnemonic word. -/
lemma exact_choice_2048 : (choice 2048).exact = 11 :=
  (exact_choice_two_pow 11).trans (by norm_num)

mutual

/-- An entropy is not negative. -/
theorem exact_nonneg : ∀ e : Entropy, 0 ≤ e.exact
  | choice n => by
    rw [exact]
    exact choiceBits_nonneg n
  | sum parts => by
    rw [exact, exactSum_eq]
    exact List.sum_nonneg (List.forall_mem_map.2 (all_nonneg parts))
  | least first others => by
    rw [exact]
    exact le_exactLeast.2 ⟨exact_nonneg first, all_nonneg others⟩

/-- None of several entropies is negative. -/
private lemma all_nonneg : ∀ parts : List Entropy, ∀ part ∈ parts, 0 ≤ part.exact
  | [] => by simp
  | part :: rest => List.forall_mem_cons.2 ⟨exact_nonneg part, all_nonneg rest⟩

end

/-! ## Outcomes -/

/-- The smallest of several numbers of outcomes is positive only if all of them are. -/
private lemma pos_of_outcomesLeast {least : Nat} {others : List Entropy}
    (h : 0 < outcomesLeast least others) : 0 < least ∧ ∀ other ∈ others, 0 < other.outcomes := by
  induction others generalizing least with
  | nil => exact ⟨h, by simp⟩
  | cons other rest ih =>
    rw [outcomesLeast] at h
    obtain ⟨hmin, hrest⟩ := ih h
    rw [Nat.lt_min] at hmin
    exact ⟨hmin.1, List.forall_mem_cons.2 ⟨hmin.2, hrest⟩⟩

mutual

/-- An entropy is that of a choice among its outcomes. -/
theorem exact_eq_choiceBits : ∀ {e : Entropy}, 0 < e.outcomes →
    e.exact = choiceBits e.outcomes
  | choice n, _ => by rw [exact, outcomes]
  | sum parts, h => by
    rw [outcomes] at h ⊢
    rw [exact, exactSum_eq_choiceBits h]
  | least first others, h => by
    rw [outcomes] at h ⊢
    obtain ⟨hfirst, -⟩ := pos_of_outcomesLeast h
    rw [exact, exact_eq_choiceBits hfirst, exactLeast_eq_choiceBits h]

/-- Parts that are all known as numbers of outcomes have the bits of their product. -/
private lemma exactSum_eq_choiceBits : ∀ {parts : List Entropy}, 0 < outcomesProduct parts →
    exactSum parts = choiceBits (outcomesProduct parts)
  | [], _ => by simp [exactSum, outcomesProduct]
  | part :: rest, h => by
    rw [outcomesProduct] at h ⊢
    have hpart := Nat.pos_of_mul_pos_right h
    have hrest := Nat.pos_of_mul_pos_left h
    rw [exactSum, exact_eq_choiceBits hpart, exactSum_eq_choiceBits hrest,
      choiceBits_mul hpart hrest]

/-- Entropies that are all known as numbers of outcomes have the least bits of the smallest number.
-/
private lemma exactLeast_eq_choiceBits {least : Nat} : ∀ {others : List Entropy},
    0 < outcomesLeast least others →
      exactLeast (choiceBits least) others = choiceBits (outcomesLeast least others)
  | [], _ => rfl
  | other :: rest, h => by
    obtain ⟨hleast, hothers⟩ := pos_of_outcomesLeast h
    rw [outcomesLeast] at h ⊢
    have hother := hothers other List.mem_cons_self
    rw [exactLeast, exact_eq_choiceBits hother, min_choiceBits hleast hother,
      exactLeast_eq_choiceBits h]

end

end Entropy

/-- The entropy of samples one after the other. -/
lemma exact_join (samples : List Sample) :
    (Sample.join samples).entropy.exact = (samples.map fun s => s.entropy.exact).sum := by
  rw [Sample.join, Entropy.exact, Entropy.exactSum_eq, List.map_map]
  rfl

end PatternSampler
