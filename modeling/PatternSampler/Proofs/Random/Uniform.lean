import PatternSampler.Proofs.Run.Choices

set_option autoImplicit false

/-!
# Draws are uniform

A draw below `n` reads two chunks as the digits of a fraction and keeps the whole part of its
product with `n`. So each value below `n` takes an interval of the fractions, and the intervals are
equally long up to rounding.

## Main definitions

* `WordStream.ofChunks` — the stream whose words spell two chunks.

## Main results

* `card_filter_mul_div_eq` — the numbers below `size` whose products with `n` have a given whole
  part, in units of `size`.
* `uniform_fixed_point` — what a draw yields, which words it takes, and how often each value comes
  up among all pairs of chunks.
-/

namespace PatternSampler

/-! ## Numbers with the same whole part -/

section WholeParts

variable {size n k : Nat}

/-- A number has the whole part `k` from the first number on whose product reaches `k * size`, and
before the one whose product reaches the next multiple of `size`. -/
lemma mul_div_eq_iff (hn : 0 < n) (hsize : 0 < size) (x : Nat) :
    x * n / size = k ↔ x ∈ Finset.Ico (k * size ⌈/⌉ n) ((k + 1) * size ⌈/⌉ n) := by
  have hlow : k * size ⌈/⌉ n ≤ x ↔ k * size ≤ x * n := by
    rw [ceilDiv_le_iff_le_mul hn, Nat.mul_comm n]
  have hhigh : x < (k + 1) * size ⌈/⌉ n ↔ x * n < (k + 1) * size := by
    rw [← Nat.not_le, ceilDiv_le_iff_le_mul hn, Nat.mul_comm n, Nat.not_le]
  rw [Finset.mem_Ico, hlow, hhigh, Nat.div_eq_iff hsize, Nat.succ_mul]
  omega

/-- The length of the interval of a whole part is the share of `size` that falls to it, rounded down
or up.

**Proof sketch.** Rounding up moves each end of the interval by less than one. So the length differs
from the share by less than one. -/
lemma sub_ceilDiv_eq (hn : 0 < n) (k : Nat) :
    (k + 1) * size ⌈/⌉ n - k * size ⌈/⌉ n = size / n ∨
      (k + 1) * size ⌈/⌉ n - k * size ⌈/⌉ n = size ⌈/⌉ n := by
  -- the least multiple of `n` that is not below a number is less than `n` above it
  have hround : ∀ m : Nat, m ≤ n * (m ⌈/⌉ n) ∧ n * (m ⌈/⌉ n) < m + n := by
    intro m
    rw [Nat.ceilDiv_eq_add_pred_div]
    have hmod := Nat.div_add_mod (m + n - 1) n
    have hlt := Nat.mod_lt (m + n - 1) hn
    omega
  obtain ⟨hlow, hlow'⟩ := hround (k * size)
  obtain ⟨hhigh, hhigh'⟩ := hround ((k + 1) * size)
  obtain ⟨hup, hup'⟩ := hround size
  have hdown := Nat.div_add_mod size n
  have hrest := Nat.mod_lt size hn
  rw [Nat.succ_mul] at hhigh hhigh' ⊢
  generalize k * size ⌈/⌉ n = low at *
  generalize (k * size + size) ⌈/⌉ n = high at *
  have hmono : low ≤ high := by
    by_contra hlt
    have := Nat.mul_le_mul_left n (Nat.not_le.1 hlt)
    rw [Nat.mul_succ] at this
    omega
  obtain ⟨length, rfl⟩ := Nat.le.dest hmono
  rw [Nat.mul_add] at hhigh hhigh'
  rw [Nat.add_sub_cancel_left]
  -- the length lies strictly between the neighbours of the share
  have hleast : size / n ≤ length := by
    by_contra hlt
    have := Nat.mul_le_mul_left n (Nat.not_le.1 hlt)
    rw [Nat.mul_succ] at this
    omega
  have hmost : length ≤ size ⌈/⌉ n := by
    by_contra hlt
    have := Nat.mul_le_mul_left n (Nat.not_le.1 hlt)
    rw [Nat.mul_succ] at this
    omega
  have hnear : size ⌈/⌉ n ≤ size / n + 1 := by
    by_contra hlt
    have := Nat.mul_le_mul_left n (Nat.not_le.1 hlt)
    rw [Nat.mul_succ, Nat.mul_succ] at this
    omega
  omega

/-- The numbers below `size` whose products with `n` have the whole part `k`. -/
theorem card_filter_mul_div_eq (hn : 0 < n) (hsize : 0 < size) (hk : k < n) :
    ((Finset.range size).filter fun x => x * n / size = k).card = size / n ∨
      ((Finset.range size).filter fun x => x * n / size = k).card = size ⌈/⌉ n := by
  have hfilter : (Finset.range size).filter (fun x => x * n / size = k) =
      Finset.Ico (k * size ⌈/⌉ n) ((k + 1) * size ⌈/⌉ n) := by
    ext x
    rw [Finset.mem_filter, mul_div_eq_iff hn hsize, Finset.mem_range, and_iff_right_iff_imp]
    intro hx
    have htop : (k + 1) * size ⌈/⌉ n ≤ size := by
      rw [ceilDiv_le_iff_le_mul hn]
      exact Nat.mul_le_mul_right size hk
    exact Nat.lt_of_lt_of_le (Finset.mem_Ico.1 hx).2 htop
  rw [hfilter, Nat.card_Ico]
  exact sub_ceilDiv_eq hn k

end WholeParts

/-! ## Streams for given chunks -/

/-- A chunk takes as many values as its words do together. -/
lemma chunkSize_eq_pow (n : Nat) : chunkSize n = wordSize ^ chunkWords n := by
  unfold chunkSize chunkWords
  split
  · exact (pow_one _).symm
  · exact (sq _).symm

namespace WordStream

/-- The words of a number from a position on, the lowest one first. -/
def ofNumber (position number : Nat) : WordStream := fun i =>
  UInt32.ofNat (number / wordSize ^ (i - position))

/-- The words of a number are its digits in the base of a word. -/
lemma toNat_ofNumber (position number offset : Nat) :
    (ofNumber position number (position + offset)).toNat =
      number / wordSize ^ offset % wordSize := by
  rw [ofNumber, Nat.add_sub_cancel_left, UInt32.toNat_ofNat']
  rfl

/-- The chunk behind `offset` words. -/
lemma chunk_ofNumber (n position number offset : Nat) :
    (ofNumber position number).chunk n (position + offset) =
      number / wordSize ^ offset % chunkSize n := by
  unfold chunk chunkSize
  split
  · exact toNat_ofNumber position number offset
  · rw [toNat_ofNumber, Nat.add_assoc, toNat_ofNumber, Nat.mod_mul, pow_succ,
      Nat.div_div_eq_div_mul]

/-- The stream whose words spell two chunks for draws below `n`, one behind the other. -/
def ofChunks (n position first second : Nat) : WordStream :=
  ofNumber position (first + chunkSize n * second)

variable {n first second : Nat}

/-- The first chunk of a stream that is made from two chunks. -/
lemma chunk_ofChunks (position second : Nat) (hfirst : first < chunkSize n) :
    (ofChunks n position first second).chunk n position = first := by
  have h := chunk_ofNumber n position (first + chunkSize n * second) 0
  rwa [Nat.add_zero, pow_zero, Nat.div_one, Nat.add_mul_mod_self_left,
    Nat.mod_eq_of_lt hfirst] at h

/-- The second chunk stands right behind the words of the first one. -/
lemma chunk_ofChunks_next (position : Nat) (hfirst : first < chunkSize n)
    (hsecond : second < chunkSize n) :
    (ofChunks n position first second).chunk n (position + chunkWords n) = second := by
  rw [ofChunks, chunk_ofNumber, ← chunkSize_eq_pow, Nat.add_mul_div_left _ _ (chunkSize_pos n),
    Nat.div_eq_of_lt hfirst, Nat.zero_add, Nat.mod_eq_of_lt hsecond]

end WordStream

/-! ## Draws -/

section Draws

variable {n : Nat}

/-- The words that a draw takes: a second chunk only behind a first one whose product with `n`
leaves a fraction so large that it could still overflow. -/
lemma uniform_snd (stream : WordStream) (n position : Nat) :
    (uniform stream n position).2 =
      if chunkSize n - n < stream.chunk n position * n % chunkSize n then
        position + 2 * chunkWords n
      else position + chunkWords n := by
  simp only [uniform]
  split
  · rw [Nat.two_mul, Nat.add_assoc]
  · rfl

/-- Pairs of digits are the numbers below the square of their base. -/
lemma card_filter_pairs {size : Nat} (hsize : 0 < size) (P : Nat → Prop) [DecidablePred P] :
    ((Finset.range size ×ˢ Finset.range size).filter fun c => P (c.1 * size + c.2)).card =
      ((Finset.range (size * size)).filter P).card := by
  refine Finset.card_nbij' (fun c => c.1 * size + c.2) (fun x => (x / size, x % size)) ?_ ?_ ?_ ?_
  · rintro ⟨first, second⟩ h
    simp only [Finset.coe_filter, Finset.mem_product, Finset.mem_range, Set.mem_ofPred_eq] at h ⊢
    have := Nat.mul_le_mul_right size (Nat.succ_le_of_lt h.1.1)
    rw [Nat.succ_mul] at this
    exact ⟨by omega, h.2⟩
  · intro x h
    simp only [Finset.coe_filter, Finset.mem_product, Finset.mem_range, Set.mem_ofPred_eq] at h ⊢
    rw [Nat.div_add_mod']
    exact ⟨⟨Nat.div_lt_of_lt_mul h.1, Nat.mod_lt x hsize⟩, h.2⟩
  · rintro ⟨first, second⟩ h
    simp only [Finset.coe_filter, Finset.mem_product, Finset.mem_range, Set.mem_ofPred_eq] at h
    dsimp only
    rw [Nat.mul_comm first, Nat.mul_add_div hsize, Nat.div_eq_of_lt h.1.2, Nat.add_zero,
      Nat.mul_add_mod, Nat.mod_eq_of_lt h.1.2]
  · intro x _
    exact Nat.div_add_mod' x size

/-- Among all pairs of chunks each value comes up its share of times, rounded down or up. -/
theorem card_filter_uniform_eq {k : Nat} (hn : n ≤ chunkSize n) (hk : k < n) (position : Nat) :
    let hits := (Finset.range (chunkSize n) ×ˢ Finset.range (chunkSize n)).filter fun chunks =>
      (uniform (.ofChunks n position chunks.1 chunks.2) n position).1 = k
    hits.card = (chunkSize n * chunkSize n) / n ∨
      hits.card = (chunkSize n * chunkSize n) ⌈/⌉ n := by
  intro hits
  have hsize := chunkSize_pos n
  have hhits : hits =
      (Finset.range (chunkSize n) ×ˢ Finset.range (chunkSize n)).filter fun chunks =>
        (chunks.1 * chunkSize n + chunks.2) * n / (chunkSize n * chunkSize n) = k := by
    refine Finset.filter_congr fun chunks hchunks => ?_
    obtain ⟨hfirst, hsecond⟩ := Finset.mem_product.1 hchunks
    rw [uniform_fst _ n position hn,
      WordStream.chunk_ofChunks position _ (Finset.mem_range.1 hfirst),
      WordStream.chunk_ofChunks_next position (Finset.mem_range.1 hfirst)
        (Finset.mem_range.1 hsecond)]
  rw [hhits, card_filter_pairs hsize fun x => x * n / (chunkSize n * chunkSize n) = k]
  exact card_filter_mul_div_eq (Nat.zero_lt_of_lt hk) (Nat.mul_pos hsize hsize) hk

/-- **Draws are exact fixed-point products**: let `B` be 32 for `n` below `2 ^ 32`, and 64
otherwise. Whatever the two next draws of `B` bits are, a draw below `n` yields the whole part of
their fraction times `n`. It takes the second one exactly if the first product leaves a fraction
above `2 ^ B - n`. All results are below `n`, each value below `n` is a result for some stream, and
among all pairs of draws each one comes up as often as its share says, rounded down or up.

**Proof sketch.** The whole part of the product with both draws is `uniform_fst`. So a value takes
an interval of the pairs, read as numbers below `2 ^ (2 * B)`, whose length is its share up to
rounding. -/
theorem uniform_fixed_point {n B : Nat} (hpos : 0 < n) (hlimit : n < 2 ^ 64)
    (hB : B = if n < 2 ^ 32 then 32 else 64) (position : Nat) :
    (∀ stream : WordStream,
      let first := stream.chunk n position
      let second := stream.chunk n (position + B / 32)
      uniform stream n position =
          ((first * 2 ^ B + second) * n / 2 ^ (2 * B),
            position + if 2 ^ B - n < first * n % 2 ^ B then 2 * (B / 32) else B / 32) ∧
        (uniform stream n position).1 < n) ∧
      (∀ first < 2 ^ B, ∀ second < 2 ^ B,
        (WordStream.ofChunks n position first second).chunk n position = first ∧
          (WordStream.ofChunks n position first second).chunk n (position + B / 32) = second) ∧
      (∀ k < n, ∃ stream, (uniform stream n position).1 = k) ∧
      ∀ k < n,
        let hits := (Finset.range (2 ^ B) ×ˢ Finset.range (2 ^ B)).filter fun draws =>
          (uniform (.ofChunks n position draws.1 draws.2) n position).1 = k
        hits.card = 2 ^ (2 * B) / n ∨ hits.card = 2 ^ (2 * B) ⌈/⌉ n := by
  have hn : n ≤ chunkSize n := le_chunkSize hlimit
  change B = if n < wordSize then 32 else 64 at hB
  have hwords : chunkWords n = B / 32 := by
    rw [hB, chunkWords]
    split <;> rfl
  have hsize : chunkSize n = 2 ^ B := by
    rw [hB, chunkSize]
    split <;> rfl
  have hsquare : 2 ^ (2 * B) = chunkSize n * chunkSize n := by
    rw [hsize, Nat.two_mul, pow_add]
  rw [hsquare, ← hsize, ← hwords]
  refine ⟨fun stream => ⟨Prod.ext (uniform_fst stream n position hn) ?_,
    uniform_lt stream position hpos⟩, fun first hfirst second hsecond =>
      ⟨WordStream.chunk_ofChunks position second hfirst,
        WordStream.chunk_ofChunks_next position hfirst hsecond⟩,
    fun k hk => exists_uniform_eq hn hk position, fun k hk => card_filter_uniform_eq hn hk position⟩
  rw [uniform_snd]
  split <;> rfl

/-- The largest bound, and two draws the second of which carries into the whole part. -/
theorem uniform_fixed_point_carry :
    (0 < 2 ^ 64 - 1 ∧ 2 ^ 64 - 1 < 2 ^ 64 ∧ 64 = if 2 ^ 64 - 1 < 2 ^ 32 then 32 else 64) ∧
      uniform (.ofChunks (2 ^ 64 - 1) 0 1 2) (2 ^ 64 - 1) 0 = (1, 4) := by
  refine ⟨by decide, ?_⟩
  obtain ⟨hdraws, hchunks, -⟩ :=
    uniform_fixed_point (n := 2 ^ 64 - 1) (B := 64) (by decide) (by decide) (by decide) 0
  obtain ⟨hfirst, hsecond⟩ := hchunks 1 (by decide) 2 (by decide)
  have hdraw := (hdraws (.ofChunks (2 ^ 64 - 1) 0 1 2)).1
  rw [hfirst, hsecond] at hdraw
  exact hdraw

end Draws

end PatternSampler
