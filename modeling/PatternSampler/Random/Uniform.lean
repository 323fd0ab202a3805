import PatternSampler.Random.Stream

set_option autoImplicit false

/-!
# Uniform draws

A draw below `n` takes a chunk of one or two words as a fraction of one and multiplies it by `n`:
the whole part is the result. Only where the fractional part is so large that further digits could
still carry into the whole part is a second chunk taken.

## Main definitions

* `wordSize`, `chunkSize` — the numbers of values of a word and of a chunk.
* `WordStream.chunk` — the value of the chunk at a position of a stream.
* `uniform` — a value below `n` and the position behind the draw.

## Main results

* `uniform_fst` — the result is the whole part of the product with both chunks, whether or not
  the second one is taken.
* `uniform_lt` — the result is below `n`.
-/

namespace PatternSampler

/-- The number of values of a word. -/
def wordSize : Nat := 0x100000000

/-- The number of words in a chunk for draws below `n`. -/
def chunkWords (n : Nat) : Nat := if n < wordSize then 1 else 2

/-- The number of values of a chunk for draws below `n`. -/
def chunkSize (n : Nat) : Nat := if n < wordSize then wordSize else wordSize * wordSize

/-- The chunk for a draw below `n` at a position. Of two words the first one is the lower half. -/
def WordStream.chunk (stream : WordStream) (n position : Nat) : Nat :=
  if n < wordSize then (stream position).toNat
  else (stream position).toNat + wordSize * (stream (position + 1)).toNat

/-- A value below `n` drawn at a position, and the position behind the draw. -/
def uniform (stream : WordStream) (n position : Nat) : Nat × Nat :=
  let product := stream.chunk n position * n
  let whole := product / chunkSize n
  let fraction := product % chunkSize n
  let second := position + chunkWords n
  if chunkSize n - n < fraction then
    let more := stream.chunk n second * n / chunkSize n
    (if chunkSize n ≤ fraction + more then whole + 1 else whole, second + chunkWords n)
  else (whole, second)

/-- There is at least one value of a chunk. -/
theorem chunkSize_pos (n : Nat) : 0 < chunkSize n := by
  unfold chunkSize wordSize
  split <;> decide

/-- A chunk is below the number of its values. -/
theorem chunk_lt (stream : WordStream) (n position : Nat) :
    stream.chunk n position < chunkSize n := by
  have h₁ : (stream position).toNat < wordSize := (stream position).toNat_lt
  have h₂ : (stream (position + 1)).toNat < wordSize := (stream (position + 1)).toNat_lt
  unfold chunkSize WordStream.chunk
  split
  · exact h₁
  · unfold wordSize at *
    omega

/-- The whole part of a product with two chunks, from the product with the first one. -/
theorem mul_div_eq_add (size first second n : Nat) (hsize : 0 < size) :
    (first * size + second) * n / (size * size) =
      first * n / size + (first * n % size + second * n / size) / size := by
  have hsplit : first * n + second * n / size =
      size * (first * n / size) + (first * n % size + second * n / size) := by
    have := Nat.div_add_mod (first * n) size
    omega
  rw [← Nat.div_div_eq_div_mul, Nat.add_mul, Nat.mul_right_comm, Nat.mul_comm (first * n) size,
    Nat.mul_add_div hsize, hsplit, Nat.mul_add_div hsize]

/-- A draw multiplies `n` with the fraction that two chunks spell and keeps the whole part.

**Proof sketch.** The second chunk adds less than `n` units to the first product, one unit being
the last place of the fraction. It changes the whole part by at most one, exactly if the fraction
overflows, and it cannot overflow unless there are fewer than `n` units to the next whole number. -/
theorem uniform_fst (stream : WordStream) (n position : Nat) (h : n ≤ chunkSize n) :
    (uniform stream n position).1 =
      (stream.chunk n position * chunkSize n + stream.chunk n (position + chunkWords n)) * n /
        (chunkSize n * chunkSize n) := by
  have hsecond := chunk_lt stream n (position + chunkWords n)
  have hpos := chunkSize_pos n
  rw [mul_div_eq_add _ _ _ _ hpos]
  generalize hw₀ : stream.chunk n position = w₀
  generalize hw₁ : stream.chunk n (position + chunkWords n) = w₁ at hsecond
  generalize hB : chunkSize n = B at *
  have hmod := Nat.mod_lt (w₀ * n) hpos
  have hmore : w₁ * n / B < n ∨ w₀ * n % B = 0 ∧ w₁ * n / B = 0 := by
    rcases Nat.eq_zero_or_pos n with rfl | hn
    · exact .inr ⟨by simp, by simp⟩
    · exact .inl (Nat.div_lt_of_lt_mul (Nat.mul_lt_mul_of_pos_right hsecond hn))
  simp only [uniform, hw₀, hw₁, hB]
  split
  · split
    · have : (w₀ * n % B + w₁ * n / B) / B = 1 := Nat.div_eq_of_lt_le (by omega) (by omega)
      omega
    · have : (w₀ * n % B + w₁ * n / B) / B = 0 := Nat.div_eq_of_lt (by omega)
      omega
  · have : (w₀ * n % B + w₁ * n / B) / B = 0 := Nat.div_eq_of_lt (by omega)
    omega

/-- A draw below `n` is below `n`. -/
theorem uniform_lt (stream : WordStream) {n : Nat} (position : Nat) (hn : 0 < n) :
    (uniform stream n position).1 < n := by
  have hfirst := chunk_lt stream n position
  have hsecond := chunk_lt stream n (position + chunkWords n)
  by_cases h : n ≤ chunkSize n
  · rw [uniform_fst stream n position h]
    apply Nat.div_lt_of_lt_mul
    apply Nat.mul_lt_mul_of_pos_right _ hn
    calc _ < stream.chunk n position * chunkSize n + chunkSize n :=
          Nat.add_lt_add_left hsecond _
      _ = (stream.chunk n position + 1) * chunkSize n := by rw [Nat.add_mul, Nat.one_mul]
      _ ≤ chunkSize n * chunkSize n := Nat.mul_le_mul_right _ hfirst
  · generalize hw₀ : stream.chunk n position = w₀ at hfirst
    generalize hB : chunkSize n = B at *
    have hwhole : w₀ * n / B < n := Nat.div_lt_of_lt_mul (Nat.mul_lt_mul_of_pos_right hfirst hn)
    have hroom : w₀ * n / B + 1 < n := by
      have hsplit : (w₀ + 1) * n ≤ B * n := Nat.mul_le_mul_right n hfirst
      have : w₀ * n < B * (n - 1) := by
        rw [Nat.add_mul, Nat.one_mul] at hsplit
        rw [Nat.mul_sub, Nat.mul_one]
        omega
      have := Nat.div_lt_of_lt_mul this
      omega
    simp only [uniform, hw₀, hB]
    split
    · split
      · exact hroom
      · exact hwhole
    · exact hwhole

end PatternSampler
