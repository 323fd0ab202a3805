import PatternSampler.Proofs.Reading.Parts
import PatternSampler.Proofs.Run.Local

set_option autoImplicit false

/-!
# Every choice can be made

A draw below `n` reaches each value below `n`, as long as `n` is not larger than the number of
values of a chunk. The trees of texts ask for no larger draws.

## Main definitions

* `WordStream.spelling` — the stream whose words spell a number in one chunk.
* `Pattern.Drawable` — the alternations and counts of a pattern can be drawn.

## Main results

* `exists_uniform_eq` — each value is drawn from some stream.
* `Pattern.drawable_ofSlice` — the tree of a slice can be drawn.
-/

namespace PatternSampler

/-! ## Draws -/

/-- The words of a number in the chunk at a position, and zeros elsewhere. -/
def WordStream.spelling (position chunk : Nat) : WordStream := fun i =>
  if i = position then UInt32.ofNat chunk
  else if i = position + 1 then UInt32.ofNat (chunk / wordSize)
  else 0

/-- The words of a number spell it in the chunk at their position. -/
lemma chunk_spelling {n chunk : Nat} (position : Nat) (h : chunk < chunkSize n) :
    (WordStream.spelling position chunk).chunk n position = chunk := by
  unfold chunkSize at h
  unfold WordStream.chunk WordStream.spelling
  have hnext : position + 1 ≠ position := Nat.succ_ne_self position
  split at h
  · rename_i hn
    simp only [if_pos hn, if_true, UInt32.toNat_ofNat']
    exact Nat.mod_eq_of_lt h
  · rename_i hn
    simp only [if_neg hn, if_true, if_neg hnext, UInt32.toNat_ofNat']
    show chunk % wordSize + wordSize * (chunk / wordSize % wordSize) = chunk
    rw [Nat.mod_eq_of_lt (Nat.div_lt_of_lt_mul h)]
    exact Nat.mod_add_div chunk wordSize

/-- The chunk behind them is zero. -/
lemma chunk_spelling_next {n chunk : Nat} (position : Nat) (h : chunk < chunkSize n) :
    (WordStream.spelling position chunk).chunk n (position + chunkWords n) = 0 := by
  unfold chunkSize at h
  unfold WordStream.chunk WordStream.spelling chunkWords
  split at h
  · rename_i hn
    have hfirst : position + 1 ≠ position := Nat.succ_ne_self position
    simp [hn, Nat.div_eq_of_lt h]
  · rename_i hn
    have hfirst : position + 2 + 1 ≠ position := by omega
    simp [hn, hfirst]

/-- Each value below `n` is drawn from some stream.

**Proof sketch.** The smallest chunk whose product with `n` is not below the value times the size
of a chunk stands less than `n` above it. With nothing in the second chunk, the whole part of the
product is the value. -/
theorem exists_uniform_eq {n value : Nat} (hn : n ≤ chunkSize n) (h : value < n)
    (position : Nat) : ∃ stream : WordStream, (uniform stream n position).1 = value := by
  have hpos := chunkSize_pos n
  obtain ⟨B, hB⟩ : ∃ B, chunkSize n = B := ⟨_, rfl⟩
  rw [hB] at hn hpos
  -- the value's own share of the chunks starts at `value * B / n`, rounded up
  let chunk := (value * B + (n - 1)) / n
  have hlow : value * B ≤ chunk * n := by
    have := Nat.lt_div_mul_add (a := value * B + (n - 1)) (b := n) (by omega)
    show value * B ≤ (value * B + (n - 1)) / n * n
    omega
  have hhigh : chunk * n ≤ value * B + (n - 1) := Nat.div_mul_le_self _ n
  have hshare : value * B + B ≤ n * B := by
    have := Nat.mul_le_mul_right B (Nat.succ_le_of_lt h)
    rwa [Nat.succ_mul] at this
  have hchunk : chunk < B := by
    by_contra hge
    have := Nat.mul_le_mul_right n (Nat.not_lt.1 hge)
    rw [Nat.mul_comm B n] at this
    omega
  refine ⟨.spelling position chunk, ?_⟩
  rw [uniform_fst _ n position (hB ▸ hn), chunk_spelling position (hB ▸ hchunk),
    chunk_spelling_next position (hB ▸ hchunk), hB, Nat.add_zero, Nat.mul_right_comm,
    Nat.mul_div_mul_right _ _ hpos]
  refine Nat.div_eq_of_lt_le hlow ?_
  rw [Nat.succ_mul]
  omega

/-- A machine number fits into a chunk. -/
lemma le_chunkSize {n : Nat} (h : n < sizeLimit) : n ≤ chunkSize n := by
  unfold sizeLimit at h
  unfold chunkSize wordSize
  split <;> omega

namespace Run

/-- Each choice can be made. -/
lemma can_choose {n : Nat} (hn : n < sizeLimit) (value : Fin n) {p : Progress}
    {Q : Fin n → Progress → Prop} (hpos : 0 < n)
    (h : ∀ position, Q value { p with position := position }) :
    Can (fun stream => choose stream n hpos) p Q := by
  obtain ⟨stream, hstream⟩ := exists_uniform_eq (le_chunkSize hn) value.isLt p.position
  refine ⟨stream, _, _, rfl, ?_⟩
  have hvalue : (⟨(uniform stream n p.position).1, uniform_lt stream p.position hpos⟩ : Fin n) =
      value := Fin.ext hstream
  rw [hvalue]
  exact h _

end Run

/-! ## Trees -/

mutual

/-- The alternations and counts of a pattern outside calls can be drawn. -/
def Pattern.Drawable : Pattern → Prop
  | .done | .stop _ => True
  | .seq head counts rest => head.Drawable ∧ (∀ count ∈ counts, count.Valid) ∧ rest.Drawable

/-- The alternations and counts in a construct outside calls can be drawn. -/
def Construct.Drawable : Construct → Prop
  | .group _ body => body.Drawable
  | .alternation _ branches => branches.length < sizeLimit ∧ branches.Drawable
  | _ => True

/-- The alternations and counts in branches outside calls can be drawn. -/
def Branches.Drawable : Branches → Prop
  | .one _ _ body => body.Drawable
  | .more _ _ body rest => body.Drawable ∧ rest.Drawable

end

/-! ## The tree of a slice -/

section Reading

variable {room : Nat}

/-- Branches can be drawn if their parts are short enough and can be drawn themselves. -/
lemma Branches.drawable_ofSlices
    (ih : ∀ (opened : Nat) (s : Slice), s.length ≤ room → (Pattern.ofSlice opened s).Drawable)
    (others : List Slice) (opened : Nat) (first : Slice)
    (hroom : ∀ part ∈ first :: others, part.length ≤ room) :
    (Branches.ofSlices opened first others).Drawable := by
  induction others generalizing opened first with
  | nil =>
    rw [Branches.ofSlices]
    exact ih opened first (hroom first (by simp))
  | cons second rest hrest =>
    rw [Branches.ofSlices]
    exact ⟨ih opened first (hroom first (by simp)),
      hrest _ second fun part hpart => hroom part (List.mem_cons_of_mem _ hpart)⟩

/-- A slice has no more parts than room. -/
lemma length_le_roomOf (parts : List Slice) : parts.length ≤ roomOf parts := by
  induction parts with
  | nil => exact Nat.le_refl _
  | cons part rest ih =>
    rw [roomOf_cons, List.length_cons]
    omega

/-- The constructs of a token can be drawn if its parts are short enough and can be drawn
themselves. -/
lemma Construct.drawable_ofToken
    (ih : ∀ (opened : Nat) (s : Slice), s.length ≤ room → (Pattern.ofSlice opened s).Drawable)
    (hlimit : room + 1 < sizeLimit) {opened : Nat} {span : Span} {t : Token} {c : Construct}
    (hroom : t.room ≤ room) (h : Construct.ofToken opened span t = .ok c) : c.Drawable := by
  cases t with
  | group body =>
    simp only [Construct.ofToken] at h
    split at h
    · cases h
    · cases h
      exact trivial
    · cases h
      exact ih _ body hroom
    · rename_i first second rest hparts
      cases h
      have hlength := length_le_roomOf (first :: second :: rest)
      rw [roomOf_splitParts hparts] at hlength
      refine ⟨?_, Branches.drawable_ofSlices ih _ _ _ fun part hpart =>
        Nat.le_trans (length_le_of_mem_splitParts hparts hpart) hroom⟩
      rw [Branches.length_ofSlices]
      simp only [Token.room, List.length_cons] at hroom hlength ⊢
      omega
  | character | oneOf | reference =>
    simp only [Construct.ofToken] at h
    cases h
    exact trivial
  | repetition =>
    simp only [Construct.ofToken] at h
    cases h
  | call f arguments =>
    -- nothing is asked of a call, whatever it consists of
    have hcall := Construct.isCall_ofToken h
    cases c with
    | group | alternation => cases hcall
    | _ => exact trivial

end Reading

/-- The tree of a slice can be drawn, since an alternation has fewer branches than the slice has
characters.

**Proof sketch.** By strong induction on the length of the slice, as for its numbers. -/
theorem Pattern.drawable_ofSlice (opened : Nat) (s : Slice) (hlimit : s.length < sizeLimit) :
    (Pattern.ofSlice opened s).Drawable := by
  induction hn : s.length using Nat.strong_induction_on generalizing opened s with
  | _ n ih =>
    rw [Pattern.ofSlice]
    split
    · exact trivial
    · exact trivial
    · rename_i t rest hnext
      obtain ⟨hroom, hrest⟩ := Token.room_next hnext
      split
      · exact trivial
      · rename_i c hc
        have hshort : ∀ (opened : Nat) (s' : Slice), s'.length ≤ t.room →
            (Pattern.ofSlice opened s').Drawable := fun opened' s' hs' =>
          ih s'.length (by omega) opened' s' (by omega) rfl
        refine ⟨Construct.drawable_ofToken hshort (by omega) (Nat.le_refl _) hc,
          valid_readCounts 1 rest, ?_⟩
        have hlength := length_readCounts_le 1 rest
        split
        · exact trivial
        · exact ih _ (by omega) _ (readCounts 1 rest).rest (by omega) rfl

end PatternSampler
