set_option autoImplicit false

/-!
# Numbering of characters

Characters are numbered without the gap that the surrogates leave among the code points. In this
numbering a range of characters is a range of numbers.

## Main definitions

* `rank` — the number of a character.
* `ofRank` — the character of a number.

## Main results

* `ofRank_rank`, `rank_ofRank` — the two are inverse to each other.
* `rank_lt_rank_iff` — the numbering keeps the order.
-/

namespace PatternSampler

/-- The number of characters. -/
def scalarCount : Nat := 0x10f800

/-- The number of a character among all characters. -/
def rank (c : Char) : Nat := if c.toNat < 0xd800 then c.toNat else c.toNat - 0x800

/-- The character of a number. -/
def ofRank (n : Nat) : Char := if n < 0xd800 then Char.ofNat n else Char.ofNat (n + 0x800)

/-- The character of a valid code point has this code point. -/
theorem toNat_ofNat {n : Nat} (h : n.isValidChar) : (Char.ofNat n).toNat = n := by
  rw [Char.ofNat, dif_pos h]
  rfl

/-- Code points of characters lie below or above the surrogates. -/
theorem toNat_cases (c : Char) : c.toNat < 0xd800 ∨ (0xdfff < c.toNat ∧ c.toNat < 0x110000) :=
  c.valid

/-- Each character has a number below the number of characters. -/
theorem rank_lt (c : Char) : rank c < scalarCount := by
  have := toNat_cases c
  unfold rank scalarCount
  split <;> omega

/-- A character is the one with its number. -/
@[simp] theorem ofRank_rank (c : Char) : ofRank (rank c) = c := by
  have hc := toNat_cases c
  unfold rank
  split
  · rename_i h
    rw [ofRank, if_pos h, Char.ofNat_toNat]
  · rename_i h
    rw [ofRank, if_neg (by omega), show c.toNat - 0x800 + 0x800 = c.toNat by omega,
      Char.ofNat_toNat]

/-- Each number of a character is the number of the character that has it. -/
theorem rank_ofRank {n : Nat} (h : n < scalarCount) : rank (ofRank n) = n := by
  unfold scalarCount at h
  unfold ofRank
  split
  · rename_i hn
    rw [rank, toNat_ofNat (.inl hn), if_pos hn]
  · rename_i hn
    rw [rank, toNat_ofNat (.inr ⟨by omega, by omega⟩), if_neg (by omega)]
    omega

/-- Characters with larger code points have larger numbers. -/
theorem rank_lt_rank_iff {c d : Char} : rank c < rank d ↔ c.toNat < d.toNat := by
  have hc := toNat_cases c
  have hd := toNat_cases d
  unfold rank
  split <;> split <;> omega

end PatternSampler
