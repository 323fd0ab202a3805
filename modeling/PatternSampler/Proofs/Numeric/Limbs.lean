import Mathlib
import PatternSampler.Proofs.Numeric.Numerals
import PatternSampler.Transform

set_option autoImplicit false

/-!
# Hexadecimal texts in decimal

A hexadecimal text of any length is turned into the decimal numeral of its number, by limbs that
never leave the range of 64 bits.

## Main definitions

* `Limbs.value` — the number of a row of limbs.
* `Limbs.Canonical` — limbs below the base, without zeros above the most significant one.

## Main results

* `Limbs.value_push`, `Limbs.Canonical.push` — what one more digit does to the limbs.
* `Limbs.isNumeral_render` — the limbs in decimal are the numeral of their number.
* `decimal_apply_exact` — the transform on all texts.

## Implementation notes

A digit is below sixteen, and so is what a pass carries from one limb to the next, since a sum stays
below sixteen times the base. This is why a pass adds at most one limb.
-/

namespace PatternSampler

namespace Limbs

/-! ## One pass over the limbs -/

/-- The number of a row of limbs. -/
def value (limbs : List Nat) : Nat := Nat.ofDigits limbSize limbs

/-- One more limb below others. -/
lemma value_cons (limb : Nat) (higher : List Nat) :
    value (limb :: higher) = limb + limbSize * value higher :=
  Nat.ofDigits_cons

/-- Adding up keeps the number of limbs. -/
lemma length_sums (carry : Nat) (limbs : List Nat) : (sums carry limbs).length = limbs.length := by
  induction limbs generalizing carry with
  | nil => rfl
  | cons limb higher ih => rw [sums, List.length_cons, ih, List.length_cons]

/-- The sums up to the last limb and the sum at it. -/
lemma sums_concat (carry : Nat) (lower : List Nat) (top : Nat) :
    sums carry (lower ++ [top]) = sums carry lower ++ [top * 16 + carryOut carry lower] := by
  induction lower generalizing carry with
  | nil => rfl
  | cons limb lower ih => simp only [List.cons_append, sums, carryOut, ih]

/-- The carry out of a row comes from its most significant limb. -/
lemma carryOut_concat (carry : Nat) (lower : List Nat) (top : Nat) :
    carryOut carry (lower ++ [top]) = (top * 16 + carryOut carry lower) / limbSize := by
  induction lower generalizing carry with
  | nil => rfl
  | cons limb lower ih => simp only [List.cons_append, carryOut, ih]

/-- The remainders of the sums and the carry in front of them are sixteen times the number and the
carry behind it. -/
lemma value_remainders (carry : Nat) (limbs : List Nat) :
    value ((sums carry limbs).map (· % limbSize)) +
        limbSize ^ limbs.length * carryOut carry limbs =
      value limbs * 16 + carry := by
  induction limbs generalizing carry with
  | nil => simp [sums, carryOut, value]
  | cons limb higher ih =>
    have hsum := Nat.mod_add_div (limb * 16 + carry) limbSize
    have hhigher := ih ((limb * 16 + carry) / limbSize)
    simp only [sums, carryOut, List.map_cons, value_cons, List.length_cons]
    calc (limb * 16 + carry) % limbSize +
            limbSize * value ((sums ((limb * 16 + carry) / limbSize) higher).map (· % limbSize)) +
          limbSize ^ (higher.length + 1) * carryOut ((limb * 16 + carry) / limbSize) higher
        = (limb * 16 + carry) % limbSize +
            limbSize * (value higher * 16 + (limb * 16 + carry) / limbSize) := by
          rw [← hhigher]
          ring
      _ = (limb * 16 + carry) % limbSize + limbSize * ((limb * 16 + carry) / limbSize) +
            limbSize * value higher * 16 := by ring
      _ = (limb + limbSize * value higher) * 16 + carry := by
          rw [hsum]
          ring

/-- One more digit behind the number. -/
theorem value_push (digit : Nat) (limbs : List Nat) :
    value (push digit limbs) = value limbs * 16 + digit := by
  rw [← value_remainders, push]
  split
  · rw [value, Nat.ofDigits_append, List.length_map, length_sums, Nat.ofDigits_singleton]
    rfl
  · rename_i hcarry
    rw [List.append_nil, Nat.eq_zero_of_not_pos hcarry, Nat.mul_zero, Nat.add_zero]

/-- A carry below sixteen stays below sixteen, and no sum reaches sixteen times the base. -/
lemma sums_lt {carry : Nat} {limbs : List Nat} (hcarry : carry < 16)
    (hlimbs : ∀ limb ∈ limbs, limb < limbSize) :
    (∀ sum ∈ sums carry limbs, sum < 16 * limbSize) ∧ carryOut carry limbs < 16 := by
  induction limbs generalizing carry with
  | nil => exact ⟨by simp [sums], hcarry⟩
  | cons limb higher ih =>
    obtain ⟨hlimb, hhigher⟩ := List.forall_mem_cons.1 hlimbs
    have hsum : limb * 16 + carry < 16 * limbSize := by omega
    have hnext : (limb * 16 + carry) / limbSize < 16 :=
      Nat.div_lt_of_lt_mul (by rwa [Nat.mul_comm limbSize])
    obtain ⟨hsums, hout⟩ := ih hnext hhigher
    exact ⟨List.forall_mem_cons.2 ⟨hsum, hsums⟩, hout⟩

/-! ## Canonical limbs -/

/-- Limbs below the base. The most significant one is zero only if it is the only one. -/
structure Canonical (limbs : List Nat) : Prop where
  ne_nil : limbs ≠ []
  lt : ∀ limb ∈ limbs, limb < limbSize
  top : limbs.getLast? = some 0 → limbs = [0]

/-- The row of a zero is canonical. -/
lemma canonical_zero : Canonical [0] := ⟨by decide, by decide, fun _ => rfl⟩

/-- If the sum at the last limb is zero, there is no other limb. -/
lemma Canonical.lower_eq_nil {lower : List Nat} {top carry : Nat} (h : Canonical (lower ++ [top]))
    (hsum : top * 16 + carry = 0) : lower = [] := by
  obtain rfl : top = 0 := by omega
  simpa using h.top List.getLast?_concat

/-- A digit behind the number keeps the limbs canonical.

**Proof sketch.** A carry out of the last limb is not zero and is below sixteen. Without such a
carry the last sum is below the base and is the last limb itself. It is at least sixteen times the
limb that it comes from, so it is zero only if this was zero, and then there is no other limb. -/
theorem Canonical.push {limbs : List Nat} (h : Canonical limbs) {digit : Nat}
    (hdigit : digit < 16) : Canonical (Limbs.push digit limbs) := by
  obtain ⟨lower, top, rfl⟩ := List.eq_nil_or_concat' limbs |>.resolve_left h.ne_nil
  have hout := (sums_lt hdigit h.lt).2
  have hpos : 0 < limbSize := by decide
  have hrest : ∀ limb ∈ (sums digit (lower ++ [top])).map (· % limbSize), limb < limbSize := by
    intro limb hlimb
    obtain ⟨sum, -, rfl⟩ := List.mem_map.1 hlimb
    exact Nat.mod_lt sum hpos
  rw [Limbs.push]
  split
  · rename_i hcarry
    refine ⟨by simp, ?_, fun hlast => ?_⟩
    · intro limb hlimb
      rcases List.mem_append.1 hlimb with hlimb | hlimb
      · exact hrest limb hlimb
      · rw [List.mem_singleton.1 hlimb]
        exact hout.trans (by decide)
    · rw [List.getLast?_concat] at hlast
      exact absurd (Option.some.inj hlast) hcarry.ne'
  · rename_i hcarry
    rw [List.append_nil]
    rw [sums_concat, List.map_append] at hrest ⊢
    refine ⟨by simp, hrest, fun hlast => ?_⟩
    rw [List.map_singleton, List.getLast?_concat] at hlast
    rw [carryOut_concat] at hcarry
    have hsum : top * 16 + carryOut digit lower = 0 := by
      have hdiv := Nat.mod_add_div (top * 16 + carryOut digit lower) limbSize
      rw [Option.some.inj hlast, Nat.eq_zero_of_not_pos hcarry] at hdiv
      exact hdiv.symm
    obtain rfl := h.lower_eq_nil hsum
    rw [hsum]
    rfl

/-! ## Writing limbs -/

/-- A limb has nine decimal digits. -/
lemma limbSize_eq : limbSize = 10 ^ 9 := by norm_num [limbSize]

/-- The limbs below the most significant one fill nine digits each. -/
lemma decimal?_limbs {lower : List Nat} (hlower : ∀ limb ∈ lower, limb < limbSize) (top : Nat) :
    decimal? (top.repr ++ String.join (lower.reverse.map (zeroPaddedNat 9))).toList =
      some (value (lower ++ [top])) := by
  induction lower with
  | nil => simpa [value] using decimal?_repr top
  | cons limb lower ih =>
    obtain ⟨hlimb, hrest⟩ := List.forall_mem_cons.1 hlower
    have hlength : (zeroPaddedNat 9 limb).toList.length = 9 :=
      length_zeroPaddedNat (by decide) (limbSize_eq ▸ hlimb)
    have hjoin : String.join ((limb :: lower).reverse.map (zeroPaddedNat 9)) =
        String.join (lower.reverse.map (zeroPaddedNat 9)) ++ zeroPaddedNat 9 limb := by
      simp [String.join_append, String.join_cons]
    rw [hjoin, ← String.append_assoc, String.toList_append,
      decimal?_append (ih hrest) (decimal?_zeroPaddedNat 9 limb), hlength, List.cons_append,
      value_cons, limbSize_eq, Nat.mul_comm, Nat.add_comm]

/-- The limbs in decimal are the numeral of their number. -/
theorem isNumeral_render {limbs : List Nat} (h : Canonical limbs) :
    IsNumeral (render limbs) (value limbs) := by
  obtain ⟨lower, top, rfl⟩ := List.eq_nil_or_concat' limbs |>.resolve_left h.ne_nil
  have hrender : render (lower ++ [top]) =
      top.repr ++ String.join (lower.reverse.map (zeroPaddedNat 9)) := by
    rw [render, List.reverse_append, List.reverse_singleton, List.singleton_append]
  have hlower : ∀ limb ∈ lower, limb < limbSize := fun limb hlimb =>
    h.lt limb (List.mem_append_left _ hlimb)
  refine ⟨by rw [hrender, decimal?_limbs hlower], fun hhead => ?_⟩
  have htop : top = 0 := by
    by_contra hne
    rw [hrender, String.toList_append, List.head?_append_of_ne_nil] at hhead
    · exact head?_repr_ne (Nat.pos_of_ne_zero hne) hhead
    · exact (decimal?_eq_some_iff.1 (decimal?_repr top)).1
  subst htop
  rw [h.top List.getLast?_concat]
  rfl

end Limbs

/-! ## Reading digits -/

namespace Hex

/-- A character is accepted exactly if it is a hexadecimal digit. -/
lemma digitAt_eq_ok {position digit : Nat} {c : Char} :
    digitAt position c = .ok digit ↔ hexDigit? c = some digit := by
  unfold digitAt
  split <;> simp_all

/-- A hexadecimal digit is below 16. -/
lemma digit_lt {c : Char} {digit : Nat} (h : hexDigit? c = some digit) : digit < 16 := by
  unfold hexDigit? at h
  split_ifs at h with hdecimal hlower hupper
  · have hhigh : c.toNat ≤ 57 := hdecimal.2
    obtain rfl := Option.some.inj h
    omega
  · have hhigh : c.toNat ≤ 102 := hlower.2
    obtain rfl := Option.some.inj h
    omega
  · have hhigh : c.toNat ≤ 70 := hupper.2
    obtain rfl := Option.some.inj h
    omega

/-- Digits behind a number, one after the other. -/
lemma limbsFrom_of_digits {digits : List Nat} {chars : List Char} (limbs : List Nat)
    (position : Nat)
    (h : List.Forall₂ (fun c digit => hexDigit? c = some digit) chars digits) :
    ∃ limbs', limbsFrom limbs position chars = .ok limbs' ∧
      Limbs.value limbs' =
        digits.foldl (fun value digit => value * 16 + digit) (Limbs.value limbs) := by
  induction h generalizing limbs position with
  | nil => exact ⟨limbs, rfl, rfl⟩
  | @cons c digit chars digits hdigit _ ih =>
    obtain ⟨limbs', hrun, hvalue⟩ := ih (Limbs.push digit limbs) (position + 1)
    refine ⟨limbs', ?_, ?_⟩
    · rw [limbsFrom, digitAt_eq_ok.2 hdigit]
      exact hrun
    · rw [hvalue, Limbs.value_push, List.foldl_cons]

/-- The first character that is no digit is reported with its place. -/
lemma limbsFrom_eq_error {front : List Char} (hfront : ∀ d ∈ front, (hexDigit? d).isSome) {c : Char}
    (hc : hexDigit? c = none) (limbs : List Nat) (position : Nat) (back : List Char) :
    limbsFrom limbs position (front ++ c :: back) =
      .error (.invalidCharacter c (position + front.length)) := by
  induction front generalizing limbs position with
  | nil =>
    rw [List.nil_append, limbsFrom, digitAt, hc]
    rfl
  | cons d front ih =>
    obtain ⟨hd, hrest⟩ := List.forall_mem_cons.1 hfront
    obtain ⟨digit, hdigit⟩ := Option.isSome_iff_exists.1 hd
    rw [List.cons_append, limbsFrom, digitAt_eq_ok.2 hdigit]
    refine (ih hrest (Limbs.push digit limbs) (position + 1)).trans ?_
    rw [List.length_cons, Nat.add_right_comm, Nat.add_assoc]

/-- Whatever has been read, the limbs are canonical. -/
lemma canonical_of_limbsFrom {limbs limbs' : List Nat} {chars : List Char} {position : Nat}
    (hlimbs : Limbs.Canonical limbs) (h : limbsFrom limbs position chars = .ok limbs') :
    Limbs.Canonical limbs' := by
  induction chars generalizing limbs position with
  | nil =>
    obtain rfl := Except.ok.inj h
    exact hlimbs
  | cons c chars ih =>
    rw [limbsFrom] at h
    cases hdigit : digitAt position c with
    | error e =>
      rw [hdigit] at h
      cases h
    | ok digit =>
      rw [hdigit] at h
      exact ih (hlimbs.push (digit_lt (digitAt_eq_ok.1 hdigit))) h

end Hex

/-! ## The transform -/

/-- **Hexadecimal texts in decimal.** A text without characters is a mistake. A text of hexadecimal
digits in either case, of any length, becomes the numeral of their number. Any other text is
reported by its first character that is no digit, with the number of characters in front of it. No
sum comes up that would not fit into 64 bits, and neither do the products that it is made of nor the
remainder and the carry that it is split into.

**Proof sketch.** The limbs start as a zero, which is canonical, and each digit keeps them canonical
and acts on their number as it acts on the digits in front of it. Canonical limbs in decimal are a
numeral. A sum is below sixteen times the base. -/
theorem decimal_apply_exact (text : String) :
    (text = "" → Transform.decimal.apply text = .error .emptyHex) ∧
    (∀ digits, digits? hexDigit? text.toList = some digits → ∃ numeral,
      Transform.decimal.apply text = .ok numeral ∧ IsNumeral numeral (ofDigits 16 digits)) ∧
    (∀ front c back, text.toList = front ++ c :: back → (∀ d ∈ front, (hexDigit? d).isSome) →
      hexDigit? c = none →
      Transform.decimal.apply text = .error (.hex (.invalidCharacter c front.length))) ∧
    (∀ front c back limbs digit, text.toList = front ++ c :: back →
      Hex.limbsFrom [0] 0 front = .ok limbs → hexDigit? c = some digit →
      ∀ sum ∈ Limbs.sums digit limbs, sum < 2 ^ 64) := by
  have happly (hne : text.toList ≠ []) :
      Transform.decimal.apply text = (Hex.decimal text).mapError .hex := by
    refine if_neg fun hempty => hne ?_
    rw [String.isEmpty_iff.1 hempty, String.toList_empty]
  refine ⟨?_, ?_, ?_, ?_⟩
  · rintro rfl
    rfl
  · intro digits hdigits
    obtain ⟨hne, hdigits⟩ := digits?_eq_some_iff.1 hdigits
    obtain ⟨limbs, hrun, hvalue⟩ :=
      Hex.limbsFrom_of_digits [0] 0 (mapM_eq_some_iff.1 hdigits)
    refine ⟨Limbs.render limbs, ?_, ?_⟩
    · rw [happly hne, Hex.decimal, hrun]
      rfl
    · rw [ofDigits, ← show Limbs.value [0] = 0 from rfl, ← hvalue]
      exact Limbs.isNumeral_render (Hex.canonical_of_limbsFrom Limbs.canonical_zero hrun)
  · intro front c back htext hfront hc
    rw [happly (by simp [htext]), Hex.decimal, htext, Hex.limbsFrom_eq_error hfront hc,
      Nat.zero_add]
    rfl
  · intro front c back limbs digit _ hrun hdigit sum hsum
    have hcanonical := Hex.canonical_of_limbsFrom Limbs.canonical_zero hrun
    have hlt := (Limbs.sums_lt (Hex.digit_lt hdigit) hcanonical.lt).1 sum hsum
    exact hlt.trans (by decide)

/-- Eight digits in both cases, and a carry into a second limb. -/
theorem decimal_apply_exact_two_limbs :
    digits? hexDigit? "3B9aCA00".toList = some [3, 11, 9, 10, 12, 10, 0, 0] ∧
      Transform.decimal.apply "3B9aCA00" = .ok "1000000000" := by
  have hdigits : digits? hexDigit? "3B9aCA00".toList = some [3, 11, 9, 10, 12, 10, 0, 0] := by
    decide
  obtain ⟨numeral, happly, hnumeral⟩ := (decimal_apply_exact "3B9aCA00").2.1 _ hdigits
  refine ⟨hdigits, ?_⟩
  rw [happly, isNumeral_iff.1 hnumeral]
  rfl

end PatternSampler
