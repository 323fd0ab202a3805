import Mathlib
import PatternSampler.Text.Numeral

set_option autoImplicit false

/-!
# Decimal numerals

What is written in decimal reads back as the number that was written, with or without zeros in front
of it, so that different numbers are written differently.

## Main definitions

* `IsNumeral` — the numeral of a number, which has no zeros in front.

## Main results

* `decimal?_append` — the value of two numerals one behind the other.
* `decimal?_zeroPaddedNat` — a number that is filled up with zeros reads as the number.
* `isNumeral_iff` — a number has just one numeral.
* `zeroPadded_injective` — different integers are written differently, whatever their signs.

## Implementation notes

Digits are taken off at the end of a numeral, where the last one is the remainder of the number by
ten. The zeros in front are a numeral of their own, of the value zero.
-/

namespace PatternSampler

/-! ## Digits -/

/-- A decimal digit is written by one character only. -/
lemma eq_digitChar_of_decimalDigit? {c : Char} {digit : Nat} (h : decimalDigit? c = some digit) :
    digit < 10 ∧ c = Nat.digitChar digit := by
  unfold decimalDigit? at h
  split at h
  · rename_i hc
    have hlow : 48 ≤ c.toNat := hc.1
    have hhigh : c.toNat ≤ 57 := hc.2
    obtain rfl := Option.some.inj h
    refine ⟨by omega, Char.toNat_inj.1 ?_⟩
    rw [Nat.toNat_digitChar_of_lt_ten (by omega)]
    omega
  · simp at h

/-- The digits of two rows one behind the other. -/
lemma ofDigits_append (base : Nat) (high low : List Nat) :
    ofDigits base (high ++ low) = ofDigits base high * base ^ low.length + ofDigits base low := by
  induction low using List.reverseRecOn with
  | nil => simp [ofDigits]
  | append_singleton low digit ih =>
    have hconcat (digits : List Nat) :
        ofDigits base (digits ++ [digit]) = ofDigits base digits * base + digit := by
      simp [ofDigits]
    rw [← List.append_assoc, hconcat, hconcat, ih, List.length_append, List.length_singleton,
      pow_succ]
    ring

/-! ## Reading -/

/-- A text of digits is one whose characters all are digits, and not empty. -/
lemma digits?_eq_some_iff {digit? : Char → Option Nat} {text : List Char} {digits : List Nat} :
    digits? digit? text = some digits ↔ text ≠ [] ∧ text.mapM digit? = some digits := by
  rw [digits?]
  cases text <;> simp

/-- A decimal numeral is a row of decimal digits, and not empty. -/
lemma decimal?_eq_some_iff {text : List Char} {n : Nat} :
    decimal? text = some n ↔
      text ≠ [] ∧ ∃ digits, text.mapM decimalDigit? = some digits ∧ ofDigits 10 digits = n := by
  rw [decimal?, Option.map_eq_some_iff]
  simp only [digits?_eq_some_iff, and_assoc, exists_and_left]

/-- The values of a row of characters belong to the characters one by one. -/
lemma mapM_eq_some_iff {digit? : Char → Option Nat} {text : List Char} {digits : List Nat} :
    text.mapM digit? = some digits ↔
      List.Forall₂ (fun c digit => digit? c = some digit) text digits := by
  induction text generalizing digits with
  | nil =>
    rw [List.forall₂_nil_left_iff, List.mapM_nil]
    exact Option.some_inj.trans eq_comm
  | cons c text ih =>
    rw [List.mapM_cons, List.forall₂_cons_left_iff]
    constructor
    · intro h
      obtain ⟨digit, hdigit, h⟩ := Option.bind_eq_some_iff.1 h
      obtain ⟨later, hlater, h⟩ := Option.bind_eq_some_iff.1 h
      exact ⟨digit, later, hdigit, ih.1 hlater, (Option.some.inj h).symm⟩
    · rintro ⟨digit, later, hdigit, hlater, rfl⟩
      rw [hdigit, ih.2 hlater]
      rfl

/-- The value of two numerals one behind the other. -/
theorem decimal?_append {front back : List Char} {high low : Nat}
    (hfront : decimal? front = some high) (hback : decimal? back = some low) :
    decimal? (front ++ back) = some (high * 10 ^ back.length + low) := by
  obtain ⟨hne, highDigits, hhigh, rfl⟩ := decimal?_eq_some_iff.1 hfront
  obtain ⟨-, lowDigits, hlow, rfl⟩ := decimal?_eq_some_iff.1 hback
  refine decimal?_eq_some_iff.2 ⟨by simp [hne], highDigits ++ lowDigits, ?_, ?_⟩
  · rw [List.mapM_append, hhigh, hlow]
    rfl
  · rw [ofDigits_append, (mapM_eq_some_iff.1 hlow).length_eq]

/-- A single digit is a numeral. -/
lemma decimal?_digit {digit : Nat} (h : digit < 10) :
    decimal? [Nat.digitChar digit] = some digit := by
  interval_cases digit <;> decide

/-- A number in decimal reads as the number. -/
lemma decimal?_repr (n : Nat) : decimal? n.repr.toList = some n := by
  rw [Nat.toList_repr]
  induction n using Nat.strongRecOn with
  | ind n ih =>
    rw [Nat.toDigits_eq_if (by decide)]
    split
    · rename_i hlt
      exact decimal?_digit hlt
    · rename_i hge
      rw [decimal?_append (ih (n / 10) (by omega)) (decimal?_digit (Nat.mod_lt n (by decide)))]
      simp only [List.length_singleton, pow_one]
      congr 1
      omega

/-- Zeros alone are a numeral of zero. -/
lemma decimal?_zeros {count : Nat} (h : 0 < count) :
    decimal? (List.replicate count '0') = some 0 := by
  induction count, h using Nat.le_induction with
  | base => decide
  | succ count _ ih =>
    rw [List.replicate_succ', decimal?_append ih (show decimal? ['0'] = some 0 by decide)]
    simp

/-- A number that is filled up with zeros reads as the number. -/
theorem decimal?_zeroPaddedNat (width n : Nat) :
    decimal? (zeroPaddedNat width n).toList = some n := by
  rw [zeroPaddedNat, String.toList_ofList]
  rcases Nat.eq_zero_or_pos (width - n.repr.toList.length) with hzero | hpos
  · rw [hzero, List.replicate_zero, List.nil_append, decimal?_repr]
  · rw [decimal?_append (decimal?_zeros hpos) (decimal?_repr n)]
    simp

/-! ## Numerals without zeros in front -/

/-- The numeral of a number. A zero is its first digit only if it is the only one. -/
structure IsNumeral (text : String) (n : Nat) : Prop where
  value : decimal? text.toList = some n
  noLeadingZero : text.toList.head? = some '0' → text = "0"

/-- The numeral of a positive number does not start with a zero. -/
lemma head?_repr_ne {n : Nat} (h : 0 < n) : n.repr.toList.head? ≠ some '0' := by
  rw [Nat.toList_repr]
  induction n using Nat.strongRecOn with
  | ind n ih =>
    rw [Nat.toDigits_eq_if (by decide)]
    split
    · rename_i hlt
      interval_cases n <;> decide
    · rename_i hge
      rw [List.head?_append_of_ne_nil _ Nat.toDigits_ne_nil]
      exact ih (n / 10) (by omega) (by omega)

/-- The last character of a numeral and what is in front of it. -/
lemma decimal?_concat_eq_some {front : List Char} {c : Char} {n : Nat}
    (h : decimal? (front ++ [c]) = some n) :
    c = Nat.digitChar (n % 10) ∧ (front = [] ∧ n < 10 ∨ decimal? front = some (n / 10)) := by
  obtain ⟨-, digits, hdigits, -⟩ := decimal?_eq_some_iff.1 h
  rw [List.mapM_append] at hdigits
  obtain ⟨high, hhigh, hdigits⟩ := Option.bind_eq_some_iff.1 hdigits
  obtain ⟨low, hlow, -⟩ := Option.bind_eq_some_iff.1 hdigits
  obtain ⟨digit, _, hdigit, -, rfl⟩ := List.forall₂_cons_left_iff.1 (mapM_eq_some_iff.1 hlow)
  obtain ⟨hlt, rfl⟩ := eq_digitChar_of_decimalDigit? hdigit
  by_cases hfront : front = []
  · subst hfront
    rw [List.nil_append, decimal?_digit hlt] at h
    obtain rfl := Option.some.inj h
    exact ⟨by rw [Nat.mod_eq_of_lt hlt], .inl ⟨rfl, hlt⟩⟩
  · have hvalue : decimal? front = some (ofDigits 10 high) :=
      decimal?_eq_some_iff.2 ⟨hfront, high, hhigh, rfl⟩
    rw [decimal?_append hvalue (decimal?_digit hlt), List.length_singleton, pow_one] at h
    have hn := Option.some.inj h
    refine ⟨by rw [show n % 10 = digit by omega], .inr ?_⟩
    rw [hvalue, show n / 10 = ofDigits 10 high by omega]

/-- The digits of a numeral without zeros in front are those of its number.

**Proof sketch.** By induction from the right. The last character is the digit of the remainder by
ten. What is in front of it is empty or the numeral of the quotient, which is not zero, because
nothing follows a zero in front. -/
lemma eq_toDigits_of_decimal? {chars : List Char} {n : Nat} (hvalue : decimal? chars = some n)
    (hzero : chars.head? = some '0' → chars = ['0']) : chars = Nat.toDigits 10 n := by
  induction chars using List.reverseRecOn generalizing n with
  | nil => exact absurd rfl (decimal?_eq_some_iff.1 hvalue).1
  | append_singleton front c ih =>
    obtain ⟨rfl, ⟨rfl, hlt⟩ | hfront⟩ := decimal?_concat_eq_some hvalue
    · rw [Nat.toDigits_of_lt_base hlt, Nat.mod_eq_of_lt hlt, List.nil_append]
    · have hne := (decimal?_eq_some_iff.1 hfront).1
      have hhead : front.head? ≠ some '0' := fun hhead => by
        have hlength := congrArg List.length
          (hzero ((List.head?_append_of_ne_nil front hne).trans hhead))
        rw [List.length_append, List.length_singleton, List.length_singleton] at hlength
        exact hne (List.eq_nil_of_length_eq_zero (by omega))
      have hquotient := ih hfront fun hhead' => absurd hhead' hhead
      have hpos : n / 10 ≠ 0 := fun hnone => by
        rw [hquotient, hnone] at hhead
        exact hhead rfl
      rw [Nat.toDigits_eq_if (by decide), if_neg (by omega), ← hquotient]

/-- A number has just one numeral. -/
theorem isNumeral_iff {text : String} {n : Nat} : IsNumeral text n ↔ text = n.repr := by
  constructor
  · intro h
    rw [← String.toList_inj, Nat.toList_repr]
    refine eq_toDigits_of_decimal? h.value fun hhead => ?_
    rw [h.noLeadingZero hhead]
    rfl
  · rintro rfl
    refine ⟨decimal?_repr n, fun hhead => ?_⟩
    rcases Nat.eq_zero_or_pos n with rfl | hpos
    · rfl
    · exact absurd hhead (head?_repr_ne hpos)

/-! ## Widths -/

/-- A number with no more digits than the width is written exactly so wide. -/
lemma length_zeroPaddedNat {width n : Nat} (hwidth : 0 < width) (h : n < 10 ^ width) :
    (zeroPaddedNat width n).toList.length = width := by
  have hle : n.repr.toList.length ≤ width := by
    rw [Nat.toList_repr]
    exact (Nat.length_toDigits_le_iff (by decide) hwidth).2 h
  rw [zeroPaddedNat, String.toList_ofList, List.length_append, List.length_replicate]
  omega

/-- Padded numerals of different numbers differ. -/
lemma zeroPaddedNat_injective (width : Nat) : Function.Injective (zeroPaddedNat width) := by
  intro m n h
  have hm := decimal?_zeroPaddedNat width m
  rw [h, decimal?_zeroPaddedNat] at hm
  exact (Option.some.inj hm).symm

/-- Different integers are written differently, whatever their signs. -/
theorem zeroPadded_injective (width : Nat) : Function.Injective (zeroPadded width) := by
  have hsign (width n : Nat) (text : String) : zeroPaddedNat width n ≠ "-" ++ text := fun h => by
    have hvalue : decimal? ('-' :: text.toList) = some n := by
      rw [← decimal?_zeroPaddedNat width n, h, String.toList_append]
      rfl
    obtain ⟨-, digits, hdigits, -⟩ := decimal?_eq_some_iff.1 hvalue
    obtain ⟨digit, _, hdigit, -⟩ := List.forall₂_cons_left_iff.1 (mapM_eq_some_iff.1 hdigits)
    simp [decimalDigit?] at hdigit
  rintro (m | m) (n | n) h
  · rw [zeroPaddedNat_injective width h]
  · exact absurd h (hsign width m _)
  · exact absurd h.symm (hsign width n _)
  · have hpadded : zeroPaddedNat (width - 1) (m + 1) = zeroPaddedNat (width - 1) (n + 1) :=
      String.append_right_inj "-" |>.1 h
    rw [Nat.succ.inj (zeroPaddedNat_injective _ hpadded)]

end PatternSampler
