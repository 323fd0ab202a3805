import Mathlib
import PatternSampler.Encoding.Hex

set_option autoImplicit false

/-!
# Hexadecimal text and its bytes

What is written in hexadecimal digits, of either case, reads back as the bytes that were written.

## Main results

* `utf8Bytes_ofList` — the bytes of a text, character by character.
* `Hex.decode_encode` — the bytes of the digits of a row of bytes.

## Implementation notes

Reading works on the bytes of the digits. Digits are ASCII characters, whose one byte is their code.
-/

namespace PatternSampler

/-! ## Bytes of texts -/

/-- The bytes of a text are those of its characters. -/
lemma utf8Bytes_ofList (text : List Char) :
    utf8Bytes (String.ofList text) = text.flatMap String.utf8EncodeChar := by
  simp [utf8Bytes, String.toUTF8, List.utf8Encode]

/-- An ASCII character is its own byte. -/
lemma utf8EncodeChar_of_ascii {c : Char} (h : c.toNat < 128) :
    String.utf8EncodeChar c = [UInt8.ofNat c.toNat] := by
  rw [String.utf8EncodeChar_eq_singleton
    (Char.utf8Size_eq_one_iff.2 (UInt32.le_iff_toNat_le.2 (Nat.le_of_lt_succ h)))]
  rfl

/-- ASCII characters come back from their bytes. -/
lemma map_utf8Bytes_of_ascii {text : List Char} (h : ∀ c ∈ text, c.toNat < 128) :
    (utf8Bytes (String.ofList text)).map (fun byte => Char.ofNat byte.toNat) = text := by
  rw [utf8Bytes_ofList]
  induction text with
  | nil => rfl
  | cons c text ih =>
    obtain ⟨hc, htext⟩ := List.forall_mem_cons.1 h
    rw [List.flatMap_cons, utf8EncodeChar_of_ascii hc, List.singleton_append, List.map_cons,
      ih htext, UInt8.toNat_ofNat', Nat.mod_eq_of_lt (hc.trans (by decide)), Char.ofNat_toNat]

/-! ## Digits -/

/-- The digit of a value is read as this value. -/
lemma hexDigit?_hexDigit (case : LetterCase) {n : Nat} (h : n < 16) :
    hexDigit? (hexDigit case n) = some n := by
  revert n
  cases case <;> decide

/-- Digits are ASCII characters. -/
lemma hexDigit_toNat_lt (case : LetterCase) {n : Nat} (h : n < 16) :
    (hexDigit case n).toNat < 128 := by
  revert n
  cases case <;> decide

namespace Hex

variable (case : LetterCase)

/-- The digit of a value is read as this value wherever it stands. -/
lemma digitAt_hexDigit (position : Nat) {n : Nat} (h : n < 16) :
    digitAt position (hexDigit case n) = .ok n := by
  rw [digitAt, hexDigit?_hexDigit case h]

/-- The first digit of a byte has a value below sixteen. -/
lemma high_lt (byte : UInt8) : byte.toNat / 16 < 16 := by
  have := byte.toNat_lt
  omega

/-- The second digit of a byte has a value below sixteen. -/
lemma low_lt (byte : UInt8) : byte.toNat % 16 < 16 := Nat.mod_lt _ (by decide)

/-- The digits of a byte are ASCII characters. -/
lemma encodeByte_ascii (byte : UInt8) : ∀ c ∈ encodeByte case byte, c.toNat < 128 := by
  intro c hc
  rcases List.mem_pair.1 hc with rfl | rfl
  · exact hexDigit_toNat_lt case (high_lt byte)
  · exact hexDigit_toNat_lt case (low_lt byte)

/-- The digits of a row of bytes are read two by two. -/
lemma decodePairs_encodeByte (position : Nat) (bytes : List UInt8) :
    decodePairs position (bytes.flatMap (encodeByte case)) = .ok bytes := by
  induction bytes generalizing position with
  | nil => rfl
  | cons byte bytes ih =>
    have hbyte : UInt8.ofNat (16 * (byte.toNat / 16) + byte.toNat % 16) = byte := by
      rw [Nat.div_add_mod, UInt8.ofNat_toNat]
    rw [List.flatMap_cons, encodeByte, List.cons_append, List.cons_append, List.nil_append,
      decodePairs, digitAt_hexDigit case position (high_lt byte),
      digitAt_hexDigit case (position + 1) (low_lt byte), ih (position + 2)]
    exact congrArg (fun b => Except.ok (b :: bytes)) hbyte

/-- The bytes of the digits of a row of bytes. -/
theorem decode_encode (bytes : List UInt8) : decode (encode case bytes) = .ok bytes := by
  have hascii : ∀ c ∈ bytes.flatMap (encodeByte case), c.toNat < 128 := by
    intro c hc
    obtain ⟨byte, -, hc⟩ := List.mem_flatMap.1 hc
    exact encodeByte_ascii case byte c hc
  have hmap := map_utf8Bytes_of_ascii hascii
  have heven : (utf8Bytes (encode case bytes)).length % 2 ≠ 1 := by
    have hlength := congrArg List.length hmap
    rw [List.length_map, List.length_flatMap] at hlength
    simp only [encodeByte, List.length_cons, List.length_nil, List.map_const', List.sum_replicate,
      smul_eq_mul] at hlength
    rw [encode, hlength]
    omega
  rw [decode, if_neg heven, encode, hmap, decodePairs_encodeByte]

end Hex

end PatternSampler
