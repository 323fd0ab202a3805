import Mathlib
import PatternSampler.Proofs.Encoding.Bits
import PatternSampler.Proofs.Encoding.Hex
import PatternSampler.Proofs.Numeric.Numerals
import PatternSampler.Transform

set_option autoImplicit false

/-!
# Base 32 and its bits

The letters of a text in base 32 spell the bits of its bytes, five bits each, with at most four
zeros behind them. So the bytes come back from each of the three forms of the text.

## Main definitions

* `Base32.bits?` — the bits that a row of letters spells.
* `Base32.decode?` — the bytes of a text in either case, with or without padding.
* `Base32.Spells` — what a text consists of.

## Main results

* `Base32.ofNat_block`, `Base32.ofNat_group` — the bits of a block and of its groups.
* `Base32.bits?_letters` — the bits that the letters of a row of bytes spell.
* `base32_decodes` — all three forms, also through the transforms.

## Implementation notes

A block is looked at through the bits of its word, most significant first, so that shifting and
joining a byte are an append. The groups of a block are the same bits in rows of five.
-/

namespace PatternSampler

namespace Base32

/-! ## The bits of a block -/

/-- A byte behind the lowest bits of a word. -/
lemma ofNat_push {width : Nat} (hwidth : width + 8 ≤ 64) (bits : UInt64) (byte : UInt8) :
    Bits.ofNat (width + 8) (push bits byte).toNat =
      Bits.ofNat width bits.toNat ++ Bits.ofNat 8 byte.toNat := by
  have htestBit (i : Nat) : (push bits byte).toNat.testBit i =
      (decide (i < 64) && (decide (8 ≤ i) && bits.toNat.testBit (i - 8)) ||
        byte.toNat.testBit i) := by
    rw [push, UInt64.toNat_or, UInt64.toNat_shiftLeft, UInt8.toNat_toUInt64, Nat.testBit_or,
      Nat.testBit_mod_two_pow, show (8 : UInt64).toNat % 64 = 8 from rfl, Nat.testBit_shiftLeft]
  rw [Bits.ofNat_add]
  congr 1
  -- from the eighth bit on there are the bits of the word, and below them those of the byte
  · refine Bits.ofNat_congr fun i hi => ?_
    have hbyte : byte.toNat.testBit (8 + i) = false :=
      Nat.testBit_lt_two_pow (byte.toNat_lt.trans_le (Nat.pow_le_pow_right (by decide) (by omega)))
    rw [Nat.testBit_shiftRight, htestBit, hbyte]
    simp [show 8 + i < 64 by omega]
  · refine Bits.ofNat_congr fun i hi => ?_
    rw [htestBit]
    simp [show ¬ 8 ≤ i by omega]

/-- Bytes are pushed behind the bits that are there, as long as all of them fit. -/
lemma ofNat_foldl_push (bytes : List UInt8) (width : Nat) (bits : UInt64)
    (h : width + 8 * bytes.length ≤ 64) :
    Bits.ofNat (width + 8 * bytes.length) (bytes.foldl push bits).toNat =
      Bits.ofNat width bits.toNat ++ Bits.ofBytes bytes := by
  induction bytes generalizing width bits with
  | nil => simp
  | cons byte bytes ih =>
    rw [List.length_cons] at h ⊢
    rw [List.foldl_cons, show width + 8 * (bytes.length + 1) = width + 8 + 8 * bytes.length by ring,
      ih _ _ (by omega), ofNat_push (by omega), Bits.ofBytes_cons, List.append_assoc]

/-- The forty bits of a block are the bits of its bytes and zeros. -/
theorem ofNat_block {bytes : List UInt8} (h : bytes.length ≤ 5) :
    Bits.ofNat 40 (block bytes).toNat =
      Bits.ofBytes bytes ++ List.replicate (40 - 8 * bytes.length) false := by
  have hlength : (bytes ++ List.replicate (5 - bytes.length) 0).length = 5 := by
    rw [List.length_append, List.length_replicate, Nat.add_sub_cancel' h]
  have hbits := ofNat_foldl_push (bytes ++ List.replicate (5 - bytes.length) 0) 0 0 (by omega)
  rw [hlength] at hbits
  rw [block, ← Nat.mul_sub 8 5]
  rwa [Nat.zero_add, Bits.ofBytes_append, Bits.ofBytes_replicate_zero] at hbits

/-- A group has five bits. -/
lemma group_lt (bits : UInt64) (i : Nat) : (group bits i).toNat < 32 := by
  rw [group, UInt64.toNat_and]
  exact Nat.and_lt_two_pow _ (n := 5) (by decide)

/-- A group has five of the bits of its block. -/
lemma ofNat_group (bits : UInt64) (i : Nat) :
    Bits.ofNat 5 (group bits i).toNat = Bits.ofNat 5 (bits.toNat >>> (35 - 5 * i)) := by
  have hshift : (UInt64.ofNat (35 - 5 * i)).toNat % 64 = 35 - 5 * i := by
    rw [UInt64.toNat_ofNat']
    omega
  refine Bits.ofNat_congr fun j hj => ?_
  rw [group, UInt64.toNat_and, UInt64.toNat_shiftRight, hshift,
    show (0x1f : UInt64).toNat = 2 ^ 5 - 1 from rfl, Nat.and_two_pow_sub_one_eq_mod,
    Nat.testBit_mod_two_pow]
  simp [hj]

/-- The first groups of a block have its first bits. -/
lemma flatMap_ofNat_group (bits : UInt64) {n : Nat} (hn : n ≤ 8) :
    (List.range n).flatMap (fun i => Bits.ofNat 5 (group bits i).toNat) =
      (Bits.ofNat 40 bits.toNat).take (5 * n) := by
  -- said of the bits above the others, so that one more group comes in at the end of the row
  have hshift : (List.range n).flatMap (fun i => Bits.ofNat 5 (group bits i).toNat) =
      Bits.ofNat (5 * n) (bits.toNat >>> (40 - 5 * n)) := by
    induction n with
    | zero => rfl
    | succ n ih =>
      rw [List.range_succ, List.flatMap_append, List.flatMap_singleton, ih (by omega), ofNat_group,
        Nat.mul_succ, Bits.ofNat_add, ← Nat.shiftRight_add,
        show 40 - (5 * n + 5) + 5 = 40 - 5 * n by omega,
        show 40 - (5 * n + 5) = 35 - 5 * n by omega]
  rw [hshift, ← Bits.take_ofNat, Nat.add_sub_cancel' (by omega)]

/-! ## Reading -/

/-- The value of a letter in upper case. -/
def digit? (c : Char) : Option Nat :=
  if 'A' ≤ c ∧ c ≤ 'Z' then some (c.toNat - 65)
  else if '2' ≤ c ∧ c ≤ '7' then some (c.toNat - 24)
  else none

/-- The bits that a row of letters spells, five for each of them. -/
def bits? (text : List Char) : Option (List Bool) :=
  (text.mapM digit?).map fun values => values.flatMap (Bits.ofNat 5)

/-- The bytes of a text in either case, with or without padding. Behind the bits of the bytes there
may be less than five zeros. -/
def decode? (text : String) : Option (List UInt8) :=
  (bits? (text.toUpper.toList.rdropWhile (· = '='))).bind fun bits =>
    let rest := bits.drop (bits.length / 8 * 8)
    if rest.length < 5 ∧ rest.all not then some (Bits.toBytes bits) else none

/-- Letters behind one another spell their bits behind one another. -/
lemma bits?_append {x y : List Char} {front back : List Bool} (hx : bits? x = some front)
    (hy : bits? y = some back) : bits? (x ++ y) = some (front ++ back) := by
  obtain ⟨high, hhigh, rfl⟩ := Option.map_eq_some_iff.1 hx
  obtain ⟨low, hlow, rfl⟩ := Option.map_eq_some_iff.1 hy
  rw [bits?, List.mapM_append, hhigh, hlow, ← List.flatMap_append]
  rfl

/-- The letters are those from A to Z and the digits from 2 to 7. -/
lemma digit?_isSome_iff {c : Char} :
    (digit? c).isSome ↔ 'A' ≤ c ∧ c ≤ 'Z' ∨ '2' ≤ c ∧ c ≤ '7' := by
  unfold digit?
  split_ifs with hletter hdigit <;> simp [*]

/-- Letters have five bits each. -/
lemma length_of_bits? {text : List Char} {bits : List Bool} (h : bits? text = some bits) :
    bits.length = 5 * text.length := by
  obtain ⟨values, hvalues, rfl⟩ := Option.map_eq_some_iff.1 h
  rw [(mapM_eq_some_iff.1 hvalues).length_eq, List.length_flatMap]
  simp [Nat.mul_comm]

/-- A text that spells bits consists of letters. -/
lemma isSome_of_bits? {text : List Char} {bits : List Bool} (h : bits? text = some bits) :
    ∀ c ∈ text, (digit? c).isSome := by
  obtain ⟨values, hvalues, -⟩ := Option.map_eq_some_iff.1 h
  have hdigits := (mapM_eq_some_iff.1 hvalues).imp fun c value hc =>
    (⟨Option.isSome_of_eq_some hc, hc⟩ : (digit? c).isSome ∧ digit? c = some value)
  exact ((List.forall₂_and_left _ _).1 hdigits).1

/-! ## Letters -/

/-- The letter of five bits has their value. -/
lemma digit?_letter {value : UInt64} (h : value.toNat < 32) :
    digit? (letter value) = some value.toNat := by
  have hall : ∀ n < 32, digit? (alphabet.getD n '=') = some n := by decide
  exact hall _ h

/-- At most eight letters are needed for five bytes. -/
lemma used_le {n : Nat} (h : n ≤ 5) : used n ≤ 8 := by
  unfold used
  omega

/-- The letters of a block, which padding completes to eight characters. -/
lemma blockLetters_eq (padded : Bool) {bytes : List UInt8} (h : bytes.length ≤ 5) :
    blockLetters padded bytes =
      (List.range (used bytes.length)).map (fun i => letter (group (block bytes) i)) ++
        if padded then List.replicate (8 - used bytes.length) '=' else [] := by
  obtain ⟨k, hk⟩ := Nat.exists_eq_add_of_le (used_le h)
  have hwritten : ∀ i ∈ List.range (used bytes.length), (if i < used bytes.length
      then [letter (group (block bytes) i)] else if padded then ['='] else []) =
        [letter (group (block bytes) i)] :=
    fun i hi => if_pos (List.mem_range.1 hi)
  rw [blockLetters, hk, List.range_add, List.flatMap_append, List.flatMap_congr hwritten,
    List.flatMap_map, ← List.map_eq_flatMap, Nat.add_sub_cancel_left]
  congr 1
  cases padded with
  | false => simp
  | true => simp [← List.map_eq_flatMap, List.map_const']

/-- The letters of a block spell the bits of its bytes, with zeros up to a multiple of five. -/
lemma bits?_blockLetters {bytes : List UInt8} (h : bytes.length ≤ 5) :
    bits? (blockLetters false bytes) = some (Bits.ofBytes bytes ++
      List.replicate (5 * used bytes.length - 8 * bytes.length) false) := by
  have hvalues : ((List.range (used bytes.length)).map fun i =>
      letter (group (block bytes) i)).mapM digit? =
        some ((List.range (used bytes.length)).map fun i => (group (block bytes) i).toNat) := by
    rw [mapM_eq_some_iff, List.forall₂_map_left_iff, List.forall₂_map_right_iff,
      List.forall₂_same]
    exact fun i _ => digit?_letter (group_lt _ i)
  have hused : 8 * bytes.length ≤ 5 * used bytes.length ∧ 5 * used bytes.length ≤ 40 := by
    unfold used
    omega
  rw [blockLetters_eq false h, if_neg Bool.false_ne_true, List.append_nil, bits?, hvalues,
    Option.map_some, List.flatMap_map, flatMap_ofNat_group _ (used_le h), ofNat_block h,
    List.take_append, Bits.length_ofBytes, List.take_replicate,
    List.take_of_length_le (by rw [Bits.length_ofBytes]; exact hused.1), Nat.min_eq_left (by omega)]

/-! ## Block by block -/

/-- The letters of the first five bytes come first. -/
lemma letters_append (padded : Bool) {first : List UInt8} (h : first.length = 5)
    (rest : List UInt8) :
    letters padded (first ++ rest) = blockLetters padded first ++ letters padded rest := by
  match first, h with
  | [_, _, _, _, _], _ => rfl

/-- The last block may have less than five bytes. -/
lemma letters_of_length_lt (padded : Bool) {last : List UInt8} (hne : last ≠ [])
    (h : last.length < 5) : letters padded last = blockLetters padded last := by
  rcases last with _ | ⟨a, _ | ⟨b, _ | ⟨c, _ | ⟨d, _ | ⟨e, rest⟩⟩⟩⟩⟩
  case nil => exact absurd rfl hne
  case cons.cons.cons.cons.cons =>
    simp only [List.length_cons] at h
    omega
  all_goals rfl

/-- Rows of bytes are made of blocks of five bytes and what is left at the end. -/
@[elab_as_elim]
theorem block_induction {motive : List UInt8 → Prop} (nil : motive [])
    (last : ∀ bytes, bytes ≠ [] → bytes.length < 5 → motive bytes)
    (block : ∀ first rest, first.length = 5 → motive rest → motive (first ++ rest))
    (bytes : List UInt8) : motive bytes := by
  induction hlength : bytes.length using Nat.strongRecOn generalizing bytes with
  | ind n ih =>
    rcases Nat.lt_or_ge bytes.length 5 with hlt | hge
    · rcases eq_or_ne bytes [] with rfl | hne
      · exact nil
      · exact last bytes hne hlt
    · rw [← List.take_append_drop 5 bytes]
      refine block _ _ (List.length_take_of_le hge) (ih (bytes.drop 5).length ?_ _ rfl)
      rw [List.length_drop]
      omega

/-- The letters of a row of bytes spell its bits, and less than five zeros behind them. -/
theorem bits?_letters (bytes : List UInt8) :
    ∃ n < 5, bits? (letters false bytes) =
      some (Bits.ofBytes bytes ++ List.replicate n false) := by
  induction bytes using block_induction with
  | nil => exact ⟨0, by decide, rfl⟩
  | last bytes hne hlt =>
    refine ⟨5 * used bytes.length - 8 * bytes.length, ?_, ?_⟩
    · unfold used
      omega
    · rw [letters_of_length_lt false hne hlt, bits?_blockLetters hlt.le]
  | block first rest hfirst ih =>
    obtain ⟨n, hn, hbits⟩ := ih
    have hfull := bits?_blockLetters hfirst.le
    rw [hfirst, show 5 * used 5 - 8 * 5 = 0 from rfl, List.replicate_zero,
      List.append_nil] at hfull
    refine ⟨n, hn, ?_⟩
    rw [letters_append false hfirst, bits?_append hfull hbits, Bits.ofBytes_append,
      List.append_assoc]

/-- Padding adds equals signs at the end. -/
lemma letters_padded (bytes : List UInt8) :
    ∃ n, letters true bytes = letters false bytes ++ List.replicate n '=' := by
  induction bytes using block_induction with
  | nil => exact ⟨0, rfl⟩
  | last bytes hne hlt =>
    refine ⟨8 - used bytes.length, ?_⟩
    rw [letters_of_length_lt true hne hlt, letters_of_length_lt false hne hlt,
      blockLetters_eq true hlt.le, blockLetters_eq false hlt.le]
    simp
  | block first rest hfirst ih =>
    obtain ⟨n, hn⟩ := ih
    have hfull : blockLetters true first = blockLetters false first := by
      rw [blockLetters_eq true hfirst.le, blockLetters_eq false hfirst.le, hfirst]
      simp [used]
    exact ⟨n, by rw [letters_append true hfirst, letters_append false hfirst, hn, hfull,
      List.append_assoc]⟩

/-- A block with padding has eight characters. -/
lemma length_blockLetters_padded {bytes : List UInt8} (h : bytes.length ≤ 5) :
    (blockLetters true bytes).length = 8 := by
  have hused := used_le h
  rw [blockLetters_eq true h]
  simp only [if_true, List.length_append, List.length_map, List.length_range,
    List.length_replicate]
  omega

/-- Padding completes the last block. -/
lemma length_letters_padded (bytes : List UInt8) :
    (letters true bytes).length = 8 * ((bytes.length + 4) / 5) := by
  induction bytes using block_induction with
  | nil => rfl
  | last bytes hne hlt =>
    have hpos := List.length_pos_of_ne_nil hne
    rw [letters_of_length_lt true hne hlt, length_blockLetters_padded hlt.le]
    omega
  | block first rest hfirst ih =>
    rw [letters_append true hfirst, List.length_append, length_blockLetters_padded hfirst.le, ih,
      List.length_append, hfirst]
    omega

/-- What the texts of a row of bytes consist of: the letters of its bits, and signs up to a multiple
of eight characters. -/
structure Spells (bytes : List UInt8) : Prop where
  length_padded : (encode true bytes).length = 8 * ((bytes.length + 4) / 5)
  padding : ∃ n, encode true bytes = encode false bytes ++ String.ofList (List.replicate n '=')
  length : (encode false bytes).length = (8 * bytes.length + 4) / 5
  alphabet : ∀ c ∈ (encode false bytes).toList, 'A' ≤ c ∧ c ≤ 'Z' ∨ '2' ≤ c ∧ c ≤ '7'
  bits : ∃ n < 5, bits? (encode false bytes).toList =
    some (Bits.ofBytes bytes ++ List.replicate n false)

/-- The letters of bytes spell their bits, and padding fills up the last block. -/
theorem spells (bytes : List UInt8) : Spells bytes := by
  obtain ⟨n, hn, hbits⟩ := bits?_letters bytes
  obtain ⟨k, hk⟩ := letters_padded bytes
  refine ⟨?_, ⟨k, ?_⟩, ?_, ?_, ⟨n, hn, ?_⟩⟩
  · rw [encode, String.length_ofList, length_letters_padded]
  · rw [encode, encode, hk, String.ofList_append]
  · have hlength := length_of_bits? hbits
    rw [List.length_append, Bits.length_ofBytes, List.length_replicate] at hlength
    rw [encode, String.length_ofList]
    omega
  · rw [encode, String.toList_ofList]
    exact fun c hc => digit?_isSome_iff.1 (isSome_of_bits? hbits c hc)
  · rw [encode, String.toList_ofList, hbits]

/-! ## The bytes of a text -/

/-- A letter is in upper case, can be found again from its lower case, and is no padding. -/
lemma toUpper_of_isSome {c : Char} (h : (digit? c).isSome) :
    c.toUpper = c ∧ c.toLower.toUpper = c ∧ c ≠ '=' := by
  have hall : ∀ n < 128, (digit? (Char.ofNat n)).isSome → (Char.ofNat n).toUpper = Char.ofNat n ∧
      (Char.ofNat n).toLower.toUpper = Char.ofNat n ∧ Char.ofNat n ≠ '=' := by
    decide
  have hlt : c.toNat < 128 := by
    rcases digit?_isSome_iff.1 h with ⟨-, hc⟩ | ⟨-, hc⟩
    · exact Nat.lt_of_le_of_lt hc (by decide)
    · exact Nat.lt_of_le_of_lt hc (by decide)
  have hc := hall c.toNat hlt
  rw [Char.ofNat_toNat] at hc
  exact hc h

/-- The signs at the end of a row of letters. -/
lemma rdropWhile_append_replicate {letters : List Char} (h : '=' ∉ letters) (n : Nat) :
    (letters ++ List.replicate n '=').rdropWhile (· = '=') = letters := by
  induction n with
  | zero =>
    rw [List.replicate_zero, List.append_nil, List.rdropWhile_eq_self_iff]
    intro hne hlast
    exact h (of_decide_eq_true hlast ▸ List.getLast_mem hne)
  | succ n ih =>
    rw [List.replicate_succ', ← List.append_assoc, List.rdropWhile_concat_pos _ _ _ rfl, ih]

/-- A text is read by its letters in upper case. -/
lemma decode?_of_bits? {text : String} {letters : List Char} {bytes : List UInt8} {n k : Nat}
    (htext : text.toList.map Char.toUpper = letters ++ List.replicate k '=') (hn : n < 5)
    (hbits : bits? letters = some (Bits.ofBytes bytes ++ List.replicate n false)) :
    decode? text = some bytes := by
  have hsign : '=' ∉ letters := fun h =>
    (toUpper_of_isSome (isSome_of_bits? hbits _ h)).2.2 rfl
  have hrest : (Bits.ofBytes bytes ++ List.replicate n false).drop
      ((Bits.ofBytes bytes ++ List.replicate n false).length / 8 * 8) =
        List.replicate n false := by
    refine List.drop_left' ?_
    rw [List.length_append, List.length_replicate, Bits.length_ofBytes]
    omega
  rw [decode?, String.toUpper, String.toList_map, htext, rdropWhile_append_replicate hsign, hbits,
    Option.bind_some]
  simp only [hrest, List.length_replicate, List.all_replicate]
  rw [if_pos ⟨hn, by simp⟩, Bits.toBytes_ofBytes_append _ (by rw [List.length_replicate]; omega)]

/-- All three forms of a text in base 32 give the bytes back. -/
theorem decode?_encode (bytes : List UInt8) :
    decode? (encode true bytes) = some bytes ∧ decode? (encode false bytes) = some bytes ∧
      decode? (encode false bytes).toLower = some bytes := by
  obtain ⟨n, hn, hbits⟩ := bits?_letters bytes
  obtain ⟨k, hk⟩ := letters_padded bytes
  have hupper : (letters false bytes).map Char.toUpper = letters false bytes :=
    (List.map_congr_left fun c hc =>
      (toUpper_of_isSome (isSome_of_bits? hbits c hc)).1).trans (List.map_id _)
  have hlower : (letters false bytes).map (Char.toUpper ∘ Char.toLower) = letters false bytes :=
    (List.map_congr_left fun c hc =>
      (toUpper_of_isSome (isSome_of_bits? hbits c hc)).2.1).trans (List.map_id _)
  refine ⟨decode?_of_bits? (k := k) ?_ hn hbits, decode?_of_bits? (k := 0) ?_ hn hbits,
    decode?_of_bits? (k := 0) ?_ hn hbits⟩
  · rw [encode, String.toList_ofList, hk, List.map_append, hupper, List.map_replicate]
    rfl
  · rw [encode, String.toList_ofList, hupper, List.replicate_zero, List.append_nil]
  · rw [encode, String.toLower, String.toList_map, String.toList_ofList, List.map_map, hlower,
      List.replicate_zero, List.append_nil]

end Base32

/-! ## The transforms -/

/-- **Base 32**: reads what has been written. For all bytes, the text without padding has the
letters of their bits, five bits each, most significant first, with less than five zeros behind
them, and the padded text has equals signs behind it up to a multiple of eight characters. The bytes
come back from the padded text and from the text without padding in either case, so that different
bytes have different texts. The transforms succeed on the hexadecimal digits of any text, and their
texts decode to its bytes.

**Proof sketch.** Shifting a word by eight bits and joining a byte puts the bits of the byte behind
those of the word, so that a block has the bits of its bytes and zeros. Its groups are these bits in
rows of five, and the letters that are written cover the bits of the bytes with less than five zeros
to spare. Whole blocks have nothing to spare, so that the zeros come behind all the bits. -/
theorem base32_decodes :
    (∀ bytes, Base32.Spells bytes) ∧
    (∀ bytes, Base32.decode? (Base32.encode true bytes) = some bytes ∧
      Base32.decode? (Base32.encode false bytes) = some bytes ∧
      Base32.decode? (Base32.encode false bytes).toLower = some bytes) ∧
    (Function.Injective (Base32.encode true) ∧ Function.Injective (Base32.encode false) ∧
      Function.Injective fun bytes => (Base32.encode false bytes).toLower) ∧
    ∀ digits text, ∃ hex, (Transform.hex digits).apply text = .ok hex ∧
      (∀ case, ∃ encoded, (Transform.base32 case).apply hex = .ok encoded ∧
        Base32.decode? encoded = some (utf8Bytes text)) ∧
      ∃ encoded, Transform.base32Padded.apply hex = .ok encoded ∧
        Base32.decode? encoded = some (utf8Bytes text) := by
  have hinjective {form : List UInt8 → String}
      (h : ∀ bytes, Base32.decode? (form bytes) = some bytes) : Function.Injective form := by
    intro x y hxy
    exact Option.some.inj (by rw [← h x, hxy, h y])
  refine ⟨Base32.spells, Base32.decode?_encode, ⟨?_, ?_, ?_⟩, fun digits text => ?_⟩
  · exact hinjective fun bytes => (Base32.decode?_encode bytes).1
  · exact hinjective fun bytes => (Base32.decode?_encode bytes).2.1
  · exact hinjective fun bytes => (Base32.decode?_encode bytes).2.2
  · have hbytes : Transform.bytes (Hex.encode digits (utf8Bytes text)) = .ok (utf8Bytes text) := by
      rw [Transform.bytes, Hex.decode_encode]
      rfl
    obtain ⟨hpadded, hupper, hlower⟩ := Base32.decode?_encode (utf8Bytes text)
    refine ⟨_, rfl, fun case => ?_, _, by rw [Transform.apply, hbytes]; rfl, hpadded⟩
    cases case with
    | lower => exact ⟨_, by rw [Transform.apply, hbytes]; rfl, hlower⟩
    | upper => exact ⟨_, by rw [Transform.apply, hbytes]; rfl, hupper⟩

example : Base32.encode true (utf8Bytes "foobar") = "MZXW6YTBOI======" := by decide

end PatternSampler
