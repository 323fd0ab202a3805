import Mathlib
import PatternSampler.Proofs.Encoding.Hex
import PatternSampler.Text.Scalar
import PatternSampler.Transform

set_option autoImplicit false

/-!
# Reading escaped texts

An escaped text between double quotes is a string literal. A reader of literals that knows nothing
of how the text was escaped finds its end and gives the text back.

## Main definitions

* `Literal.next?`, `Literal.read?` — one character of a literal, and a whole literal. Whatever the
  grammar of such literals does not allow is refused, surrogates without their partner among it.
* `Literal.Writes` — the ways to write a character in a literal.
* `Literal.bare` — the characters of a text that are not behind a backslash.

## Main results

* `Literal.next?_append` — a character is read from each of the ways to write it.
* `Literal.writes_ascii`, `Literal.writes_json` — both escapes write characters in such ways.
* `escapes_read_back` — escaped texts of both kinds.

## Implementation notes

A character is written at once, whatever stands next to it, so that the reader goes through the
escaped text as the escape went through the text.
-/

namespace PatternSampler

namespace Literal

/-! ## Reading -/

/-- The character that one character behind a backslash stands for. -/
def short? : Char → Option Char
  | '"' => some '"'
  | '\\' => some '\\'
  | '/' => some '/'
  | 'b' => some '\x08'
  | 'f' => some '\x0c'
  | 'n' => some '\n'
  | 'r' => some '\r'
  | 't' => some '\t'
  | _ => none

/-- The code unit of four hexadecimal digits in either case, and what is behind them. -/
def unit? : List Char → Option (Nat × List Char)
  | a :: b :: c :: d :: rest =>
    ([a, b, c, d].mapM hexDigit?).map fun digits => (ofDigits 16 digits, rest)
  | _ => none

/-- The character whose code units are written behind the mark `\u`, and what is behind it. A high
surrogate needs a low one behind it, and a low one does not come first. -/
def units? (text : List Char) : Option (Char × List Char) :=
  match unit? text with
  | none => none
  | some (high, rest) =>
    if high < 0xd800 ∨ 0xdfff < high then some (Char.ofNat high, rest)
    else match rest with
      | '\\' :: 'u' :: rest =>
        match unit? rest with
        | none => none
        | some (low, rest) =>
          if high < 0xdc00 ∧ 0xdc00 ≤ low ∧ low ≤ 0xdfff then
            some (Char.ofNat (0x10000 + (high - 0xd800) * 0x400 + (low - 0xdc00)), rest)
          else none
      | _ => none

/-- The first character of a literal, and what is behind it. Quotes, backslashes and controls stand
in a literal only in escapes. -/
def next? : List Char → Option (Char × List Char)
  | '\\' :: 'u' :: text => units? text
  | '\\' :: c :: rest => (short? c).map (·, rest)
  | c :: rest => if c = '"' ∨ c = '\\' ∨ c < ' ' then none else some (c, rest)
  | [] => none

/-- Reading a code unit makes the text shorter. -/
lemma length_of_unit? {text rest : List Char} {n : Nat} (h : unit? text = some (n, rest)) :
    rest.length < text.length := by
  unfold unit? at h
  split at h
  · obtain ⟨digits, -, heq⟩ := Option.map_eq_some_iff.1 h
    obtain ⟨-, rfl⟩ := Prod.mk.inj heq
    simp only [List.length_cons]
    omega
  · cases h

/-- Reading a character in code units makes the text shorter. -/
lemma length_of_units? {text rest : List Char} {c : Char} (h : units? text = some (c, rest)) :
    rest.length < text.length := by
  unfold units? at h
  split at h
  · cases h
  · rename_i high middle hhigh
    have hmiddle := length_of_unit? hhigh
    split_ifs at h
    · obtain ⟨-, rfl⟩ := Prod.mk.inj (Option.some.inj h)
      exact hmiddle
    · split at h
      · split at h
        · cases h
        · rename_i low last hlow
          split_ifs at h
          obtain ⟨-, rfl⟩ := Prod.mk.inj (Option.some.inj h)
          have hlast := length_of_unit? hlow
          simp only [List.length_cons] at hmiddle
          omega
      · cases h

/-- A character takes up some of the text. -/
lemma length_of_next? {text rest : List Char} {c : Char} (h : next? text = some (c, rest)) :
    rest.length < text.length := by
  unfold next? at h
  split at h
  · have hlength := length_of_units? h
    simp only [List.length_cons]
    omega
  · obtain ⟨d, -, heq⟩ := Option.map_eq_some_iff.1 h
    obtain ⟨-, rfl⟩ := Prod.mk.inj heq
    simp only [List.length_cons]
    omega
  · split_ifs at h
    obtain ⟨-, rfl⟩ := Prod.mk.inj (Option.some.inj h)
    exact Nat.lt_succ_self _
  · cases h

/-- The characters up to the closing quote, and what is behind it. -/
def body? (text : List Char) : Option (List Char × List Char) :=
  if text.head? = some '"' then some ([], text.tail)
  else match _h : next? text with
    | none => none
    | some (c, rest) => (body? rest).map fun (chars, rest) => (c :: chars, rest)
termination_by text.length
decreasing_by exact length_of_next? _h

/-- The text of a literal between double quotes, and what is behind the literal. -/
def read? : List Char → Option (List Char × List Char)
  | '"' :: text => body? text
  | _ => none

/-- A quote ends the literal. -/
lemma body?_quote (rest : List Char) : body? ('"' :: rest) = some ([], rest) := by
  rw [body?, if_pos List.head?_cons, List.tail_cons]

/-- A character in front of the others. -/
lemma body?_of_next? {text rest : List Char} {c : Char} (h : next? text = some (c, rest)) :
    body? text = (body? rest).map fun (chars, rest) => (c :: chars, rest) := by
  have hquote : text.head? ≠ some '"' := by
    rintro hhead
    obtain ⟨tail, rfl⟩ := List.head?_eq_some_iff.1 hhead
    simp [next?] at h
  rw [body?, if_neg hquote]
  split
  · simp_all
  · simp_all

/-! ## Writing -/

/-- A code unit in an escape. -/
def unitEscape (n : Nat) : List Char := '\\' :: 'u' :: hexQuad n

/-- The ways to write a character in a literal: as it is, behind a backslash, or as code units. -/
inductive Writes (c : Char) : List Char → Prop
  | plain (hquote : c ≠ '"') (hbackslash : c ≠ '\\') (hcontrol : ' ' ≤ c) : Writes c [c]
  | short {d : Char} (h : short? d = some c) : Writes c ['\\', d]
  | unit (h : c.toNat < 0x10000) : Writes c (unitEscape c.toNat)
  | pair (h : 0x10000 ≤ c.toNat) :
    Writes c (unitEscape (0xd800 + (c.toNat - 0x10000) / 0x400) ++
      unitEscape (0xdc00 + (c.toNat - 0x10000) % 0x400))

/-- Four digits are read back as their code unit. -/
lemma unit?_hexQuad {n : Nat} (h : n < 0x10000) (rest : List Char) :
    unit? (hexQuad n ++ rest) = some (n, rest) := by
  have hdigit (k : Nat) : hexDigit? (hexDigit .lower (k % 16)) = some (k % 16) :=
    hexDigit?_hexDigit .lower (Nat.mod_lt k (by decide))
  have hdigits : (hexQuad n).mapM hexDigit? =
      some [n / 4096 % 16, n / 256 % 16, n / 16 % 16, n % 16] := by
    simp [hexQuad, hdigit]
  have hvalue : ofDigits 16 [n / 4096 % 16, n / 256 % 16, n / 16 % 16, n % 16] = n := by
    simp only [ofDigits, List.foldl_cons, List.foldl_nil]
    omega
  calc unit? (hexQuad n ++ rest)
      = ((hexQuad n).mapM hexDigit?).map fun digits => (ofDigits 16 digits, rest) := rfl
    _ = some (n, rest) := by rw [hdigits, Option.map_some, hvalue]

/-- The code unit of a character of the first plane is read back as the character. -/
lemma next?_unit {c : Char} (h : c.toNat < 0x10000) (rest : List Char) :
    next? (unitEscape c.toNat ++ rest) = some (c, rest) := by
  -- a character is no surrogate, so the reader does not look for a second unit
  have hscalar : c.toNat < 0xd800 ∨ 0xdfff < c.toNat := by
    have := toNat_cases c
    omega
  rw [unitEscape, List.cons_append, List.cons_append, next?, units?, unit?_hexQuad h]
  simp only [if_pos hscalar, Char.ofNat_toNat]

/-- A pair of surrogates is read as the character that it was split from. -/
lemma next?_pair {c : Char} (h : 0x10000 ≤ c.toNat) (rest : List Char) :
    next? (unitEscape (0xd800 + (c.toNat - 0x10000) / 0x400) ++
      (unitEscape (0xdc00 + (c.toNat - 0x10000) % 0x400) ++ rest)) = some (c, rest) := by
  have hlt : c.toNat < 0x110000 := by
    have := toNat_cases c
    omega
  obtain ⟨high, hhigh⟩ : ∃ n, n = (c.toNat - 0x10000) / 0x400 := ⟨_, rfl⟩
  obtain ⟨low, hlow⟩ : ∃ n, n = (c.toNat - 0x10000) % 0x400 := ⟨_, rfl⟩
  have hjoin : 0x10000 + (0xd800 + high - 0xd800) * 0x400 + (0xdc00 + low - 0xdc00) = c.toNat := by
    omega
  rw [← hhigh, ← hlow, unitEscape, unitEscape, List.cons_append, List.cons_append,
    List.cons_append, List.cons_append, next?, units?, unit?_hexQuad (by omega)]
  simp only [if_neg (show ¬ (0xd800 + high < 0xd800 ∨ 0xdfff < 0xd800 + high) by omega),
    unit?_hexQuad (show 0xdc00 + low < 0x10000 by omega), hjoin, Char.ofNat_toNat]
  exact if_pos (by omega)

/-- A backslash with a letter behind it is read as what the letter stands for. -/
lemma next?_short {c d : Char} (h : short? d = some c) (rest : List Char) :
    next? ('\\' :: d :: rest) = some (c, rest) := by
  have hunit : d ≠ 'u' := by
    rintro rfl
    cases h
  rw [next?, h]
  · rfl
  · simpa using hunit

/-- A printable character that is no quote and no backslash is read as itself. -/
lemma next?_plain {c : Char} (hquote : c ≠ '"') (hbackslash : c ≠ '\\') (hcontrol : ' ' ≤ c)
    (rest : List Char) : next? (c :: rest) = some (c, rest) := by
  have hallowed : ¬ (c = '"' ∨ c = '\\' ∨ c < ' ') := by
    simp [hquote, hbackslash, hcontrol]
  rw [next?, if_neg hallowed]
  · simp [hbackslash]
  · simp [hbackslash]

/-- A character is read from each of the ways to write it. -/
theorem next?_append {c : Char} {written : List Char} (h : Writes c written) (rest : List Char) :
    next? (written ++ rest) = some (c, rest) := by
  cases h with
  | plain hquote hbackslash hcontrol => exact next?_plain hquote hbackslash hcontrol rest
  | short h => exact next?_short h rest
  | unit h => exact next?_unit h rest
  | pair h =>
    rw [List.append_assoc]
    exact next?_pair h rest

/-- A whole text is read up to the quote behind it. -/
lemma body?_flatMap {escape : Char → List Char} (h : ∀ c, Writes c (escape c))
    (text rest : List Char) :
    body? (text.flatMap escape ++ '"' :: rest) = some (text, rest) := by
  induction text with
  | nil => exact body?_quote rest
  | cons c text ih =>
    rw [List.flatMap_cons, List.append_assoc, body?_of_next? (next?_append (h c) _), ih]
    rfl

/-! ## What stands in a literal -/

/-- The characters of a text that are not behind a backslash, without the backslashes that have a
character behind them. -/
def bare : List Char → List Char
  | '\\' :: _ :: rest => bare rest
  | c :: rest => c :: bare rest
  | [] => []

/-- A character that is no backslash is bare. -/
lemma bare_cons {c : Char} (h : c ≠ '\\') (rest : List Char) :
    bare (c :: rest) = c :: bare rest := by
  rw [bare]
  simp [h]

/-- The digits of a code unit are printable and are neither quotes nor backslashes. -/
lemma mem_hexQuad {n : Nat} {c : Char} (h : c ∈ hexQuad n) :
    (c ≠ '"' ∧ c ≠ '\\') ∧ ' ' ≤ c ∧ c ≤ '~' := by
  have hall : ∀ k < 16, (hexDigit .lower k ≠ '"' ∧ hexDigit .lower k ≠ '\\') ∧
      ' ' ≤ hexDigit .lower k ∧ hexDigit .lower k ≤ '~' := by
    decide
  have hdigit (k : Nat) := hall (k % 16) (Nat.mod_lt k (by decide))
  simp only [hexQuad, List.mem_cons, List.not_mem_nil, or_false] at h
  rcases h with rfl | rfl | rfl | rfl <;> exact hdigit _

/-- Code units are written in printable characters. -/
lemma mem_unitEscape {n : Nat} {c : Char} (h : c ∈ unitEscape n) : ' ' ≤ c ∧ c ≤ '~' := by
  rw [unitEscape, List.mem_cons, List.mem_cons] at h
  rcases h with rfl | rfl | h
  · decide
  · decide
  · exact (mem_hexQuad h).2

/-- Behind the backslash of a code unit all of its digits are bare. -/
lemma bare_unitEscape_append (n : Nat) (rest : List Char) :
    bare (unitEscape n ++ rest) = hexQuad n ++ bare rest := by
  have hne : ∀ c ∈ hexQuad n, c ≠ '\\' := fun c hc => (mem_hexQuad hc).1.2
  simp only [hexQuad, List.forall_mem_cons] at hne
  obtain ⟨ha, hb, hc, hd, -⟩ := hne
  rw [unitEscape, List.cons_append, List.cons_append, bare]
  simp only [hexQuad, List.cons_append, List.nil_append, bare_cons ha, bare_cons hb, bare_cons hc,
    bare_cons hd]

/-- The ways to write a character leave no quote and no backslash bare. -/
lemma of_mem_bare_append {c d : Char} {written rest : List Char} (h : Writes c written)
    (hd : d ∈ bare (written ++ rest)) : (d ≠ '"' ∧ d ≠ '\\') ∨ d ∈ bare rest := by
  cases h with
  | plain hquote hbackslash _ =>
    rw [List.singleton_append, bare_cons hbackslash] at hd
    rcases List.mem_cons.1 hd with rfl | hd
    · exact .inl ⟨hquote, hbackslash⟩
    · exact .inr hd
  | short _ => exact .inr hd
  | unit _ =>
    rw [bare_unitEscape_append] at hd
    exact (List.mem_append.1 hd).imp_left fun hd => (mem_hexQuad hd).1
  | pair _ =>
    rw [List.append_assoc, bare_unitEscape_append, bare_unitEscape_append,
      ← List.append_assoc] at hd
    refine (List.mem_append.1 hd).imp_left fun hd => ?_
    rcases List.mem_append.1 hd with hd | hd
    · exact (mem_hexQuad hd).1
    · exact (mem_hexQuad hd).1

/-- Escaped characters leave neither a quote nor a backslash bare. -/
lemma of_mem_bare_flatMap {escape : Char → List Char} (h : ∀ c, Writes c (escape c))
    {text : List Char} {d : Char} (hd : d ∈ bare (text.flatMap escape)) :
    d ≠ '"' ∧ d ≠ '\\' := by
  induction text with
  | nil => simp [bare] at hd
  | cons c text ih =>
    rw [List.flatMap_cons] at hd
    exact (of_mem_bare_append (h c) hd).elim id ih

/-- No way to write a character takes a control. -/
lemma space_le_of_mem {c d : Char} {written : List Char} (h : Writes c written)
    (hd : d ∈ written) : ' ' ≤ d := by
  cases h with
  | plain _ _ hcontrol => rwa [List.mem_singleton.1 hd]
  | @short e h =>
    rcases List.mem_pair.1 hd with rfl | rfl
    · decide
    · unfold short? at h
      split at h <;> first | decide | cases h
  | unit _ => exact (mem_unitEscape hd).1
  | pair _ =>
    rcases List.mem_append.1 hd with hd | hd
    · exact (mem_unitEscape hd).1
    · exact (mem_unitEscape hd).1

/-! ## The two escapes -/

/-- Each character can be written as its code units. -/
lemma writes_units (c : Char) : Writes c ((utf16Units c).flatMap unitEscape) := by
  unfold utf16Units
  split_ifs with h
  · simpa using Writes.unit h
  · simpa using Writes.pair (Nat.le_of_not_lt h)

/-- The escape for printable ASCII. -/
lemma writes_ascii (c : Char) : Writes c (escapeAsciiCharacter c) := by
  unfold escapeAsciiCharacter
  split_ifs with hbackslash hquote hnewline hreturn htab hprintable
  · exact .short (by rw [hbackslash]; rfl)
  · exact .short (by rw [hquote]; rfl)
  · exact .short (by rw [hnewline]; rfl)
  · exact .short (by rw [hreturn]; rfl)
  · exact .short (by rw [htab]; rfl)
  · exact .plain hquote hbackslash hprintable.1
  · exact writes_units c

/-- The escape for JSON strings. -/
lemma writes_json (c : Char) : Writes c (escapeJsonCharacter c) := by
  unfold escapeJsonCharacter
  split_ifs with hquote hbackslash hbackspace hfeed hnewline hreturn htab hcontrol
  · exact .short (by rw [hquote]; rfl)
  · exact .short (by rw [hbackslash]; rfl)
  · exact .short (by rw [hbackspace]; rfl)
  · exact .short (by rw [hfeed]; rfl)
  · exact .short (by rw [hnewline]; rfl)
  · exact .short (by rw [hreturn]; rfl)
  · exact .short (by rw [htab]; rfl)
  · exact .unit (lt_trans (show c.toNat < 32 from hcontrol) (by decide))
  · exact .plain hquote hbackslash (le_of_not_gt hcontrol)

/-- What is written for printable ASCII does not leave it. -/
lemma le_tilde_of_mem {c d : Char} (hd : d ∈ escapeAsciiCharacter c) : d ≤ '~' := by
  have hpair {e : Char} (he : e ≤ '~') (hd : d ∈ ['\\', e]) : d ≤ '~' := by
    rcases List.mem_pair.1 hd with rfl | rfl
    · decide
    · exact he
  unfold escapeAsciiCharacter at hd
  split_ifs at hd with hbackslash hquote hnewline hreturn htab hprintable
  · exact hpair (by decide) hd
  · exact hpair (by decide) hd
  · exact hpair (by decide) hd
  · exact hpair (by decide) hd
  · exact hpair (by decide) hd
  · rw [List.mem_singleton.1 hd]
    exact hprintable.2
  · obtain ⟨n, -, hn⟩ := List.mem_flatMap.1 hd
    exact (mem_unitEscape hn).2

/-- What an escaped text has to be like to stand for a text between double quotes. -/
structure Quotes (escaped text : String) : Prop where
  /-- The literal ends at the quote behind the escaped text and is read as the text. -/
  read : ∀ rest, read? ('"' :: (escaped.toList ++ '"' :: rest)) = some (text.toList, rest)
  /-- Quotes stand behind backslashes, and so do backslashes that do not start an escape. -/
  bare : ∀ c ∈ bare escaped.toList, c ≠ '"' ∧ c ≠ '\\'
  /-- There are no controls. -/
  space_le : ∀ c ∈ escaped.toList, ' ' ≤ c

/-- A text whose characters are escaped one by one quotes the text. -/
theorem quotes_flatMap {escape : Char → List Char} (h : ∀ c, Writes c (escape c))
    (text : String) : Quotes (String.ofList (text.toList.flatMap escape)) text := by
  refine ⟨fun rest => ?_, fun c hc => ?_, fun c hc => ?_⟩
  · rw [String.toList_ofList]
    exact body?_flatMap h text.toList rest
  · rw [String.toList_ofList] at hc
    exact of_mem_bare_flatMap h hc
  · rw [String.toList_ofList] at hc
    obtain ⟨d, -, hd⟩ := List.mem_flatMap.1 hc
    exact space_le_of_mem (h d) hd

/-- Texts with the same escaped text are the same. -/
lemma Quotes.unique {escaped text text' : String} (h : Quotes escaped text)
    (h' : Quotes escaped text') : text = text' := by
  have hread := (h.read []).symm.trans (h'.read [])
  exact String.toList_inj.1 (Prod.mk.inj (Option.some.inj hread)).1

end Literal

/-- **Escapes read back**: any text can be escaped for printable ASCII and for JSON. Between double
quotes both results are read as the text again, and the reader stops at the quote behind them. They
have no controls, no quotes that are not behind a backslash, and no backslashes that are neither
behind another one nor start an escape. What is escaped for printable ASCII consists of nothing
else. Different texts have different results.

**Proof sketch.** Both escapes write each character in one of the ways in which a literal can have
it, and whatever is behind such a piece, the reader takes the piece for its character. -/
theorem escapes_read_back :
    (∀ text, ∃ escaped, Transform.escape.apply text = .ok escaped ∧ Literal.Quotes escaped text ∧
      ∀ c ∈ escaped.toList, ' ' ≤ c ∧ c ≤ '~') ∧
    (∀ text, ∃ escaped, Transform.json.apply text = .ok escaped ∧ Literal.Quotes escaped text) ∧
    Function.Injective Transform.escape.apply ∧ Function.Injective Transform.json.apply := by
  have hascii (text : String) : Literal.Quotes (escapeAscii text) text :=
    Literal.quotes_flatMap Literal.writes_ascii text
  have hjson (text : String) : Literal.Quotes (escapeJson text) text :=
    Literal.quotes_flatMap Literal.writes_json text
  refine ⟨fun text => ⟨_, rfl, hascii text, fun c hc => ⟨(hascii text).space_le c hc, ?_⟩⟩,
    fun text => ⟨_, rfl, hjson text⟩, fun x y hxy => ?_, fun x y hxy => ?_⟩
  · rw [escapeAscii, String.toList_ofList] at hc
    obtain ⟨d, -, hd⟩ := List.mem_flatMap.1 hc
    exact Literal.le_tilde_of_mem hd
  · exact (hascii x).unique (Except.ok.inj hxy ▸ hascii y)
  · exact (hjson x).unique (Except.ok.inj hxy ▸ hjson y)

example : escapeAscii "a\"あ😀" = "a\\\"\\u3042\\ud83d\\ude00" := by decide

end PatternSampler
