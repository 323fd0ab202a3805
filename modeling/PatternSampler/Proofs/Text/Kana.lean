import Mathlib
import PatternSampler.Text.Kana
import PatternSampler.Text.Scalar

set_option autoImplicit false

/-!
# Texts in Latin letters

Romanization leaves no kana, and a text may be cut wherever the letters on one side do not depend on
the kana on the other side.

## Main definitions

* `Kana.IsKana` — the characters that romanization replaces.
* `Kana.written` — the letters of one unit, between the letters and the units next to it.

## Main results

* `Kana.segment_append`, `Kana.spell_append` — the units and the letters of joined texts.
* `Kana.not_isKana_of_mem_spell` — no kana is left.
* `romanize_append` — romanization of joined texts.
* `romanize_latinizes` — romanization leaves no kana, and leaves everything else.

## Implementation notes

A unit depends on its neighbours in three ways. Two kana are one unit if they have a spelling
together, a small tsu looks at the unit behind it, and a lengthening mark at the letter in front of
it. A cut is safe if none of the three looks across it. It is not enough that the second text does
not start with a lengthening mark, since a small tsu in front of the mark may be without letters.
-/

namespace PatternSampler

namespace Kana

/-! ## Tables -/

/-- The characters that romanization replaces: kana with a spelling, the two marks, and katakana. -/
def IsKana (c : Char) : Prop :=
  c ∈ syllables.map Prod.fst ∨ c = smallTsu ∨ c = longMark ∨ (0x30a1 ≤ c.toNat ∧ c.toNat ≤ 0x30f6)

/-- Whether a character is replaced can be computed. -/
instance (c : Char) : Decidable (IsKana c) := inferInstanceAs (Decidable (_ ∨ _))

/-- Letters that spell a syllable. -/
def isSpelling (letters : List Char) : Bool :=
  !letters.isEmpty && letters.all fun c => 'a' ≤ c && c ≤ 'z'

/-- A spelling has a letter. -/
lemma ne_nil_of_isSpelling {letters : List Char} (h : isSpelling letters = true) :
    letters ≠ [] := by
  rintro rfl
  cases h

/-- A spelling has no character behind the letter z. -/
lemma le_of_isSpelling {letters : List Char} (h : isSpelling letters = true) {c : Char}
    (hc : c ∈ letters) : c ≤ 'z' := by
  rw [isSpelling, Bool.and_eq_true, List.all_eq_true] at h
  simpa using (Bool.and_eq_true_iff.1 (h.2 c hc)).2

section Lookup

variable {α β : Type} [BEq α] [LawfulBEq α] {table : List (α × β)} {key : α}

/-- What holds of all entries of a table holds of those that are found. -/
lemma of_lookup {p : α → β → Bool} (hall : (table.all fun entry => p entry.1 entry.2) = true)
    {b : β} (h : table.lookup key = some b) : p key b = true := by
  obtain ⟨front, back, rfl, -⟩ := List.lookup_eq_some_iff.1 h
  exact List.all_eq_true.1 hall (key, b) (by simp)

/-- A table without an entry for a key does not have the key. -/
lemma lookup_eq_none_iff : table.lookup key = none ↔ key ∉ table.map Prod.fst := by
  rw [List.lookup_eq_none_iff, List.mem_map]
  simp only [bne_iff_ne]
  exact ⟨fun h ⟨entry, hentry, heq⟩ => h entry hentry heq.symm,
    fun h entry hentry heq => h ⟨entry, hentry, heq.symm⟩⟩

end Lookup

/-- Two kana are spelled with letters. -/
lemma isSpelling_of_lookup_digraphs {pair : Char × Char} {letters : String}
    (h : digraphs.lookup pair = some letters) : isSpelling letters.toList = true :=
  of_lookup (p := fun _ letters => isSpelling letters.toList) (by decide +kernel) h

/-- One kana is spelled with letters. -/
lemma isSpelling_of_lookup_syllables {c : Char} {letters : String}
    (h : syllables.lookup c = some letters) : isSpelling letters.toList = true :=
  of_lookup (p := fun _ letters => isSpelling letters.toList) (by decide +kernel) h

/-- The first of two kana that have a spelling together has one of its own. -/
lemma mem_syllables_of_lookup_digraphs {c d : Char} {letters : String}
    (h : digraphs.lookup (c, d) = some letters) : c ∈ syllables.map Prod.fst :=
  of_decide_eq_true
    (of_lookup (p := fun pair _ => pair.1 ∈ syllables.map Prod.fst) (by decide +kernel) h)

/-- Kana stand behind the Latin letters. -/
lemma not_isKana_of_latin {c : Char} (h : c ≤ 'z') : ¬ IsKana c := by
  have hsyllables : ((syllables.map Prod.fst).all fun d => 'z' < d) = true := by decide +kernel
  rintro (hc | rfl | rfl | hc)
  · exact absurd (of_decide_eq_true (List.all_eq_true.1 hsyllables c hc)) (not_lt_of_ge h)
  · exact absurd h (by decide)
  · exact absurd h (by decide)
  · have hle : c.toNat ≤ 122 := h
    omega

/-- Katakana is folded. -/
lemma toHiragana_not_katakana (c : Char) :
    ¬ (0x30a1 ≤ (toHiragana c).toNat ∧ (toHiragana c).toNat ≤ 0x30f6) := by
  unfold toHiragana
  split_ifs with h
  · rw [toNat_ofNat (.inl (by omega))]
    omega
  · exact h

/-- Characters that are not replaced stay as they are. -/
lemma toHiragana_of_not_isKana {c : Char} (h : ¬ IsKana c) : toHiragana c = c :=
  if_neg fun hc => h (.inr (.inr (.inr hc)))

/-! ## Units -/

/-- Two kana with a spelling of their own are one unit. -/
lemma segment_of_lookup {c d : Char} {letters : String}
    (h : digraphs.lookup (c, d) = some letters) (rest : List Char) :
    segment (c :: d :: rest) = .syllable letters.toList :: segment rest := by
  rw [segment, h]

/-- Otherwise the first character is a unit of its own. -/
lemma segment_of_lookup_none {c d : Char} (h : digraphs.lookup (c, d) = none)
    (rest : List Char) : segment (c :: d :: rest) = single c :: segment (d :: rest) := by
  rw [segment, h]

/-- The units of two texts one behind the other, if no kana of the one makes a unit with a kana of
the other. -/
theorem segment_append {x y : List Char}
    (h : ∀ c ∈ x.getLast?, ∀ d ∈ y.head?, digraphs.lookup (c, d) = none) :
    segment (x ++ y) = segment x ++ segment y := by
  induction x using segment.induct with
  | case1 => rfl
  | case2 c =>
    cases y with
    | nil => rfl
    | cons d y => exact segment_of_lookup_none (h c rfl d rfl) y
  | case3 c d rest letters hpair ih =>
    -- the cut is behind `rest`, even if nothing is left of the text
    rw [List.cons_append, List.cons_append, segment_of_lookup hpair, segment_of_lookup hpair,
      List.cons_append,
      ih fun e he => h e (List.mem_getLast?_cons (List.mem_getLast?_cons he))]
  | case4 c d rest hpair ih =>
    rw [List.cons_append, List.cons_append, segment_of_lookup_none hpair,
      segment_of_lookup_none hpair, List.cons_append, ← List.cons_append,
      ih fun e he => h e (by rwa [List.getLast?_cons_cons])]

/-- Only the small tsu doubles what follows. -/
lemma single_eq_doubling_iff {c : Char} : single c = .doubling ↔ c = smallTsu := by
  refine ⟨fun h => ?_, fun h => if_pos h⟩
  unfold single at h
  split_ifs at h with htsu
  · exact htsu
  · split at h <;> cases h

/-- A character that is neither of the two marks is a unit with letters of its own. -/
lemma exists_single {c : Char} (htsu : c ≠ smallTsu) (hmark : c ≠ longMark) :
    (∃ letters, isSpelling letters = true ∧ single c = .syllable letters) ∨
      single c = .other c := by
  rw [single, if_neg htsu, if_neg hmark]
  split
  · rename_i letters hlookup
    exact .inl ⟨_, isSpelling_of_lookup_syllables hlookup, rfl⟩
  · exact .inr rfl

/-- The first unit of a text. -/
lemma segment_cons (c : Char) (text : List Char) : ∃ piece rest,
    segment (c :: text) = piece :: rest ∧
      (piece = single c ∨ ∃ letters, isSpelling letters = true ∧ piece = .syllable letters) := by
  cases text with
  | nil => exact ⟨_, _, rfl, .inl rfl⟩
  | cons d text =>
    cases hpair : digraphs.lookup (c, d) with
    | some letters =>
      exact ⟨_, _, segment_of_lookup hpair text, .inr ⟨_, isSpelling_of_lookup_digraphs hpair, rfl⟩⟩
    | none => exact ⟨_, _, segment_of_lookup_none hpair text, .inl rfl⟩

/-- The last unit is a small tsu only where the text ends with it. -/
lemma getLast?_segment_ne_doubling {text : List Char} (h : ∀ c ∈ text.getLast?, c ≠ smallTsu) :
    (segment text).getLast? ≠ some .doubling := by
  induction text using segment.induct with
  | case1 => simp [segment]
  | case2 c =>
    rw [segment, List.getLast?_singleton, Option.some_inj.ne, Ne, single_eq_doubling_iff]
    exact h c rfl
  | case3 c d rest letters hpair ih =>
    have hrest := ih fun e he => h e (List.mem_getLast?_cons (List.mem_getLast?_cons he))
    rw [segment_of_lookup hpair, List.getLast?_cons]
    cases hlast : (segment rest).getLast? with
    | none => simp
    | some piece => rwa [hlast] at hrest
  | case4 c d rest hpair ih =>
    obtain ⟨piece, pieces, hpieces, -⟩ := segment_cons d rest
    rw [segment_of_lookup_none hpair, hpieces, List.getLast?_cons_cons, ← hpieces]
    exact ih fun e he => h e (by rwa [List.getLast?_cons_cons])

/-! ## Letters -/

/-- The letters of a unit behind the letter `last` and in front of other units. -/
def written (last : Option Char) (rest : List Piece) : Piece → List Char
  | .syllable letters => letters
  | .doubling => doubled rest
  | .lengthening => lengthened last
  | .other c => [c]

/-- The letters of one unit, and of the units behind it. -/
lemma spell_cons (last : Option Char) (piece : Piece) (rest : List Piece) :
    spell last (piece :: rest) = written last rest piece ++
      spell ((written last rest piece).getLast?.or last) rest := by
  cases piece <;> rfl

/-- Only the unit that follows at once is doubled. -/
lemma doubled_append {front : List Piece} (h : front ≠ []) (back : List Piece) :
    doubled (front ++ back) = doubled front := by
  rcases front with _ | ⟨_ | _ | _ | _, front⟩
  case nil => exact absurd rfl h
  case cons.syllable letters => cases letters <;> rfl
  all_goals rfl

/-- The letters of two rows of units one behind the other, if the first one does not end with a
small tsu. -/
theorem spell_append (last : Option Char) {front : List Piece} (back : List Piece)
    (h : front.getLast? ≠ some .doubling) :
    spell last (front ++ back) =
      spell last front ++ spell ((spell last front).getLast?.or last) back := by
  induction front generalizing last with
  | nil => rfl
  | cons piece front ih =>
    have hwritten : written last (front ++ back) piece = written last front piece := by
      cases piece with
      | syllable letters => rfl
      | doubling =>
        -- only as the last unit would it look at the second row
        refine doubled_append ?_ back
        rintro rfl
        exact h rfl
      | lengthening => rfl
      | other c => rfl
    have hfront : front.getLast? ≠ some .doubling := fun hlast => h (List.mem_getLast?_cons hlast)
    rw [List.cons_append, spell_cons, spell_cons, hwritten, ih _ hfront, List.append_assoc,
      List.getLast?_append, Option.or_assoc]

/-- A unit with letters of its own makes the letter in front of it invisible. -/
lemma spell_of_letters {piece : Piece} {letters : List Char} (hne : letters ≠ [])
    (h : ∀ last rest, written last rest piece = letters) (last : Option Char)
    (rest : List Piece) : spell last (piece :: rest) = spell none (piece :: rest) := by
  obtain ⟨c, hc⟩ := Option.ne_none_iff_exists'.1 (List.getLast?_eq_none_iff.not.2 hne)
  rw [spell_cons, spell_cons, h, h, hc]
  rfl

/-- A text that starts with neither of the two marks is spelled as if nothing were in front. -/
lemma spell_segment {text : List Char}
    (h : ∀ c ∈ text.head?, c ≠ smallTsu ∧ c ≠ longMark) (last : Option Char) :
    spell last (segment text) = spell none (segment text) := by
  cases text with
  | nil => rfl
  | cons c text =>
    obtain ⟨piece, rest, hsegment, hpiece⟩ := segment_cons c text
    obtain ⟨htsu, hmark⟩ := h c rfl
    have hletters : (∃ letters, isSpelling letters = true ∧ piece = .syllable letters) ∨
        piece = .other c := by
      rcases hpiece with rfl | hpiece
      · exact exists_single htsu hmark
      · exact .inl hpiece
    rw [hsegment]
    rcases hletters with ⟨letters, hletters, rfl⟩ | rfl
    · exact spell_of_letters (ne_nil_of_isSpelling hletters) (fun _ _ => rfl) last rest
    · exact spell_of_letters (List.cons_ne_nil c []) (fun _ _ => rfl) last rest

/-! ## What is left of the kana -/

/-- A unit whose own letters are no kana. -/
def Clean : Piece → Prop
  | .syllable letters => isSpelling letters = true
  | .other c => ¬ IsKana c
  | _ => True

/-- A unit of one character that is no katakana has no kana letters. -/
lemma clean_single {c : Char} (h : ¬ (0x30a1 ≤ c.toNat ∧ c.toNat ≤ 0x30f6)) :
    Clean (single c) := by
  unfold single
  split_ifs with htsu hmark
  · trivial
  · trivial
  · split
    · rename_i letters hlookup
      exact isSpelling_of_lookup_syllables hlookup
    · rename_i hlookup
      rintro (hc | hc | hc | hc)
      · exact lookup_eq_none_iff.1 hlookup hc
      · exact htsu hc
      · exact hmark hc
      · exact h hc

/-- In a text without katakana no unit has kana letters. -/
lemma clean_segment {text : List Char}
    (h : ∀ c ∈ text, ¬ (0x30a1 ≤ c.toNat ∧ c.toNat ≤ 0x30f6)) :
    ∀ piece ∈ segment text, Clean piece := by
  induction text using segment.induct with
  | case1 => exact List.forall_mem_nil _
  | case2 c => exact List.forall_mem_singleton.2 (clean_single (h c List.mem_cons_self))
  | case3 c d rest letters hpair ih =>
    rw [segment_of_lookup hpair]
    exact List.forall_mem_cons.2 ⟨isSpelling_of_lookup_digraphs hpair,
      ih (List.forall_mem_cons.1 (List.forall_mem_cons.1 h).2).2⟩
  | case4 c d rest hpair ih =>
    rw [segment_of_lookup_none hpair]
    exact List.forall_mem_cons.2 ⟨clean_single (h c List.mem_cons_self),
      ih (List.forall_mem_cons.1 h).2⟩

/-- What a small tsu doubles is a consonant of the syllable behind it. -/
lemma le_of_mem_doubled {rest : List Piece} (h : ∀ piece ∈ rest, Clean piece) {c : Char}
    (hc : c ∈ doubled rest) : c ≤ 'z' := by
  unfold doubled at hc
  split at hc
  · rename_i first letters rest
    split_ifs at hc
    · rw [List.mem_singleton.1 hc]
      decide
    · cases hc
    · rw [List.mem_singleton.1 hc]
      exact le_of_isSpelling (h _ List.mem_cons_self) List.mem_cons_self
  · cases hc

/-- A lengthened vowel has no character behind the letter z. -/
lemma le_of_mem_lengthened {last : Option Char} {c : Char} (hc : c ∈ lengthened last) :
    c ≤ 'z' := by
  unfold lengthened at hc
  split at hc
  · rename_i vowel
    split_ifs at hc with hvowel
    · rw [List.mem_singleton.1 hc]
      simp only [isVowel, Bool.or_eq_true, beq_iff_eq] at hvowel
      rcases hvowel with (((rfl | rfl) | rfl) | rfl) | rfl <;> decide
    · cases hc
  · cases hc

/-- No kana is left. -/
theorem not_isKana_of_mem_spell {pieces : List Piece} (h : ∀ piece ∈ pieces, Clean piece)
    (last : Option Char) : ∀ c ∈ spell last pieces, ¬ IsKana c := by
  induction pieces generalizing last with
  | nil => exact List.forall_mem_nil _
  | cons piece rest ih =>
    obtain ⟨hpiece, hrest⟩ := List.forall_mem_cons.1 h
    intro c hc
    rw [spell_cons] at hc
    rcases List.mem_append.1 hc with hc | hc
    · cases piece with
      | syllable letters => exact not_isKana_of_latin (le_of_isSpelling hpiece hc)
      | doubling => exact not_isKana_of_latin (le_of_mem_doubled hrest hc)
      | lengthening => exact not_isKana_of_latin (le_of_mem_lengthened hc)
      | other d =>
        rw [List.mem_singleton.1 hc]
        exact hpiece
    · exact ih hrest _ c hc

/-- Without kana each character is a unit of its own. -/
lemma segment_of_not_isKana {text : List Char} (h : ∀ c ∈ text, ¬ IsKana c) :
    segment text = text.map .other := by
  have hsingle {c : Char} (hc : ¬ IsKana c) : single c = .other c := by
    rw [single, if_neg fun htsu => hc (.inr (.inl htsu)),
      if_neg fun hmark => hc (.inr (.inr (.inl hmark))),
      lookup_eq_none_iff.2 fun hmem => hc (.inl hmem)]
  induction text using segment.induct with
  | case1 => rfl
  | case2 c => rw [segment, hsingle (h c List.mem_cons_self), List.map_singleton]
  | case3 c d rest letters hpair ih =>
    -- the first of two kana is a kana
    exact absurd (.inl (mem_syllables_of_lookup_digraphs hpair)) (h c List.mem_cons_self)
  | case4 c d rest hpair ih =>
    rw [segment_of_lookup_none hpair, hsingle (h c List.mem_cons_self),
      ih (List.forall_mem_cons.1 h).2, List.map_cons (l := d :: rest)]

/-- Units that are no kana are spelled as themselves. -/
lemma spell_map_other (last : Option Char) (text : List Char) :
    spell last (text.map .other) = text := by
  induction text generalizing last with
  | nil => rfl
  | cons c text ih =>
    rw [List.map_cons, spell_cons, ih]
    rfl

end Kana

/-! ## Texts -/

/-- Texts without kana stay as they are. -/
lemma romanize_of_not_isKana {text : String} (h : ∀ c ∈ text.toList, ¬ Kana.IsKana c) :
    romanize text = text := by
  have hfold : text.toList.map Kana.toHiragana = text.toList :=
    (List.map_congr_left fun c hc => Kana.toHiragana_of_not_isKana (h c hc)).trans (List.map_id _)
  rw [romanize, hfold, Kana.segment_of_not_isKana h, Kana.spell_map_other, String.ofList_toList]

/-- A romanized text has nothing to replace. -/
lemma not_isKana_of_mem_romanize (text : String) :
    ∀ c ∈ (romanize text).toList, ¬ Kana.IsKana c := by
  rw [romanize, String.toList_ofList]
  refine Kana.not_isKana_of_mem_spell (Kana.clean_segment fun c hc => ?_) none
  obtain ⟨d, -, rfl⟩ := List.mem_map.1 hc
  exact Kana.toHiragana_not_katakana d

/-- **Romanization is local**: two texts one behind the other are romanized as each of them by
itself, if the first one does not end with a small tsu, the second one starts with neither a small
tsu nor a lengthening mark, and the last kana of the first one has no spelling together with the
first kana of the second one. Katakana counts as hiragana.

**Proof sketch.** No unit reaches across the cut, so that the units of the whole are those of the
parts. The last unit of the first text is no small tsu, so that none of its units looks across the
cut. The first unit of the second text has letters of its own, so that no lengthening mark behind it
looks across the cut. -/
theorem romanize_append {x y : String}
    (hend : ∀ c ∈ x.toList.getLast?, Kana.toHiragana c ≠ Kana.smallTsu)
    (hstart : ∀ d ∈ y.toList.head?,
      Kana.toHiragana d ≠ Kana.smallTsu ∧ Kana.toHiragana d ≠ Kana.longMark)
    (hpair : ∀ c ∈ x.toList.getLast?, ∀ d ∈ y.toList.head?,
      (Kana.toHiragana c, Kana.toHiragana d) ∉ Kana.digraphs.map Prod.fst) :
    romanize (x ++ y) = romanize x ++ romanize y := by
  have hsegment : Kana.segment (x.toList.map Kana.toHiragana ++ y.toList.map Kana.toHiragana) =
      Kana.segment (x.toList.map Kana.toHiragana) ++
        Kana.segment (y.toList.map Kana.toHiragana) := by
    refine Kana.segment_append ?_
    simp only [List.getLast?_map, List.head?_map, Option.mem_map]
    rintro _ ⟨c, hc, rfl⟩ _ ⟨d, hd, rfl⟩
    exact Kana.lookup_eq_none_iff.2 (hpair c hc d hd)
  have hlast : (Kana.segment (x.toList.map Kana.toHiragana)).getLast? ≠ some .doubling := by
    refine Kana.getLast?_segment_ne_doubling ?_
    simp only [List.getLast?_map, Option.mem_map]
    rintro _ ⟨c, hc, rfl⟩
    exact hend c hc
  have hfirst (last : Option Char) :
      Kana.spell last (Kana.segment (y.toList.map Kana.toHiragana)) =
        Kana.spell none (Kana.segment (y.toList.map Kana.toHiragana)) := by
    refine Kana.spell_segment ?_ last
    simp only [List.head?_map, Option.mem_map]
    rintro _ ⟨d, hd, rfl⟩
    exact hstart d hd
  rw [romanize, String.toList_append, List.map_append, hsegment, Kana.spell_append _ _ hlast,
    hfirst, String.ofList_append]
  rfl

/-- A lengthened syllable and a doubled one behind two katakana that are one unit. -/
theorem romanize_append_lengthened :
    romanize ("マッチャ" ++ "ャーっぷ") = "matcha" ++ "yaappu" := by
  have hlast : "マッチャ".toList.getLast? = some 'ャ' := by decide
  have hfirst : "ャーっぷ".toList.head? = some 'ャ' := by decide
  have hcut := romanize_append (x := "マッチャ") (y := "ャーっぷ")
    (by simp only [hlast, Option.mem_some_iff, forall_eq']; decide)
    (by simp only [hfirst, Option.mem_some_iff, forall_eq']; decide)
    (by simp only [hlast, hfirst, Option.mem_some_iff, forall_eq']; decide)
  exact hcut

/-- **No kana is left**: a text in Latin letters has no kana with a spelling, no small tsu, no
lengthening mark and no katakana. So nothing changes when it is romanized again, and a text that has
none of these characters stays as it is. -/
theorem romanize_latinizes (text : String) :
    (∀ c ∈ (romanize text).toList, ¬ Kana.IsKana c) ∧
    romanize (romanize text) = romanize text ∧
    ((∀ c ∈ text.toList, ¬ Kana.IsKana c) → romanize text = text) :=
  ⟨not_isKana_of_mem_romanize text, romanize_of_not_isKana (not_isKana_of_mem_romanize text),
    romanize_of_not_isKana⟩

/-- Small kana that have no spelling, and Latin letters. -/
theorem romanize_latinizes_small_ka :
    (∀ c ∈ "ゕ-ka".toList, ¬ Kana.IsKana c) ∧ romanize "ゕ-ka" = "ゕ-ka" := by
  have hkana : ∀ c ∈ "ゕ-ka".toList, ¬ Kana.IsKana c := by
    intro c hc
    rcases List.mem_cons.1 hc with rfl | hc
    · decide
    · exact Kana.not_isKana_of_latin (by fin_cases hc <;> decide)
  exact ⟨hkana, (romanize_latinizes "ゕ-ka").2.2 hkana⟩

end PatternSampler
