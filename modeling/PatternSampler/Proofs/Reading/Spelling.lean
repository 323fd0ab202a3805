import Mathlib.Data.List.TakeWhile
import Mathlib.Tactic.Common
import PatternSampler.Pattern.Token

set_option autoImplicit false

/-!
# The spelling of escapes and bracket expressions

What the readers of escapes and bracket expressions take from a text, said without positions: an
escape, or the items of a bracket expression, is spelled by some characters, and reading takes
exactly these.

## Main definitions

* `Slice.Starts` — a slice starts with some characters and goes on with another slice.
* `isSpecial` — the characters with a meaning of their own somewhere in a pattern.
* `Escape.Spelled` — the characters behind the backslash of an escape.
* `Draft.Spelled` — the items of a bracket expression, up to its closing bracket.

## Main results

* `readEscape_spelled`, `readBracket_spelled` — what the readers take is a spelling of what they
  yield.
-/

namespace PatternSampler

/-! ## Fronts of slices -/

/-- A slice starts with `text` and goes on with `rest`. -/
structure Slice.Starts (s : Slice) (text : List Char) (rest : Slice) : Prop where
  text_eq : s.text = text ++ rest.text
  start_eq : rest.start = s.start + text.length

namespace Slice.Starts

variable {s mid rest : Slice} {x y : List Char}

/-- Where nothing is read everything is left. -/
protected lemma refl (s : Slice) : s.Starts [] s := ⟨rfl, rfl⟩

/-- What is read in two steps is read in one. -/
protected lemma trans (h : s.Starts x mid) (h' : mid.Starts y rest) : s.Starts (x ++ y) rest := by
  refine ⟨?_, ?_⟩
  · rw [h.text_eq, h'.text_eq, List.append_assoc]
  · rw [h'.start_eq, h.start_eq, List.length_append, Nat.add_assoc]

/-- A slice is as long as what is read and what is left. -/
lemma length_eq (h : s.Starts x rest) : s.length = x.length + rest.length := by
  simp only [Slice.length, h.text_eq, List.length_append]

/-- What is left ends where the slice ends. -/
lemma stop_eq (h : s.Starts x rest) : rest.stop = s.stop := by
  have hlength := h.length_eq
  have hstart := h.start_eq
  simp only [stop]
  omega

/-- Dropping as many characters as a front has leaves what stands behind it. -/
lemma of_text_eq (h : s.text = x ++ y) {n : Nat} (hn : n = x.length) : s.Starts x (s.drop n) := by
  subst hn
  refine ⟨?_, rfl⟩
  simp [Slice.drop, h]

/-- One more character in front of what is read. -/
lemma cons {c : Char} (h : (s.drop 1).Starts x rest) (hs : s.text = c :: (s.drop 1).text) :
    s.Starts (c :: x) rest := by
  refine Slice.Starts.trans (x := [c]) ⟨hs, rfl⟩ h

end Slice.Starts

/-- A slice that is not empty is its first character and the others. -/
lemma Slice.text_eq_cons {s : Slice} {c : Char} {tail : List Char} (h : s.text = c :: tail) :
    s.text = c :: (s.drop 1).text := by
  simp [Slice.drop, h]

/-! ## Characters with a meaning -/

/-- The characters with a meaning of their own somewhere in a pattern. -/
def isSpecial (c : Char) : Bool :=
  c ∈ ['\\', '[', ']', '(', ')', '\x7b', '\x7d', '$', '|', ',']

/-- A character that has a property which no special one has is not special. -/
lemma isSpecial_eq_false_of {p : Char → Bool} {c : Char} (h : p c = true)
    (hp : ['\\', '[', ']', '(', ')', '\x7b', '\x7d', '$', '|', ','].any p = false) :
    isSpecial c = false := by
  by_contra hc
  rw [Bool.not_eq_false, isSpecial, decide_eq_true_eq] at hc
  exact List.any_eq_false.1 hp c hc h

/-- Digits are not special. -/
lemma isSpecial_of_isDigit {c : Char} (h : c.isDigit = true) : isSpecial c = false :=
  isSpecial_eq_false_of h (by decide)

/-- Letters and digits are not special. -/
lemma isSpecial_of_isAlphanum {c : Char} (h : c.isAlphanum = true) : isSpecial c = false :=
  isSpecial_eq_false_of h (by decide)

/-- Hexadecimal digits are not special. -/
lemma isSpecial_of_hexDigit? {c : Char} {n : Nat} (h : hexDigit? c = some n) :
    isSpecial c = false :=
  isSpecial_eq_false_of (p := fun c => (hexDigit? c).isSome) (by simp [h]) (by decide)

/-- Decimal digits are not special. -/
lemma isSpecial_of_decimalDigit? {c : Char} {n : Nat} (h : decimalDigit? c = some n) :
    isSpecial c = false :=
  isSpecial_eq_false_of (p := fun c => (decimalDigit? c).isSome) (by simp [h]) (by decide)

/-- Each character of a numeral is a digit. -/
lemma exists_digit_of_mem_digits? {digit? : Char → Option Nat} {text : List Char} {ns : List Nat}
    (h : digits? digit? text = some ns) {c : Char} (hc : c ∈ text) : ∃ n, digit? c = some n := by
  unfold digits? at h
  split at h
  · simp at h
  · clear * - h hc
    induction text generalizing ns with
    | nil => simp at hc
    | cons d rest ih =>
      rw [List.mapM_cons] at h
      obtain ⟨n, hn, h⟩ := Option.bind_eq_some_iff.1 h
      obtain ⟨ms, hms, -⟩ := Option.bind_eq_some_iff.1 h
      rcases List.mem_cons.1 hc with rfl | hc
      · exact ⟨n, hn⟩
      · exact ih hc hms

/-- No character of a code point is special. -/
lemma isSpecial_of_mem_codePoint? {text : List Char} {c d : Char} (h : codePoint? text = some c)
    (hd : d ∈ text) : isSpecial d = false := by
  have hdigits : ∃ ns, digits? hexDigit? (dropPlus text) = some ns := by
    unfold codePoint? at h
    split at h
    · rename_i hsome
      obtain ⟨ns, hns, -⟩ := Option.map_eq_some_iff.1 hsome
      exact ⟨ns, hns⟩
    · simp at h
  obtain ⟨ns, hns⟩ := hdigits
  unfold dropPlus at hns
  split at hns
  · rcases List.mem_cons.1 hd with rfl | hd
    · decide
    · obtain ⟨n, hn⟩ := exists_digit_of_mem_digits? hns hd
      exact isSpecial_of_hexDigit? hn
  · obtain ⟨n, hn⟩ := exists_digit_of_mem_digits? hns hd
    exact isSpecial_of_hexDigit? hn

/-! ## Escapes -/

/-- The characters behind the backslash of an escape. -/
inductive Escape.Spelled : Escape → List Char → Prop
  | digits : Spelled .digits ['d']
  | wordCharacters : Spelled .wordCharacters ['w']
  /-- A code point in four or eight digits. -/
  | codePoint {lead : Char} {digits : List Char} {c : Char}
      (hlead : lead = 'u' ∧ digits.length = 4 ∨ lead = 'U' ∧ digits.length = 8)
      (h : codePoint? digits = some c) : Spelled (.character c) (lead :: digits)
  /-- Any other character. -/
  | control {c : Char} (h : c ≠ 'd' ∧ c ≠ 'w' ∧ c ≠ 'u' ∧ c ≠ 'U') :
      Spelled (.character (controlOf c)) [c]

/-- An escape has at least one character behind its backslash. -/
lemma Escape.Spelled.length_pos {e : Escape} {text : List Char} (h : e.Spelled text) :
    0 < text.length := by
  cases h <;> exact Nat.succ_pos _

/-- A code point that was read stands in the text as its digits. -/
lemma readCodePoint_spelled {start count : Nat} {s rest : Slice} {c : Char}
    (h : readCodePoint start count s = .ok (c, rest)) :
    ∃ digits, digits.length = count ∧ codePoint? digits = some c ∧ s.Starts digits rest := by
  simp only [readCodePoint] at h
  split at h
  · simp at h
  · rename_i hlength
    split at h
    · rename_i c' hpoint
      simp only [Except.ok.injEq, Prod.mk.injEq] at h
      obtain ⟨rfl, rfl⟩ := h
      have hcount : (s.text.take count).length = count := by
        rw [List.length_take]
        simp only [Slice.length] at hlength
        omega
      exact ⟨s.text.take count, hcount, hpoint,
        .of_text_eq (List.take_append_drop count s.text).symm hcount.symm⟩
    · simp at h

/-- What is taken for an escape spells it. -/
theorem readEscape_spelled {start : Nat} {s rest : Slice} {e : Escape}
    (h : readEscape start s = .ok (some (e, rest))) :
    ∃ text, e.Spelled text ∧ s.Starts text rest := by
  -- both code point escapes read their digits in the same way
  have hpoint : ∀ {lead : Char} {count : Nat} {tail : List Char} {c : Char} {r : Slice},
      s.text = lead :: tail → (lead = 'u' ∧ count = 4 ∨ lead = 'U' ∧ count = 8) →
      readCodePoint start count (s.drop 1) = .ok (c, r) →
      ∃ text, (Escape.character c).Spelled text ∧ s.Starts text r := by
    intro lead count tail c r htext hlead hr
    obtain ⟨digits, hlength, hdigits, hstarts⟩ := readCodePoint_spelled hr
    refine ⟨lead :: digits, .codePoint ?_ hdigits, hstarts.cons (Slice.text_eq_cons htext)⟩
    rw [hlength]
    exact hlead
  unfold readEscape at h
  split at h
  case h_1 => simp at h
  case h_2 | h_3 =>
    rename_i htext
    simp only [Except.ok.injEq, Option.some.injEq, Prod.mk.injEq] at h
    obtain ⟨rfl, rfl⟩ := h
    exact ⟨_, by constructor, .of_text_eq (x := [_]) htext rfl⟩
  case h_4 | h_5 =>
    rename_i htext
    generalize hr : readCodePoint start _ (s.drop 1) = r at h
    cases r with
    | error f => simp [Except.map] at h
    | ok p =>
      simp only [Except.map, Except.ok.injEq, Option.some.injEq, Prod.mk.injEq] at h
      obtain ⟨rfl, rfl⟩ := h
      exact hpoint htext (by simp) hr
  case h_6 =>
    rename_i c tail hd hw hu hU htext
    simp only [Except.ok.injEq, Option.some.injEq, Prod.mk.injEq] at h
    obtain ⟨rfl, rfl⟩ := h
    refine ⟨[c], .control ⟨?_, ?_, ?_, ?_⟩, .of_text_eq (x := [c]) htext rfl⟩
    · rintro rfl; exact hd rfl
    · rintro rfl; exact hw rfl
    · rintro rfl; exact hu rfl
    · rintro rfl; exact hU rfl

/-- Only at the end of a text there is no escape. -/
lemma readEscape_eq_none {start : Nat} {s : Slice} (h : readEscape start s = .ok none) :
    s.text = [] := by
  unfold readEscape at h
  split at h
  case h_1 hnil => exact hnil
  case h_4 | h_5 =>
    generalize readCodePoint start _ (s.drop 1) = r at h
    cases r <;> simp [Except.map] at h
  all_goals simp at h

/-! ## Bracket expressions -/

/-- The items of a bracket expression up to its closing bracket, read behind what a draft holds,
and the set that the whole expression denotes. -/
inductive Draft.Spelled : Draft → List Char → CharSet → Prop
  | close (d : Draft) : Spelled d [']'] d.finish
  /-- A caret with nothing in front of it. -/
  | caret {d : Draft} {items : List Char} {set : CharSet} (hfresh : d.isFresh = true)
      (h : Spelled { d with negated := true } items set) : Spelled d ('^' :: items) set
  | escape {d : Draft} {e : Escape} {text items : List Char} {set : CharSet} (he : e.Spelled text)
      (h : Spelled (d.pushEscape e) items set) : Spelled d ('\\' :: (text ++ items)) set
  /-- A colon that starts no name. -/
  | colon {d : Draft} {items : List Char} {set : CharSet} (hname : Draft.setName? items = none)
      (h : Spelled (d.push ':') items set) : Spelled d (':' :: items) set
  | name {d : Draft} {name items : List Char} {ranges : List CharRange} {set : CharSet}
      (hne : name ≠ []) (hname : ∀ c ∈ name, c.isAlphanum = true)
      (hranges : CharSet.rangesOfName? (String.ofList name) = some ranges)
      (h : Spelled (d.extend ranges) items set) : Spelled d (':' :: (name ++ ':' :: items)) set
  /-- A dash that makes no range. -/
  | dash {d : Draft} {items : List Char} {set : CharSet}
      (hdash : d.rangeStart = none ∨ items.head? = some ']')
      (h : Spelled (d.push '-') items set) : Spelled d ('-' :: items) set
  | range {d : Draft} {low high : Char} {range : CharRange} {items : List Char} {set : CharSet}
      (hlow : d.rangeStart = some low) (hhigh : high ∉ [']', '[', '\x7b', '$', '\\'])
      (hrange : CharRange.ofChars? low high = some range)
      (h : Spelled (d.extend [range]) items set) : Spelled d ('-' :: high :: items) set
  | rangeEscape {d : Draft} {low high : Char} {range : CharRange} {text items : List Char}
      {set : CharSet} (hlow : d.rangeStart = some low)
      (he : (Escape.character high).Spelled text)
      (hrange : CharRange.ofChars? low high = some range)
      (h : Spelled (d.extend [range]) items set) : Spelled d ('-' :: '\\' :: (text ++ items)) set
  | member {d : Draft} {c : Char} {items : List Char} {set : CharSet}
      (hc : c ∉ [']', '[', '\x7b', '$', '\\', ':', '-']) (hcaret : c ≠ '^' ∨ d.isFresh = false)
      (h : Spelled (d.push c) items set) : Spelled d (c :: items) set

namespace Draft

/-- The items of a bracket expression hold its closing bracket. -/
lemma Spelled.mem_items {d : Draft} {items : List Char} {set : CharSet} (h : d.Spelled items set) :
    ']' ∈ items := by
  induction h <;> simp_all

/-- What stands behind a closing bracket says nothing about a name in front of it. -/
lemma setName?_append {x : List Char} (hx : ']' ∈ x) (y : List Char) :
    setName? (x ++ y) = setName? x := by
  obtain ⟨front, back, rfl⟩ := List.append_of_mem hx
  have hwhile : ∀ z : List Char,
      (front ++ ']' :: z).takeWhile Char.isAlphanum = front.takeWhile Char.isAlphanum := by
    intro z
    rw [List.takeWhile_append]
    split
    · rename_i hall
      rw [List.takeWhile_cons_of_neg (by decide), List.append_nil]
      exact ((List.takeWhile_prefix _).eq_of_length hall).symm
    · rfl
  have hlength : (front.takeWhile Char.isAlphanum).length ≤ front.length :=
    (List.takeWhile_sublist _).length_le
  simp only [setName?, List.append_assoc, List.cons_append, hwhile]
  rw [List.drop_append_of_le_length hlength, List.drop_append_of_le_length hlength]
  cases front.drop (front.takeWhile Char.isAlphanum).length with
  | nil => rfl
  | cons c _ => by_cases hc : c = ':' <;> simp [hc]

/-- What one item of a bracket expression takes, seen from the items behind it: either there are
no characters left, or the characters taken can be put in front of any spelling that follows. -/
def Extends (d : Draft) (s : Slice) (d' : Draft) (rest : Slice) : Prop :=
  rest.text = [] ∨ ∃ front, s.Starts front rest ∧
    ∀ {items set tail}, rest.text = items ++ tail → d'.Spelled items set →
      d.Spelled (front ++ items) set

/-- A colon takes itself alone, or the name of a set up to the second colon. -/
lemma stepName_extends {position : Nat} {s rest : Slice} {d d' : Draft} {tail : List Char}
    (hs : s.text = ':' :: tail)
    (h : d.stepName position (s.drop 1) = .ok (.more d' rest)) : d.Extends s d' rest := by
  unfold stepName at h
  split at h
  · rename_i hname
    simp only [Except.ok.injEq, BracketStep.more.injEq] at h
    obtain ⟨rfl, rfl⟩ := h
    refine .inr ⟨[':'], .of_text_eq (x := [':']) hs rfl, fun hrest hitems => ?_⟩
    rw [hrest, setName?_append hitems.mem_items] at hname
    exact .colon hname hitems
  · rename_i name hname
    split at h
    · rename_i ranges hranges
      simp only [Except.ok.injEq, BracketStep.more.injEq] at h
      obtain ⟨rfl, rfl⟩ := h
      simp only [setName?] at hname
      split at hname
      · rename_i back hback
        split at hname
        · simp at hname
        · rename_i hne
          rw [Option.some.injEq] at hname
          rw [hname] at hback hne
          have hprefix : name <+: (s.drop 1).text := hname ▸ List.takeWhile_prefix _
          obtain ⟨after, hafter⟩ := hprefix
          rw [← hafter, List.drop_left] at hback
          refine .inr ⟨':' :: (name ++ [':']), .cons (.of_text_eq (y := back) ?_ ?_)
            (Slice.text_eq_cons hs), fun _ hitems => ?_⟩
          · rw [← hafter, hback, List.append_assoc]
            rfl
          · rw [List.length_append]
            rfl
          · rw [List.cons_append, List.append_assoc]
            refine .name ?_ ?_ hranges hitems
            · simpa using hne
            · intro c hc
              rw [← hname] at hc
              exact List.mem_takeWhile_imp hc
      · simp at hname
    · simp at h

/-- A range that was closed is added to the draft. -/
lemma closeRange_eq_more {position : Nat} {low high : Char} {s rest : Slice} {d d' : Draft}
    (h : d.closeRange position low high s = .ok (.more d' rest)) :
    ∃ range, CharRange.ofChars? low high = some range ∧ d' = d.extend [range] ∧ rest = s := by
  unfold closeRange at h
  split at h
  · rename_i range hrange
    simp only [Except.ok.injEq, BracketStep.more.injEq] at h
    exact ⟨range, hrange, h.1.symm, h.2.symm⟩
  · simp at h

/-- A range takes the hyphen and its upper end. -/
lemma stepRangeEnd_extends {position : Nat} {low c : Char} {s rest : Slice} {d d' : Draft}
    {tail : List Char} (hlow : d.rangeStart = some low) (hc : c ≠ ']')
    (hs : s.text = '-' :: c :: tail)
    (h : d.stepRangeEnd position low c ((s.drop 1).drop 1) = .ok (.more d' rest)) :
    d.Extends s d' rest := by
  have hdash := Slice.text_eq_cons hs
  have hend : (s.drop 1).text = c :: tail := by simp [Slice.drop, hs]
  have hback : ((s.drop 1).drop 1).text = tail := by simp [Slice.drop, hs]
  unfold stepRangeEnd at h
  split at h
  · simp at h
  rename_i hopen
  split at h
  · simp at h
  rename_i hforbidden
  split at h
  · rename_i hescape
    subst hescape
    split at h
    · simp at h
    · rename_i hread
      simp only [Except.ok.injEq, BracketStep.more.injEq] at h
      obtain ⟨rfl, rfl⟩ := h
      exact .inl (readEscape_eq_none hread)
    · rename_i high rest' hread
      obtain ⟨text, htext, hstarts⟩ := readEscape_spelled hread
      obtain ⟨range, hrange, rfl, rfl⟩ := closeRange_eq_more h
      refine .inr ⟨'-' :: '\\' :: text, .cons (.cons hstarts (Slice.text_eq_cons hend)) hdash,
        fun _ hitems => ?_⟩
      exact .rangeEscape hlow htext hrange hitems
    · simp at h
  · rename_i hescape
    obtain ⟨range, hrange, rfl, rfl⟩ := closeRange_eq_more h
    refine .inr ⟨['-', c], .cons (.of_text_eq (x := [c]) hend rfl) hdash, fun _ hitems => ?_⟩
    refine .range hlow ?_ hrange hitems
    simp only [List.mem_cons, List.not_mem_nil, or_false]
    tauto

/-- A hyphen takes itself alone, or a range with it. -/
lemma stepRange_extends {position : Nat} {s rest : Slice} {d d' : Draft} {tail : List Char}
    (hs : s.text = '-' :: tail)
    (h : d.stepRange position (s.drop 1) = .ok (.more d' rest)) : d.Extends s d' rest := by
  have hdash : s.Starts ['-'] (s.drop 1) := .of_text_eq (x := ['-']) hs rfl
  unfold stepRange at h
  split at h
  · rename_i low c back hlow hback
    split at h
    · rename_i hclose
      subst hclose
      simp only [Except.ok.injEq, BracketStep.more.injEq] at h
      obtain ⟨rfl, rfl⟩ := h
      refine .inr ⟨['-'], hdash, fun {items set tail} hrest hitems => .dash (.inr ?_) hitems⟩
      cases items with
      | nil => exact absurd hitems.mem_items (List.not_mem_nil)
      | cons c items =>
        rw [hback, List.cons_append, List.cons.injEq] at hrest
        exact congrArg some hrest.1.symm
    · rename_i hclose
      have htext : s.text = '-' :: c :: back := by rw [Slice.text_eq_cons hs, hback]
      exact stepRangeEnd_extends hlow hclose htext h
  · rename_i hnone
    simp only [Except.ok.injEq, BracketStep.more.injEq] at h
    obtain ⟨rfl, rfl⟩ := h
    rcases hstart : d.rangeStart with _ | low
    · exact .inr ⟨['-'], hdash, fun _ hitems => .dash (.inl hstart) hitems⟩
    · cases hback : (s.drop 1).text with
      | nil => exact .inl hback
      | cons c back => exact absurd hback (hnone low c back hstart)

/-- An item takes the characters that it is made of. -/
lemma step_extends {position : Nat} {c : Char} {s rest : Slice} {d d' : Draft} {tail : List Char}
    (hs : s.text = c :: tail) (h : d.step position c (s.drop 1) = .ok (.more d' rest)) :
    d.Extends s d' rest := by
  have hfirst : s.Starts [c] (s.drop 1) := .of_text_eq (x := [c]) hs rfl
  unfold step at h
  split at h
  · simp at h
  rename_i hclose
  split at h
  · rename_i hcaret
    obtain ⟨rfl, hfresh⟩ := hcaret
    simp only [Except.ok.injEq, BracketStep.more.injEq] at h
    obtain ⟨rfl, rfl⟩ := h
    exact .inr ⟨['^'], hfirst, fun _ hitems => .caret hfresh hitems⟩
  rename_i hcaret
  split at h
  · simp at h
  rename_i hopen
  split at h
  · simp at h
  rename_i hforbidden
  split at h
  · rename_i hescape
    subst hescape
    split at h
    · simp at h
    · rename_i hread
      simp only [Except.ok.injEq, BracketStep.more.injEq] at h
      obtain ⟨rfl, rfl⟩ := h
      exact .inl (readEscape_eq_none hread)
    · rename_i e rest' hread
      obtain ⟨text, htext, hstarts⟩ := readEscape_spelled hread
      simp only [Except.ok.injEq, BracketStep.more.injEq] at h
      obtain ⟨rfl, rfl⟩ := h
      exact .inr ⟨'\\' :: text, .cons hstarts (Slice.text_eq_cons hs),
        fun _ hitems => .escape htext hitems⟩
  rename_i hescape
  split at h
  · rename_i hcolon
    subst hcolon
    exact stepName_extends hs h
  rename_i hcolon
  split at h
  · rename_i hdash
    subst hdash
    exact stepRange_extends hs h
  rename_i hdash
  simp only [Except.ok.injEq, BracketStep.more.injEq] at h
  obtain ⟨rfl, rfl⟩ := h
  refine .inr ⟨[c], hfirst, fun _ hitems => .member ?_ ?_ hitems⟩
  · simp only [List.mem_cons, List.not_mem_nil, or_false]
    tauto
  · rw [← Bool.not_eq_true]
    tauto

/-- The name of a set does not close the bracket expression. -/
lemma stepName_ne_closed {position : Nat} {s rest : Slice} {d : Draft} :
    d.stepName position s ≠ .ok (.closed rest) := by
  unfold stepName
  split
  · simp
  · split <;> simp

/-- A range does not close the bracket expression. -/
lemma closeRange_ne_closed {position : Nat} {low high : Char} {s rest : Slice} {d : Draft} :
    d.closeRange position low high s ≠ .ok (.closed rest) := by
  unfold closeRange
  split <;> simp

/-- A hyphen does not close the bracket expression. -/
lemma stepRange_ne_closed {position : Nat} {s rest : Slice} {d : Draft} :
    d.stepRange position s ≠ .ok (.closed rest) := by
  unfold stepRange
  split
  · split
    · simp
    · unfold stepRangeEnd
      split
      · simp
      split
      · simp
      split
      · split
        · simp
        · simp
        · exact closeRange_ne_closed
        · simp
      · exact closeRange_ne_closed
  · simp

/-- Only the closing bracket ends a bracket expression. -/
lemma step_eq_closed {position : Nat} {c : Char} {s rest : Slice} {d : Draft}
    (h : d.step position c s = .ok (.closed rest)) : c = ']' ∧ rest = s := by
  unfold step at h
  split at h
  · rename_i hclose
    simp only [Except.ok.injEq, BracketStep.closed.injEq] at h
    exact ⟨hclose, h.symm⟩
  split at h
  · simp at h
  split at h
  · simp at h
  split at h
  · simp at h
  split at h
  · split at h <;> simp at h
  split at h
  · exact absurd h stepName_ne_closed
  split at h
  · exact absurd h stepRange_ne_closed
  · simp at h

end Draft

/-- A bracket expression does not end with the text. -/
lemma readBracket_ne_of_nil {opening : Nat} {d : Draft} {s rest : Slice} {set : CharSet}
    (hs : s.text = []) : readBracket opening d s ≠ .ok (set, rest) := by
  unfold readBracket
  split
  · simp
  · simp_all

/-- What is taken for a bracket expression spells the set that it denotes. -/
theorem readBracket_spelled {opening : Nat} {d : Draft} {s rest : Slice} {set : CharSet}
    (h : readBracket opening d s = .ok (set, rest)) :
    ∃ items, d.Spelled items set ∧ s.Starts items rest := by
  fun_induction readBracket opening d s with
  | case1 => simp at h
  | case2 => simp at h
  | case3 d s c tail htext rest' hstep =>
    obtain ⟨rfl, rfl⟩ := Draft.step_eq_closed hstep
    simp only [Except.ok.injEq, Prod.mk.injEq] at h
    obtain ⟨rfl, rfl⟩ := h
    exact ⟨[']'], .close d, .of_text_eq (x := [']']) htext rfl⟩
  | case4 d s c tail htext d' rest' hstep ih =>
    obtain ⟨items, hitems, hstarts⟩ := ih h
    rcases Draft.step_extends htext hstep with hnil | ⟨front, hfront, hextend⟩
    · exact absurd h (readBracket_ne_of_nil hnil)
    · exact ⟨front ++ items, hextend hstarts.text_eq hitems, hfront.trans hstarts⟩

end PatternSampler
