import PatternSampler.Proofs.Language.Cutting
import PatternSampler.Proofs.Reading.Append
import PatternSampler.Proofs.Reading.Shift

set_option autoImplicit false

/-!
# Texts in parentheses

A balanced text without bars at its top level can be put in parentheses, with plain characters
around them. Three scans then agree on where it ends: the one that closes parentheses, the one that
cuts at bars, and the one that reads tokens.

## Main definitions

* `IsPlain` — a character with no meaning of its own in a pattern.
* `endsInBackslash` — a text ends with a backslash that escapes nothing.
* `Enclosable` — a text that can be put in parentheses.
* `enclose` — a text in parentheses, with texts around them.
* `Pattern.ofCharacters` — a row of characters.

## Main results

* `closeParenthesis_of_splitFrom` — a text that can be cut is closed where it ends.
* `Enclosable.enclose` — an enclosed text can be enclosed again.
* `Pattern.ofSlice_enclose` — the tree of an enclosed text.
-/

namespace PatternSampler

/-! ## Texts that can be enclosed -/

/-- Whether a character has no meaning of its own, also between branches. -/
def IsPlain (c : Char) : Prop := isStructural c = false ∧ c ≠ '|'

/-- Whether a character is plain can be computed. -/
instance (c : Char) : Decidable (IsPlain c) := inferInstanceAs (Decidable (_ ∧ _))

/-- Whether a text ends with a backslash that is not escaped itself. Each backslash takes the
character behind it along. -/
def endsInBackslash : List Char → Bool
  | [] => false
  | [c] => c == '\\'
  | c :: d :: rest => if c = '\\' then endsInBackslash rest else endsInBackslash (d :: rest)

/-- A text that is a single part when it is cut at bars, and that leaves nothing to be escaped. -/
structure Enclosable (text : List Char) : Prop where
  single : ∃ part, (Slice.whole text).split '|' = .ok [part]
  unescaped : endsInBackslash text = false

/-- The text in parentheses, with `front` and `back` around them. -/
def enclose (front back text : List Char) : List Char := front ++ '(' :: (text ++ ')' :: back)

section Zones

/-- Whether a character stands behind a backslash. -/
def Zone.isEscaped : Zone → Bool
  | escaped | bracketEscaped => true
  | plain | bracket => false

/-- A text escapes what follows exactly if it ends with a backslash of its own. -/
lemma isEscaped_after {z : Zone} (hz : z.isEscaped = false) (text : List Char) :
    (z.after text).isEscaped = endsInBackslash text := by
  fun_induction endsInBackslash text generalizing z with
  | case1 => exact hz
  | case2 c =>
    cases z with
    | escaped | bracketEscaped => cases hz
    | plain | bracket =>
      simp only [Zone.after_cons, Zone.after_nil, Zone.next]
      by_cases hc : c = '\\'
      · simp [hc, Zone.isEscaped]
      · rw [if_neg hc, beq_eq_false_iff_ne.2 hc]
        split <;> rfl
  | case3 d rest ih =>
    cases z with
    | escaped | bracketEscaped => cases hz
    | plain | bracket => exact ih rfl
  | case4 c d rest hc ih =>
    rw [Zone.after_cons]
    apply ih
    cases z with
    | escaped | bracketEscaped => cases hz
    | plain | bracket =>
      simp only [Zone.next, if_neg hc]
      split <;> rfl

/-- A plain character leaves the plain zone as it is. -/
lemma IsPlain.next_eq {c : Char} (h : IsPlain c) : Zone.plain.next c = .plain := by
  have hc : c ≠ '\\' ∧ c ≠ '[' := by
    constructor
    all_goals
      rintro rfl
      cases h.1
  simp [Zone.next, hc.1, hc.2]

/-- Several plain characters leave the plain zone as it is. -/
lemma after_plain {text : List Char} (h : ∀ c ∈ text, IsPlain c) :
    Zone.plain.after text = .plain := by
  induction text with
  | nil => rfl
  | cons c text ih =>
    obtain ⟨hc, htext⟩ := List.forall_mem_cons.1 h
    rw [Zone.after_cons, hc.next_eq, ih htext]

end Zones

/-! ## Cutting and closing -/

namespace Nesting

/-- In a bracket expression the innermost opener is its bracket. -/
def WellFormed (n : Nesting) : Prop :=
  n.zone = .bracket ∨ n.zone = .bracketEscaped →
    ∃ position outer, n.opens = (position, '[') :: outer

/-- The number of parentheses that are open. -/
def parentheses (n : Nesting) : Nat := n.opens.countP fun opener => opener.2 == '('

variable {n n' : Nesting} {position : Nat} {c : Char}

/-- At the start of a text no bracket is open. -/
lemma wellFormed_outermost : outermost.WellFormed := by
  rintro (h | h) <;> cases h

/-- What a step does to a nesting: outside bracket expressions it opens, closes, or does neither.
In a bracket expression only its end counts. -/
lemma step_cases (h : n.step position c = .ok n') :
    (n.zone = .plain ∧ isOpener c = true ∧ n' = ⟨n.zone.next c, (position, c) :: n.opens⟩) ∨
    (n.zone = .plain ∧ isOpener c = false ∧ isCloser c = true ∧ ∃ opener outer,
      n.opens = opener :: outer ∧ closerOf opener.2 = c ∧ n' = ⟨.plain, outer⟩) ∨
    (n.zone = .plain ∧ isOpener c = false ∧ isCloser c = false ∧ n' = ⟨n.zone.next c, n.opens⟩) ∨
    (n.zone = .bracket ∧ c = ']' ∧ n' = ⟨.plain, n.opens.tail⟩) ∨
    (n.zone = .bracket ∧ c ≠ ']' ∧ n' = ⟨n.zone.next c, n.opens⟩) ∨
    (n.zone.isEscaped = true ∧ n' = ⟨n.zone.next c, n.opens⟩) := by
  obtain ⟨zone, opens⟩ := n
  cases zone with
  | plain =>
    simp only [step] at h
    split at h
    · cases h
      exact .inl ⟨rfl, ‹_›, rfl⟩
    rename_i hopener
    rw [Bool.not_eq_true] at hopener
    split at h
    · rename_i hcloser
      split at h
      · rename_i start opener outer
        split at h
        · rename_i heq
          cases h
          exact .inr (.inl ⟨rfl, hopener, hcloser, (start, opener), outer, rfl, heq, rfl⟩)
        · cases h
      · cases h
    · rename_i hcloser
      rw [Bool.not_eq_true] at hcloser
      cases h
      exact .inr (.inr (.inl ⟨rfl, hopener, hcloser, rfl⟩))
  | bracket =>
    simp only [step, Except.ok.injEq] at h
    subst h
    by_cases hc : c = ']'
    · subst hc
      exact .inr (.inr (.inr (.inl ⟨rfl, rfl, rfl⟩)))
    · rw [if_neg hc]
      exact .inr (.inr (.inr (.inr (.inl ⟨rfl, hc, rfl⟩))))
  | escaped | bracketEscaped =>
    cases h
    exact .inr (.inr (.inr (.inr (.inr ⟨rfl, rfl⟩))))

/-- A character keeps a nesting well-formed. -/
lemma WellFormed.step (hn : n.WellFormed) (h : n.step position c = .ok n') : n'.WellFormed := by
  rcases step_cases h with ⟨hz, hc, rfl⟩ | ⟨hz, -, -, opener, outer, -, -, rfl⟩ | ⟨hz, hc, -, rfl⟩ |
    ⟨hz, -, rfl⟩ | ⟨hz, hc, rfl⟩ | ⟨hz, rfl⟩
  · rw [hz]
    intro hbracket
    refine ⟨position, n.opens, ?_⟩
    simp only [Zone.next] at hbracket ⊢
    split at hbracket
    · simp at hbracket
    · split at hbracket
      · rename_i hc
        rw [hc]
      · simp at hbracket
  · rintro (h | h) <;> cases h
  · rw [hz]
    simp only [isOpener, Bool.or_eq_false_iff, beq_eq_false_iff_ne] at hc
    intro hbracket
    simp only [Zone.next, hc, if_false] at hbracket
    split at hbracket <;> simp at hbracket
  · rintro (h | h) <;> cases h
  · intro _
    exact hn (.inl hz)
  · intro hbracket
    apply hn
    cases hzone : n.zone with
    | plain | bracket =>
      rw [hzone] at hz
      cases hz
    | escaped =>
      rw [hzone] at hbracket
      simp [Zone.next] at hbracket
    | bracketEscaped => exact .inr rfl

/-- Only parentheses outside bracket expressions change the number of open ones. -/
lemma parentheses_step (hn : n.WellFormed) (h : n.step position c = .ok n') :
    if n.zone = .plain ∧ c = ')' then n.parentheses = n'.parentheses + 1
    else n'.parentheses =
      if n.zone = .plain ∧ c = '(' then n.parentheses + 1 else n.parentheses := by
  rcases step_cases h with ⟨hz, hc, rfl⟩ | ⟨hz, hc, hc', opener, outer, hopens, hcloser, rfl⟩ |
    ⟨hz, hc, hc', rfl⟩ | ⟨hz, rfl, rfl⟩ | ⟨hz, -, rfl⟩ | ⟨hz, rfl⟩
  · simp only [isOpener, Bool.or_eq_true, beq_iff_eq] at hc
    rcases hc with (rfl | rfl) | rfl <;> simp [hz, parentheses]
  · simp only [isCloser, Bool.or_eq_true, beq_iff_eq] at hc'
    have hopener : opener.2 = '(' ↔ c = ')' := by
      rw [← hcloser, closerOf]
      split
      · simp_all
      · split <;> simp_all
    rcases hc' with rfl | rfl
    · simp [hz, parentheses, hopens, hopener.2 rfl]
    · have hother : opener.2 ≠ '(' := fun heq => absurd (hopener.1 heq) (by decide)
      simp [hz, parentheses, hopens, hother]
  · simp only [isOpener, isCloser, Bool.or_eq_false_iff, beq_eq_false_iff_ne] at hc hc'
    simp [hc, hc', parentheses]
  · obtain ⟨start, outer, hopens⟩ := hn (.inl hz)
    simp [hz, parentheses, hopens]
  · simp [hz, parentheses]
  · have hplain : n.zone ≠ .plain := by
      intro heq
      rw [heq] at hz
      cases hz
    simp [hplain, parentheses]

/-- Openers further out do not matter for a step. -/
lemma step_append (hn : n.WellFormed) (h : n.step position c = .ok n')
    (outer : List (Nat × Char)) :
    (⟨n.zone, n.opens ++ outer⟩ : Nesting).step position c =
      .ok ⟨n'.zone, n'.opens ++ outer⟩ := by
  rcases step_cases h with ⟨hz, hc, rfl⟩ | ⟨hz, hc, hc', opener, inner, hopens, hcloser, rfl⟩ |
    ⟨hz, hc, hc', rfl⟩ | ⟨hz, rfl, rfl⟩ | ⟨hz, hc, rfl⟩ | ⟨hz, rfl⟩
  · simp [step, hz, hc]
  · simp [step, hz, hc, hc', hopens, hcloser]
  · simp [step, hz, hc, hc']
  · obtain ⟨start, inner, hopens⟩ := hn (.inl hz)
    simp [step, hz, hopens, Zone.next]
  · simp [step, hz, hc]
  · cases hzone : n.zone with
    | plain | bracket =>
      rw [hzone] at hz
      cases hz
    | escaped | bracketEscaped => rfl

/-- A text is cut outside every opener, at a character that is neither one itself nor escapes
anything. -/
lemma eq_of_cutsAt {separator : Char} (h : n.cutsAt separator c = true) :
    n = outermost ∧ c = separator ∧ Zone.plain.next c = .plain ∧ c ≠ '(' ∧ c ≠ ')' := by
  obtain ⟨zone, opens⟩ := n
  simp only [cutsAt, isOpener, isCloser, Bool.and_eq_true, beq_iff_eq, List.isEmpty_iff,
    Bool.not_eq_true', Bool.or_eq_false_iff, beq_eq_false_iff_ne] at h
  obtain ⟨⟨⟨rfl, rfl⟩, rfl⟩, ⟨hescape, ⟨hopen, hbracket⟩, -⟩, hclose, -⟩ := h
  exact ⟨rfl, rfl, by simp [Zone.next, hescape, hbracket], hopen, hclose⟩

end Nesting

open Nesting

/-- A closing parenthesis closes the innermost open one. -/
lemma closeParenthesis_pop (depth : Nat) (text : List Char) :
    closeParenthesis .plain (depth + 1) (')' :: text) =
      (closeParenthesis .plain depth text).map fun (body, rest) => (')' :: body, rest) := rfl

/-- Any other character is passed over, and an opening parenthesis has to be closed as well. -/
lemma closeParenthesis_of_ne {zone : Zone} {c : Char} (h : ¬(zone = .plain ∧ c = ')'))
    (depth : Nat) (text : List Char) :
    closeParenthesis zone depth (c :: text) =
      (closeParenthesis (zone.next c) (if zone = .plain ∧ c = '(' then depth + 1 else depth)
        text).map fun (body, rest) => (c :: body, rest) := by
  conv_lhs => unfold closeParenthesis
  rw [if_neg h]

/-- A text that can be cut is closed where it ends: a parenthesis behind it closes the one in front
of it.

**Proof sketch.** By induction on the text. Cutting keeps all openers, and closing counts the
parentheses among them. What cutting takes off its openers at a closing parenthesis is a
parenthesis, since openers and closers match. -/
theorem closeParenthesis_of_splitFrom {separator : Char} {n : Nesting} {position : Nat}
    {text part : List Char} {later : List Slice} (hn : n.WellFormed)
    (h : splitFrom separator n position text = .ok (part, later))
    (hend : (n.zone.after text).isEscaped = false) (rest : List Char) :
    closeParenthesis n.zone n.parentheses (text ++ ')' :: rest) = some (text, rest) := by
  induction text generalizing n position part later with
  | nil =>
    rw [splitFrom] at h
    split at h
    · rename_i hopens
      have hplain : n.zone = .plain := by
        cases hzone : n.zone with
        | plain => rfl
        | bracket =>
          obtain ⟨start, outer, hbracket⟩ := hn (.inl hzone)
          rw [hopens] at hbracket
          cases hbracket
        | escaped | bracketEscaped =>
          rw [hzone] at hend
          cases hend
      rw [hplain, parentheses, hopens]
      rfl
    · cases h
  | cons c tail ih =>
    rw [Zone.after_cons] at hend
    rw [splitFrom] at h
    split at h
    · rename_i hcut
      obtain ⟨rfl, -, hnext, hopen, hclose⟩ := eq_of_cutsAt hcut
      have hplain : outermost.zone.next c = outermost.zone := hnext
      split at h
      · rename_i hrest
        rw [hplain] at hend
        rw [List.cons_append, closeParenthesis_of_ne (by simp [hclose]), hplain,
          if_neg (by simp [hopen]), ih hn hrest hend]
        rfl
      · cases h
    · split at h
      · rename_i n' hstep
        split at h
        · rename_i hrest
          have hlater := ih (hn.step hstep) hrest (zone_step hstep ▸ hend)
          have hparentheses := parentheses_step hn hstep
          rw [zone_step hstep] at hlater
          rw [List.cons_append]
          by_cases hc : n.zone = .plain ∧ c = ')'
          · obtain ⟨hz, rfl⟩ := hc
            have hnext : n.zone.next ')' = .plain := by rw [hz]; rfl
            rw [if_pos ⟨hz, rfl⟩] at hparentheses
            rw [hnext] at hlater
            rw [hz, hparentheses, closeParenthesis_pop, hlater]
            rfl
          · rw [if_neg hc] at hparentheses
            rw [closeParenthesis_of_ne hc, ← hparentheses, hlater]
            rfl
        · cases h
      · cases h

/-! ## Enclosing again -/

/-- Openers further out do not matter for a text that is not cut, except that nothing is cut
between them. -/
lemma splitFrom_of_openers {n : Nesting} {position : Nat} {text : List Char} (hn : n.WellFormed)
    (h : splitFrom '|' n position text = .ok (text, [])) (opener : Nat × Char)
    (outer : List (Nat × Char)) (rest : List Char) :
    splitFrom '|' ⟨n.zone, n.opens ++ opener :: outer⟩ position (text ++ rest) =
      (splitFrom '|' ⟨n.zone.after text, opener :: outer⟩ (position + text.length) rest).map
        fun (part, later) => (text ++ part, later) := by
  induction text generalizing n position with
  | nil =>
    rw [splitFrom] at h
    split at h
    · rename_i hopens
      rw [hopens]
      exact Nesting.Leads.nil _ position rest
    · cases h
  | cons c tail ih =>
    rw [splitFrom] at h
    split at h
    · split at h <;> simp at h
    · split at h
      · rename_i n' hstep
        split at h
        · rename_i part later hrest
          simp only [Except.ok.injEq, Prod.mk.injEq, List.cons.injEq, true_and] at h
          obtain ⟨rfl, rfl⟩ := h
          have hlater := ih (hn.step hstep) hrest
          have hcut : (⟨n.zone, n.opens ++ opener :: outer⟩ : Nesting).cutsAt '|' c = false := by
            simp [cutsAt]
          have hposition : position + (part.length + 1) = position + 1 + part.length := by omega
          rw [List.cons_append, splitFrom, if_neg (by simp [hcut]), Zone.after_cons,
            ← zone_step hstep, List.length_cons, hposition]
          simp only [step_append hn hstep, hlater]
          cases splitFrom '|' ⟨n'.zone.after part, opener :: outer⟩ (position + 1 + part.length)
            rest <;> rfl
        · cases h
      · cases h

/-- Nothing is cut at a plain character. -/
lemma IsPlain.leads {c : Char} (h : IsPlain c) (opens : List (Nat × Char)) :
    (⟨.plain, opens⟩ : Nesting).Leads [c] ⟨.plain, opens⟩ := by
  have hnext := h.next_eq
  obtain ⟨hstructural, hbar⟩ := h
  simp only [isStructural, List.mem_cons, List.not_mem_nil, or_false, decide_eq_false_iff_not,
    not_or] at hstructural
  refine .one ?_ fun position => ?_
  · simp [cutsAt, hbar]
  · simp [step, isOpener, isCloser, hnext, hstructural]

namespace Enclosable

variable {text front back : List Char}

/-- An enclosable text is not cut, wherever it stands. -/
lemma splitFrom_eq (h : Enclosable text) (position : Nat) :
    splitFrom '|' .outermost position text = .ok (text, []) := by
  obtain ⟨part, hsplit⟩ := h.single
  simp only [Slice.split, Slice.whole] at hsplit
  split at hsplit
  · rename_i part' later hfrom
    simp only [Except.ok.injEq, List.cons.injEq] at hsplit
    obtain ⟨-, rfl⟩ := hsplit
    obtain ⟨-, -, htext⟩ := uncut_of_splitFrom hfrom
    rw [List.flatMap_nil, List.append_nil] at htext
    subst htext
    have hmoved := splitFrom_shift position '|' .outermost 0 text
    rw [hfrom, Nat.zero_add] at hmoved
    exact hmoved
  · cases hsplit

/-- A text that may be enclosed is a single part. -/
lemma splitParts_eq (h : Enclosable text) (start : Nat) :
    splitParts '|' ⟨start, text⟩ = .ok [⟨start, text⟩] := by
  simp only [splitParts, Slice.split, h.splitFrom_eq]

/-- A parenthesis behind an enclosable text closes the one in front of it. -/
lemma closeParenthesis_eq (h : Enclosable text) (rest : List Char) :
    closeParenthesis .plain 0 (text ++ ')' :: rest) = some (text, rest) :=
  closeParenthesis_of_splitFrom wellFormed_outermost (h.splitFrom_eq 0)
    (by rw [← h.unescaped]; exact isEscaped_after rfl text) rest

/-- A text that may be enclosed ends outside brackets, and escapes nothing. -/
lemma after_eq (h : Enclosable text) : Zone.plain.after text = .plain :=
  after_closeParenthesis (h.closeParenthesis_eq [])

/-- A text that may be enclosed is passed over inside further openers, too. -/
lemma leads (h : Enclosable text) (opener : Nat × Char) (outer : List (Nat × Char)) :
    (⟨.plain, opener :: outer⟩ : Nesting).Leads text ⟨.plain, opener :: outer⟩ := by
  intro position rest
  have hsplit := splitFrom_of_openers wellFormed_outermost (h.splitFrom_eq position) opener outer
    rest
  simp only [outermost, h.after_eq] at hsplit
  exact hsplit

/-- An enclosed text can be enclosed again. -/
theorem enclose (h : Enclosable text) (hfront : ∀ c ∈ front, IsPlain c)
    (hback : ∀ c ∈ back, IsPlain c) : Enclosable (enclose front back text) := by
  have hleads : outermost.Leads (PatternSampler.enclose front back text) outermost := by
    have hinner : ∀ position, (⟨.plain, [(position, '(')]⟩ : Nesting).Leads (text ++ [')'])
        ⟨.plain, []⟩ := fun position =>
      (h.leads (position, '(') []).append (.one rfl fun _ => rfl)
    have hfront' := Leads.of_forall fun c hc => (hfront c hc).leads []
    have hback' := Leads.of_forall fun c hc => (hback c hc).leads []
    have henclosed : outermost.Leads ('(' :: (text ++ [')'])) outermost :=
      leads_enclosed rfl hinner
    have hall := hfront'.append (henclosed.append hback')
    simpa [PatternSampler.enclose, outermost] using hall
  have hsplit := hleads 0 []
  rw [List.append_nil] at hsplit
  refine ⟨⟨⟨0, PatternSampler.enclose front back text⟩, ?_⟩, ?_⟩
  · simp only [Slice.split, Slice.whole, hsplit]
    simp only [splitFrom, outermost, Except.map, List.append_nil]
  · rw [← isEscaped_after (z := .plain) rfl, PatternSampler.enclose, Zone.after_append,
      after_plain hfront, Zone.after_cons, Zone.after_append]
    rw [show Zone.plain.next '(' = .plain from rfl, h.after_eq, Zone.after_cons,
      show Zone.plain.next ')' = .plain from rfl, after_plain hback]
    rfl

end Enclosable

/-! ## Trees -/

/-- A row of characters. -/
def Pattern.ofCharacters : List Char → Pattern
  | [] => .done
  | c :: text => .seq (.character c) [] (ofCharacters text)

section Trees

variable {text front back : List Char}

/-- Plain characters do not start with a repeat count. -/
lemma head?_ne_of_isPlain (h : ∀ c ∈ text, IsPlain c) : text.head? ≠ some '\x7b' := by
  intro hhead
  have hbrace := (h _ (List.mem_of_head? hhead)).1
  cases hbrace

/-- The tree of a text of plain characters. -/
lemma Pattern.ofSlice_of_isPlain (h : ∀ c ∈ text, IsPlain c) (opened start : Nat) :
    ofSlice opened ⟨start, text⟩ = ofCharacters text := by
  induction text generalizing opened start with
  | nil => rw [ofSlice, Token.next, ofCharacters]
  | cons c text ih =>
    obtain ⟨hc, htext⟩ := List.forall_mem_cons.1 h
    have hnext : Token.next ⟨start, c :: text⟩ = .ok (some (.character c, ⟨start + 1, text⟩)) :=
      Token.next_of_spelled (.literal hc.1) ⟨rfl, rfl⟩ (by simp)
    rw [ofSlice_of_character hnext (head?_ne_of_isPlain htext), ih htext, ofCharacters]

/-- A row of characters has no mistakes. -/
lemma Pattern.unbroken_ofCharacters (text : List Char) : (ofCharacters text).Unbroken := by
  induction text with
  | nil => trivial
  | cons c text ih => exact ih

/-- Plain characters open no groups. -/
lemma countGroups_of_isPlain (h : ∀ c ∈ text, IsPlain c) : countGroups text = 0 := by
  refine (GroupScan.Counts.of_forall fun c hc => ?_).count_eq
  have hstructural := (h c hc).1
  have hmem : c ∉ ['\\', '[', '(', '$'] := by
    intro hmem
    fin_cases hmem <;> cases hstructural
  exact GroupScan.next_start hmem

/-- The token of a text in parentheses. -/
lemma Enclosable.next_eq (h : Enclosable text) (start : Nat) (back : List Char) :
    Token.next ⟨start, '(' :: (text ++ ')' :: back)⟩ =
      .ok (some (.group ⟨start + 1, text⟩, ⟨start + (text.length + 2), back⟩)) := by
  refine Token.next_of_spelled (.group (h.closeParenthesis_eq [])) ⟨?_, ?_⟩ (by simp)
  · simp
  · simp

/-- The tree of an enclosed text: characters, a group, and characters again. -/
theorem Pattern.ofSlice_enclose (h : Enclosable text) (hfront : ∀ c ∈ front, IsPlain c)
    (hback : ∀ c ∈ back, IsPlain c) (opened start : Nat) :
    ofSlice opened ⟨start, enclose front back text⟩ = (ofCharacters front).append
      (.seq (.group (opened + 1) (ofSlice (opened + 1) ⟨start + front.length + 1, text⟩)) []
        (ofCharacters back)) := by
  have hprecedes : (⟨start, front⟩ : Slice).Precedes ('(' :: (text ++ ')' :: back)) := by
    refine ⟨by simp, ?_⟩
    rintro - c ⟨⟩
    rfl
  have hunbroken : (ofSlice opened ⟨start, front⟩).Unbroken := by
    rw [ofSlice_of_isPlain hfront]
    exact unbroken_ofCharacters front
  have happend := ofSlice_append hunbroken hprecedes
  rw [ofSlice_of_isPlain hfront, countGroups_of_isPlain hfront] at happend
  have hgroup : ∀ span, Construct.ofToken opened span (.group ⟨start + front.length + 1, text⟩) =
      .ok (.group (opened + 1) (ofSlice (opened + 1) ⟨start + front.length + 1, text⟩)) := by
    intro span
    simp only [Construct.ofToken]
    have hparts := h.splitParts_eq (start + front.length + 1)
    generalize splitParts '|' ⟨start + front.length + 1, text⟩ = parts at hparts ⊢
    subst hparts
    rfl
  have hinner := ofSlice_of_construct (h.next_eq (start + front.length) back) (hgroup _)
  simp only [readCounts_of_head?_ne (s := ⟨_, back⟩) (head?_ne_of_isPlain hback),
    ofSlice_of_isPlain hback] at hinner
  exact happend.trans (congrArg (append _) hinner)

end Trees

end PatternSampler
