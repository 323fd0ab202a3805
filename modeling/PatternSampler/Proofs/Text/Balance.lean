import PatternSampler.Proofs.Guarded.Scans

set_option autoImplicit false

/-!
# Balanced texts

Which texts are balanced is said here by a grammar, on the characters that no backslash touches.
What is still open behind a text is the spine of the same grammar: one layer for each opener that
has no closer yet. Reading a text character by character, with a stack of openers, decides both.

## Main definitions

* `Mark` — a character together with its position.
* `unescaped` — the characters of a text that no backslash touches.
* `Balanced` — every opener has its closer.
* `StillOpen` — the openers without a closer, innermost first.
* `Breaks` — the character that keeps a text from being balanced.
* `afterMark` — the openers that are open behind one more character.

## Main results

* `stillOpen_iff` — the stack holds the openers without a closer.
* `balanced_iff` — a text is balanced if the stack is empty behind it.
* `breaks_iff` — reading a text ends with an error at the character that keeps it from being
  balanced.
-/

namespace PatternSampler

open Nesting Scan

/-! ## The grammar -/

/-- A character together with its position. -/
abbrev Mark := Nat × Char

/-- The characters of a text that starts at `position`, without backslashes and the characters
behind them. -/
def unescaped : (position : Nat) → List Char → List Mark
  | _, [] => []
  | position, c :: rest =>
    if c = '\\' then
      match rest with
      | [] => []
      | _ :: rest => unescaped (position + 2) rest
    else (position, c) :: unescaped (position + 1) rest

/-- Every bracket is closed by the next `]`, and outside brackets parentheses and braces are
properly nested in one another. -/
inductive Balanced : List Mark → Prop
  /-- No character at all. -/
  | nil : Balanced []
  /-- A character that opens and closes nothing. Outside brackets `]` is one of them. -/
  | other {m : Mark} {rest : List Mark} (hopener : isOpener m.2 = false)
      (hcloser : isCloser m.2 = false) : Balanced rest → Balanced (m :: rest)
  /-- A bracket expression. -/
  | bracket {p q : Nat} {inside rest : List Mark} (hinside : ∀ m ∈ inside, m.2 ≠ ']') :
      Balanced rest → Balanced ((p, '[') :: (inside ++ (q, ']') :: rest))
  /-- A balanced text in parentheses or in braces. -/
  | enclosed {p q : Nat} {opener : Char} {inner rest : List Mark}
      (hopener : opener = '(' ∨ opener = '\x7b') : Balanced inner → Balanced rest →
      Balanced ((p, opener) :: (inner ++ (q, closerOf opener) :: rest))

/-- The text ends inside the openers of the second list, innermost first: behind each of them what
stands on its level is balanced. A bracket can only be the innermost one. -/
inductive StillOpen : List Mark → List Mark → Prop
  /-- Nothing is open behind a balanced text. -/
  | balanced {x : List Mark} : Balanced x → StillOpen x []
  /-- An open bracket. -/
  | bracket {p : Nat} {x outer inside : List Mark} (h : StillOpen x outer)
      (houter : inBracket outer = false) (hinside : ∀ m ∈ inside, m.2 ≠ ']') :
      StillOpen (x ++ (p, '[') :: inside) ((p, '[') :: outer)
  /-- An open parenthesis or brace. -/
  | nested {p : Nat} {opener : Char} {x outer inner : List Mark} (h : StillOpen x outer)
      (houter : inBracket outer = false) (hopener : opener = '(' ∨ opener = '\x7b')
      (hinner : Balanced inner) : StillOpen (x ++ (p, opener) :: inner) ((p, opener) :: outer)

/-- A closer outside bracket expressions that does not belong to the innermost opener. -/
def Unmatched (closer : Char) (opens : List Mark) : Prop :=
  isCloser closer = true ∧ ∀ top ∈ opens.head?, top.2 ≠ '[' ∧ closerOf top.2 ≠ closer

/-- What keeps a text from being balanced: the first closer that does not belong to the innermost
opener, or else the innermost opener that is still open at the end. -/
inductive Breaks : List Mark → Imbalance → Prop
  /-- All closers in front of this one belong to the openers in front of them. -/
  | unexpected {p : Nat} {closer : Char} {front back opens : List Mark} (h : StillOpen front opens)
      (hcloser : Unmatched closer opens) :
      Breaks (front ++ (p, closer) :: back) (.unexpected p closer)
  /-- All closers belong to the openers in front of them, and this opener has none. -/
  | unterminated {p : Nat} {opener : Char} {marks outer : List Mark}
      (h : StillOpen marks ((p, opener) :: outer)) : Breaks marks (.unterminated p opener)

namespace Balanced

variable {x y : List Mark}

/-- Two balanced texts make a balanced text. -/
protected lemma append (hx : Balanced x) (hy : Balanced y) : Balanced (x ++ y) := by
  induction hx with
  | nil => exact hy
  | other hopener hcloser _ ih => exact .other hopener hcloser ih
  | bracket hinside _ ih =>
    simp only [List.cons_append, List.append_assoc]
    exact .bracket hinside ih
  | enclosed hopener hinner _ _ ih =>
    simp only [List.cons_append, List.append_assoc]
    exact .enclosed hopener hinner ih

end Balanced

namespace StillOpen

variable {x y opens : List Mark}

/-- What is open stays open behind a balanced text. -/
protected lemma append (hx : StillOpen x opens) (hopens : inBracket opens = false)
    (hy : Balanced y) : StillOpen (x ++ y) opens := by
  cases hx with
  | balanced hx => exact .balanced (hx.append hy)
  | bracket => cases hopens
  | nested hx houter hopener hinner =>
    rw [List.append_assoc, List.cons_append]
    exact .nested hx houter hopener (hinner.append hy)

end StillOpen

/-! ## The stack of openers -/

/-- The openers that are open behind the character `m`. -/
def afterMark (opens : List Mark) (m : Mark) : Except Imbalance (List Mark) :=
  ((nestingOf opens).step m.1 m.2).map Nesting.opens

section AfterMark

variable {opens outer opens' : List Mark} {p q : Nat} {c opener : Char} {m : Mark}

/-- Inside a bracket expression only its end changes the openers. -/
lemma afterMark_of_inBracket (h : inBracket opens = true) (hm : m.2 ≠ ']') :
    afterMark opens m = .ok opens := by
  simp [afterMark, nestingOf_of_inBracket h, step, hm, Except.map]

/-- A closing bracket ends the bracket expression. -/
lemma afterMark_bracket : afterMark ((p, '[') :: outer) (q, ']') = .ok outer := by
  simp [afterMark, nestingOf, inBracket, zoneOf, step, Except.map]

/-- An opener is the innermost one from then on. -/
lemma afterMark_opener (h : inBracket opens = false) (hm : isOpener m.2 = true) :
    afterMark opens m = .ok (m :: opens) := by
  simp [afterMark, nestingOf_of_not_inBracket h, step, hm, Except.map]

/-- Other characters change nothing. -/
lemma afterMark_other (h : inBracket opens = false) (hopener : isOpener m.2 = false)
    (hcloser : isCloser m.2 = false) : afterMark opens m = .ok opens := by
  simp [afterMark, nestingOf_of_not_inBracket h, step, hopener, hcloser, Except.map]

/-- A closer that belongs to the innermost opener closes it. -/
lemma afterMark_closer (h : opener = '(' ∨ opener = '\x7b') :
    afterMark ((p, opener) :: outer) (q, closerOf opener) = .ok outer := by
  rcases h with rfl | rfl <;>
    simp [afterMark, nestingOf, inBracket, zoneOf, step, isOpener, isCloser, closerOf, Except.map]

/-- A closer that does not belong to the innermost opener is unexpected, and nothing else is. -/
lemma afterMark_eq_error {e : Imbalance} :
    afterMark opens m = .error e ↔ Unmatched m.2 opens ∧ e = .unexpected m.1 m.2 := by
  obtain ⟨position, c⟩ := m
  cases hbracket : inBracket opens with
  | true =>
    have hok : ∃ opens', afterMark opens (position, c) = .ok opens' := by
      rw [afterMark, nestingOf_of_inBracket hbracket]
      exact ⟨_, rfl⟩
    obtain ⟨opens', hok⟩ := hok
    rw [hok]
    refine ⟨nofun, fun ⟨⟨_, htop⟩, _⟩ => ?_⟩
    cases opens with
    | nil => cases hbracket
    | cons top outer => exact absurd (by simpa [inBracket] using hbracket) (htop top rfl).1
  | false =>
    have hopener : isCloser c = true → isOpener c = false := by
      simp only [isCloser, isOpener, Bool.or_eq_true, beq_iff_eq]
      rintro (rfl | rfl) <;> rfl
    rw [afterMark, nestingOf_of_not_inBracket hbracket]
    simp only [step, Unmatched]
    cases hcloser : isCloser c with
    | false => cases isOpener c <;> simp [Except.map]
    | true =>
      rw [hopener hcloser]
      cases opens with
      | nil => simp [Except.map, eq_comm]
      | cons top outer =>
        have hne : top.2 ≠ '[' := by simpa [inBracket] using hbracket
        by_cases hmatch : closerOf top.2 = c
        · simp [Except.map, hmatch]
        · simp [Except.map, hmatch, hne, @eq_comm _ e]

/-- What a character does to the openers: it stands in a bracket and does not end it, it ends a
bracket, it opens, it closes, or it does neither. -/
lemma afterMark_cases (h : afterMark opens m = .ok opens') :
    (inBracket opens = true ∧ m.2 ≠ ']' ∧ opens' = opens) ∨
    (∃ p, opens = (p, '[') :: opens' ∧ m.2 = ']') ∨
    (inBracket opens = false ∧ isOpener m.2 = true ∧ opens' = m :: opens) ∨
    (∃ p opener, opens = (p, opener) :: opens' ∧ opener ≠ '[' ∧ m.2 = closerOf opener) ∨
    (inBracket opens = false ∧ isOpener m.2 = false ∧ isCloser m.2 = false ∧ opens' = opens) := by
  cases hbracket : inBracket opens with
  | true =>
    obtain ⟨⟨p, opener⟩, outer, rfl⟩ : ∃ top outer, opens = top :: outer := by
      cases opens with
      | nil => cases hbracket
      | cons top outer => exact ⟨top, outer, rfl⟩
    obtain rfl : opener = '[' := by simpa [inBracket] using hbracket
    by_cases hm : m.2 = ']'
    · refine .inr (.inl ⟨p, ?_, hm⟩)
      rw [show m = (m.1, ']') from Prod.ext rfl hm, afterMark_bracket, Except.ok.injEq] at h
      rw [h]
    · rw [afterMark_of_inBracket hbracket hm, Except.ok.injEq] at h
      exact .inl ⟨rfl, hm, h.symm⟩
  | false =>
    refine .inr (.inr ?_)
    cases hopener : isOpener m.2 with
    | true =>
      rw [afterMark_opener hbracket hopener, Except.ok.injEq] at h
      exact .inl ⟨rfl, rfl, h.symm⟩
    | false =>
      cases hcloser : isCloser m.2 with
      | false =>
        rw [afterMark_other hbracket hopener hcloser, Except.ok.injEq] at h
        exact .inr (.inr ⟨rfl, rfl, rfl, h.symm⟩)
      | true =>
        have hmatched : ¬Unmatched m.2 opens := by
          intro hunmatched
          rw [afterMark_eq_error.2 ⟨hunmatched, rfl⟩] at h
          cases h
        obtain ⟨⟨p, opener⟩, outer, rfl⟩ : ∃ top outer, opens = top :: outer := by
          cases opens with
          | nil => exact absurd ⟨hcloser, by simp⟩ hmatched
          | cons top outer => exact ⟨top, outer, rfl⟩
        have hne : opener ≠ '[' := by simpa [inBracket] using hbracket
        have hmatch : closerOf opener = m.2 := by
          by_contra hmatch
          exact hmatched ⟨hcloser, by simpa using ⟨hne, hmatch⟩⟩
        have hstep : afterMark ((p, opener) :: outer) m = .ok outer := by
          rw [afterMark, nestingOf_of_not_inBracket hbracket]
          simp [step, hopener, hcloser, hmatch, Except.map]
        rw [hstep, Except.ok.injEq] at h
        exact .inr (.inl ⟨p, opener, by rw [h], hne, hmatch.symm⟩)

end AfterMark

/-! ## The stack against the grammar -/

/-- The openers that are open behind some characters, if those of the first list are open in front
of them. -/
def openers (opens marks : List Mark) : Except Imbalance (List Mark) :=
  marks.foldlM afterMark opens

section Openers

variable {x y marks opens opens' : List Mark} {m : Mark}

/-- No characters change nothing. -/
@[simp] lemma openers_nil (opens : List Mark) : openers opens [] = .ok opens := rfl

/-- One more character in front, which the openers allow. -/
lemma openers_cons (h : afterMark opens m = .ok opens') :
    openers opens (m :: x) = openers opens' x := by
  rw [openers, List.foldlM_cons, h]
  rfl

/-- Characters in front whose openers are known. -/
lemma openers_append (h : openers opens x = .ok opens') :
    openers opens (x ++ y) = openers opens' y := by
  unfold openers at h ⊢
  rw [List.foldlM_append, h]
  rfl

/-- One more character behind. -/
lemma openers_concat :
    openers opens (x ++ [m]) = .ok opens' ↔
      ∃ mid, openers opens x = .ok mid ∧ afterMark mid m = .ok opens' := by
  have happend : openers opens (x ++ [m]) = openers opens x >>= (afterMark · m) := by
    simp [openers, List.foldlM_append]
  rw [happend]
  cases openers opens x with
  | ok mid => simp [Bind.bind, Except.bind]
  | error e => simp [Bind.bind, Except.bind]

/-- In a bracket nothing opens or closes. -/
lemma openers_of_inBracket (h : inBracket opens = true) (hx : ∀ m ∈ x, m.2 ≠ ']') :
    openers opens x = .ok opens := by
  induction x with
  | nil => rfl
  | cons m x ih =>
    obtain ⟨hm, hx⟩ := List.forall_mem_cons.1 hx
    rw [openers_cons (afterMark_of_inBracket h hm), ih hx]

/-- Behind a balanced text the same openers are open as in front of it. -/
lemma Balanced.openers_eq (hx : Balanced x) (hopens : inBracket opens = false) :
    openers opens x = .ok opens := by
  induction hx generalizing opens with
  | nil => rfl
  | other hopener hcloser _ ih =>
    rw [openers_cons (afterMark_other hopens hopener hcloser), ih hopens]
  | @bracket p q inside rest hinside _ ih =>
    have hopen : afterMark opens (p, '[') = .ok ((p, '[') :: opens) := afterMark_opener hopens rfl
    have hthrough : openers ((p, '[') :: opens) inside = .ok ((p, '[') :: opens) :=
      openers_of_inBracket rfl hinside
    rw [openers_cons hopen, openers_append hthrough, openers_cons afterMark_bracket, ih hopens]
  | @enclosed p q opener inner rest hopener _ _ ihinner ihrest =>
    have hfacts : isOpener opener = true ∧ inBracket ((p, opener) :: opens) = false := by
      rcases hopener with rfl | rfl <;> exact ⟨rfl, rfl⟩
    have hopen : afterMark opens (p, opener) = .ok ((p, opener) :: opens) :=
      afterMark_opener hopens hfacts.1
    rw [openers_cons hopen, openers_append (ihinner hfacts.2),
      openers_cons (afterMark_closer hopener), ihrest hopens]

/-- The stack holds the openers without a closer.

**Proof sketch.** By induction on the layers each of them is put on the stack, and what follows on
its level leaves the stack as it is. Conversely one more character changes the layers as it changes
the stack: it closes the innermost layer into a balanced text, opens a new one, or belongs to the
innermost layer. -/
theorem stillOpen_iff : StillOpen marks opens ↔ openers [] marks = .ok opens := by
  constructor
  · intro h
    induction h with
    | balanced hx => exact hx.openers_eq rfl
    | bracket _ houter hinside ih =>
      rw [openers_append ih, openers_cons (afterMark_opener houter rfl),
        openers_of_inBracket rfl hinside]
    | @nested p opener x outer inner _ houter hopener hinner ih =>
      have hfacts : isOpener opener = true ∧ inBracket ((p, opener) :: outer) = false := by
        rcases hopener with rfl | rfl <;> exact ⟨rfl, rfl⟩
      rw [openers_append ih, openers_cons (afterMark_opener houter hfacts.1),
        hinner.openers_eq hfacts.2]
  · intro h
    induction marks using List.reverseRecOn generalizing opens with
    | nil =>
      cases h
      exact .balanced .nil
    | append_singleton marks m ih =>
      obtain ⟨mid, hmid, hstep⟩ := openers_concat.1 h
      have hopen := ih hmid
      rcases afterMark_cases hstep with ⟨hbracket, hm, rfl⟩ | ⟨p, rfl, hm⟩ |
        ⟨houter, hopener, rfl⟩ | ⟨p, opener, rfl, hne, hm⟩ | ⟨houter, hopener, hcloser, rfl⟩
      · cases hopen with
        | balanced => cases hbracket
        | bracket hx houter hinside =>
          rw [List.append_assoc, List.cons_append]
          refine .bracket hx houter ?_
          rw [List.forall_mem_append, List.forall_mem_singleton]
          exact ⟨hinside, hm⟩
        | nested _ _ hopener => rcases hopener with rfl | rfl <;> cases hbracket
      · cases hopen with
        | @bracket _ x _ inside hx houter hinside =>
          obtain ⟨q, c⟩ := m
          obtain rfl : c = ']' := hm
          rw [List.append_assoc, List.cons_append]
          exact hx.append houter (.bracket hinside .nil)
        | nested _ _ hopener => rcases hopener with h | h <;> cases h
      · obtain ⟨p, c⟩ := m
        simp only [isOpener, Bool.or_eq_true, beq_iff_eq] at hopener
        rcases hopener with (rfl | rfl) | rfl
        · exact .nested hopen houter (.inl rfl) .nil
        · exact .bracket hopen houter (by simp)
        · exact .nested hopen houter (.inr rfl) .nil
      · cases hopen with
        | bracket => exact absurd rfl hne
        | nested hx houter hopener hinner =>
          obtain ⟨q, c⟩ := m
          obtain rfl : c = closerOf opener := hm
          rw [List.append_assoc, List.cons_append]
          exact hx.append houter (.enclosed hopener hinner .nil)
      · exact hopen.append houter (.other hopener hcloser .nil)

/-- A text is balanced if the stack is empty behind it. -/
theorem balanced_iff : Balanced marks ↔ openers [] marks = .ok [] := by
  rw [← stillOpen_iff]
  constructor
  · exact .balanced
  · intro h
    cases h with
    | balanced h => exact h

/-- What the stack says of a whole text: all openers must have been closed. -/
def ended : List Mark → Except Imbalance Unit
  | [] => .ok ()
  | (position, opener) :: _ => .error (.unterminated position opener)

/-- A text is accepted if no opener is left. -/
lemma bind_ended_eq_ok {r : Except Imbalance (List Mark)} : r >>= ended = .ok () ↔ r = .ok [] := by
  cases r with
  | error e => exact iff_of_false nofun nofun
  | ok opens =>
    cases opens with
    | nil => exact iff_of_true rfl rfl
    | cons top outer => exact iff_of_false nofun nofun

/-- The first character at fault decides. -/
lemma openers_cons_error {e : Imbalance} (h : afterMark opens m = .error e) :
    openers opens (m :: x) = .error e := by
  rw [openers, List.foldlM_cons, h]
  rfl

/-- If reading stops with an error, it stops at one of the characters. -/
lemma exists_of_openers_eq_error {e : Imbalance} (h : openers opens marks = .error e) :
    ∃ front m back mid, marks = front ++ m :: back ∧ openers opens front = .ok mid ∧
      afterMark mid m = .error e := by
  induction marks generalizing opens with
  | nil => cases h
  | cons m rest ih =>
    cases hm : afterMark opens m with
    | error e' =>
      rw [openers_cons_error hm, Except.error.injEq] at h
      exact ⟨[], m, rest, opens, rfl, rfl, by rw [hm, h]⟩
    | ok opens' =>
      rw [openers_cons hm] at h
      obtain ⟨front, m', back, mid, rfl, hfront, hm'⟩ := ih h
      exact ⟨m :: front, m', back, mid, rfl, by rw [openers_cons hm, hfront], hm'⟩

/-- Reading a text ends with an error at the character that keeps it from being balanced. -/
theorem breaks_iff {e : Imbalance} : Breaks marks e ↔ openers [] marks >>= ended = .error e := by
  constructor
  · intro h
    cases h with
    | unexpected h hcloser =>
      rw [openers_append (stillOpen_iff.1 h),
        openers_cons_error (afterMark_eq_error.2 ⟨hcloser, rfl⟩)]
      rfl
    | unterminated h =>
      rw [stillOpen_iff.1 h]
      rfl
  · intro h
    cases hopeners : openers [] marks with
    | error e' =>
      obtain ⟨front, m, back, mid, rfl, hfront, hm⟩ := exists_of_openers_eq_error hopeners
      obtain ⟨hcloser, rfl⟩ := afterMark_eq_error.1 hm
      rw [hopeners] at h
      cases h
      exact .unexpected (stillOpen_iff.2 hfront) hcloser
    | ok opens =>
      rw [hopeners] at h
      cases opens with
      | nil => cases h
      | cons top outer =>
        cases h
        exact .unterminated (stillOpen_iff.2 hopeners)

end Openers

end PatternSampler
