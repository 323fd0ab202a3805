import Mathlib.Computability.Language
import PatternSampler.Proofs.Reading.SpelledRead

set_option autoImplicit false

/-!
# Patterns as regular expressions

A text without calls and references is read as a regular expression. The grammar below goes along
the text alone: it knows neither trees nor runs.

## Main definitions

* `CharSet.language`, `Escape.language` — the words of a set and of an escape.
* `RepeatCount.language` — the words of a repeated construct.
* `DenotesRow`, `DenotesPiece`, `DenotesBody` — the language of a row of constructs, of a single
  construct, and of what stands between the parentheses of a group.

## Main results

* `DenotesRow.unique` — a text denotes at most one language.

## Implementation notes

A group is read up to the first closing parenthesis that none of its pieces takes, and a piece
takes its closing parentheses itself. Brackets need no counting.
-/

namespace PatternSampler

/-! ## Words -/

/-- The members of a set as words. An empty set denotes the empty word. -/
def CharSet.language (set : CharSet) : Language Char :=
  {word | set.isEmpty = true ∧ word = [] ∨ ∃ c, set.contains c = true ∧ word = [c]}

/-- The words of an escape. -/
def Escape.language : Escape → Language Char
  | digits => CharSet.digits.language
  | wordCharacters => CharSet.wordCharacters.language
  | character c => {[c]}

/-- As many words of a language, one behind the other, as a repeat count allows. -/
def RepeatCount.language (count : RepeatCount) (L : Language Char) : Language Char :=
  {word | ∃ n, count.low ≤ n ∧ n ≤ count.high ∧ word ∈ L ^ n}

/-- The words of a construct with repeat counts behind it. Each count repeats the construct
together with the counts in front of it. -/
def repeatedBy (counts : List RepeatCount) (L : Language Char) : Language Char :=
  counts.foldl (fun L count => count.language L) L

/-! ## Texts -/

mutual

/-- A row of constructs, each with its repeat counts, denotes a language. -/
inductive DenotesRow : (inGroup : Bool) → List Char → Language Char → Prop
  | nil (inGroup : Bool) : DenotesRow inGroup [] 1
  | cons {inGroup : Bool} {x y z : List Char} {counts : List RepeatCount} {L M : Language Char}
      (hx : DenotesPiece inGroup x L) (hy : RepeatCount.Spelled counts y)
      (hz : DenotesRow inGroup z M) : DenotesRow inGroup (x ++ (y ++ z)) (repeatedBy counts L * M)

/-- A construct denotes a language. -/
inductive DenotesPiece : (inGroup : Bool) → List Char → Language Char → Prop
  /-- Most characters stand for themselves. Outside every group a bar does so, too. -/
  | literal {inGroup : Bool} {c : Char} (hc : isStructural c = false)
      (hbar : inGroup = true → c ≠ '|') : DenotesPiece inGroup [c] {[c]}
  | escape {inGroup : Bool} {e : Escape} {text : List Char} (he : e.Spelled text)
      (hdigit : ∀ c ∈ text.head?, c.isDigit = false) :
      DenotesPiece inGroup ('\\' :: text) e.language
  | bracket {inGroup : Bool} {items : List Char} {set : CharSet}
      (hitems : Draft.start.Spelled items set) : DenotesPiece inGroup ('[' :: items) set.language
  | group {inGroup : Bool} {body : List Char} {L : Language Char} (hbody : DenotesBody body L) :
      DenotesPiece inGroup ('(' :: (body ++ [')'])) L

/-- Branches with bars between them denote the union of their languages. -/
inductive DenotesBody : List Char → Language Char → Prop
  | one {x : List Char} {L : Language Char} (hx : DenotesRow true x L) : DenotesBody x L
  | more {x y : List Char} {L M : Language Char} (hx : DenotesRow true x L)
      (hy : DenotesBody y M) : DenotesBody (x ++ '|' :: y) (L + M)

end

/-! ## A text denotes one language -/

/-- What can stand behind a row: nothing, a closing parenthesis, or in a group a bar. -/
def EndsRow (inGroup : Bool) (y : List Char) : Prop :=
  ∀ c ∈ y.head?, c = ')' ∨ inGroup = true ∧ c = '|'

/-- A row may end with the text. -/
lemma endsRow_nil (inGroup : Bool) : EndsRow inGroup [] := by
  intro c hc
  cases hc

/-- A row may end in front of a closing parenthesis. -/
lemma endsRow_parenthesis (inGroup : Bool) (y : List Char) : EndsRow inGroup (')' :: y) := by
  intro c hc
  exact .inl (Option.some.inj hc).symm

/-- In a group a row may end in front of a bar. -/
lemma endsRow_bar (y : List Char) : EndsRow true ('|' :: y) := by
  intro c hc
  exact .inr ⟨rfl, (Option.some.inj hc).symm⟩

/-- A construct starts neither as a repeat count nor as what can stand behind a row. -/
lemma DenotesPiece.exists_cons {inGroup : Bool} {x : List Char} {L : Language Char}
    (h : DenotesPiece inGroup x L) :
    ∃ c tail, x = c :: tail ∧ c ≠ '\x7b' ∧ c ≠ ')' ∧ (inGroup = true → c ≠ '|') := by
  cases h with
  | @literal _ c hc hbar =>
    refine ⟨c, [], rfl, ?_, ?_, hbar⟩ <;> rintro rfl <;> simp [isStructural] at hc
  | escape => exact ⟨'\\', _, rfl, by decide, by decide, fun _ => by decide⟩
  | bracket => exact ⟨'[', _, rfl, by decide, by decide, fun _ => by decide⟩
  | group => exact ⟨'(', _, rfl, by decide, by decide, fun _ => by decide⟩

/-- No construct begins where a row ends. -/
lemma DenotesPiece.not_endsRow {inGroup : Bool} {x y : List Char} {L : Language Char}
    (h : DenotesPiece inGroup x L) : ¬EndsRow inGroup (x ++ y) := by
  obtain ⟨c, tail, rfl, -, hclose, hbar⟩ := h.exists_cons
  intro hends
  rcases hends c rfl with rfl | ⟨hgroup, rfl⟩
  · exact hclose rfl
  · exact hbar hgroup rfl

/-- No repeat count stands where a row starts. -/
lemma DenotesRow.head?_ne {inGroup : Bool} {x y : List Char} {L : Language Char}
    (h : DenotesRow inGroup x L) (hy : EndsRow inGroup y) : (x ++ y).head? ≠ some '\x7b' := by
  cases h with
  | nil =>
    intro hhead
    rcases hy '\x7b' hhead with h | ⟨_, h⟩ <;> exact absurd h (by decide)
  | cons hx =>
    obtain ⟨c, tail, rfl, hbrace, -⟩ := hx.exists_cons
    simpa using hbrace

mutual

/-- **A text denotes one language**: of two rows that the same text starts with, both are the same
and denote the same.

**Proof sketch.** By induction on the first reading. Two constructs that a text starts with are
the same one, since the first character tells which of the rules read them. A row cannot go on
where the other one ends, because nothing that can stand behind a row starts a construct. -/
theorem DenotesRow.unique {inGroup : Bool} {x x' y y' : List Char} {L L' : Language Char} :
    DenotesRow inGroup x L → DenotesRow inGroup x' L' → EndsRow inGroup y → EndsRow inGroup y' →
      x ++ y = x' ++ y' → x = x' ∧ L = L'
  | .nil _, .nil _, _, _, _ => ⟨rfl, rfl⟩
  | .nil _, .cons hx' _ _, hy, _, heq => by
    rw [List.nil_append, List.append_assoc] at heq
    exact absurd (heq ▸ hy) hx'.not_endsRow
  | .cons hx _ _, .nil _, _, hy', heq => by
    rw [List.nil_append, List.append_assoc] at heq
    exact absurd (heq ▸ hy') hx.not_endsRow
  | .cons hx hcounts hz, .cons hx' hcounts' hz', hy, hy', heq => by
    simp only [List.append_assoc] at heq
    obtain ⟨rfl, rfl⟩ := DenotesPiece.unique hx hx' heq
    have hbehind := List.append_cancel_left heq
    obtain ⟨rfl, rfl⟩ := hcounts.unique hcounts' (hz.head?_ne hy) (hz'.head?_ne hy') hbehind
    obtain ⟨rfl, rfl⟩ := DenotesRow.unique hz hz' hy hy' (List.append_cancel_left hbehind)
    exact ⟨rfl, rfl⟩

/-- The text of a construct and its language are determined by any text that begins with it. -/
lemma DenotesPiece.unique {inGroup : Bool} {x x' y y' : List Char} {L L' : Language Char} :
    DenotesPiece inGroup x L → DenotesPiece inGroup x' L' → x ++ y = x' ++ y' → x = x' ∧ L = L'
  | .literal _ _, .literal _ _, heq => by
    simp only [List.cons_append, List.cons.injEq] at heq
    obtain ⟨rfl, -⟩ := heq
    exact ⟨rfl, rfl⟩
  | .escape he _, .escape he' _, heq => by
    simp only [List.cons_append, List.cons.injEq, true_and] at heq
    obtain ⟨rfl, rfl⟩ := he.unique he' heq
    exact ⟨rfl, rfl⟩
  | .bracket hitems, .bracket hitems', heq => by
    simp only [List.cons_append, List.cons.injEq, true_and] at heq
    obtain ⟨rfl, rfl⟩ := hitems.unique hitems' heq
    exact ⟨rfl, rfl⟩
  | .group hbody, .group hbody', heq => by
    simp only [List.cons_append, List.cons.injEq, true_and, List.append_assoc] at heq
    obtain ⟨rfl, rfl⟩ := DenotesBody.unique hbody hbody' heq
    exact ⟨rfl, rfl⟩
  | .literal hc _, .escape _ _, heq | .literal hc _, .bracket _, heq | .literal hc _, .group _, heq
  | .escape _ _, .literal hc _, heq | .bracket _, .literal hc _, heq
  | .group _, .literal hc _, heq => by
    simp only [List.cons_append, List.cons.injEq] at heq
    simp [heq.1, ← heq.1, isStructural] at hc
  | .escape _ _, .bracket _, heq | .escape _ _, .group _, heq | .bracket _, .escape _ _, heq
  | .bracket _, .group _, heq | .group _, .escape _ _, heq | .group _, .bracket _, heq => by
    simp at heq

/-- The text of the branches up to the closing parenthesis, and their language, are determined. -/
lemma DenotesBody.unique {x x' y y' : List Char} {L L' : Language Char} :
    DenotesBody x L → DenotesBody x' L' → x ++ ')' :: y = x' ++ ')' :: y' → x = x' ∧ L = L'
  | .one hx, .one hx', heq =>
    DenotesRow.unique hx hx' (endsRow_parenthesis true y) (endsRow_parenthesis true y') heq
  | .one hx, .more hx' _, heq => by
    rw [List.append_assoc] at heq
    obtain ⟨rfl, -⟩ := DenotesRow.unique hx hx' (endsRow_parenthesis true y) (endsRow_bar _) heq
    simp at heq
  | .more hx _, .one hx', heq => by
    rw [List.append_assoc] at heq
    obtain ⟨rfl, -⟩ := DenotesRow.unique hx hx' (endsRow_bar _) (endsRow_parenthesis true y') heq
    simp at heq
  | .more hx hz, .more hx' hz', heq => by
    rw [List.append_assoc, List.append_assoc] at heq
    obtain ⟨rfl, rfl⟩ := DenotesRow.unique hx hx' (endsRow_bar _) (endsRow_bar _) heq
    simp only [List.append_cancel_left_eq, List.cons_append, List.cons.injEq, true_and] at heq
    obtain ⟨rfl, rfl⟩ := DenotesBody.unique hz hz' heq
    exact ⟨rfl, rfl⟩

end

end PatternSampler
