import PatternSampler.Proofs.CharSet.Written
import PatternSampler.Proofs.Run.Append
import PatternSampler.Proofs.Run.Choices

set_option autoImplicit false

/-!
# Generating from bracket expressions

A bracket expression generates one of the characters that it is meant to denote, by one draw among
them. If there are none it generates nothing.

## Main results

* `walk_bracketed` — a bracket expression is generated as its set is.
* `CharSet.exists_sample_eq` — each member of a set can be drawn.
* `bracketed_denotes_members` — what bracket expressions denote and generate.
-/

namespace PatternSampler

/-! ## Sets -/

namespace CharSet

variable {set : CharSet} {p : Progress}

/-- A set that is not empty takes one draw below its size. -/
lemma sample_of_size_pos (stream : WordStream) (h : 0 < set.size) (p : Progress) :
    set.sample stream p =
      .ok ⟨(set.get ⟨(uniform stream set.size p.position).1,
          uniform_lt stream p.position h⟩).toString, .choice set.size⟩
        { p with position := (uniform stream set.size p.position).2 } := by
  rw [sample, dif_pos h]
  rfl

/-- An empty set takes no draw and generates nothing. -/
lemma sample_of_size_eq_zero (stream : WordStream) (h : set.size = 0) :
    set.sample stream = pure (.fixed "") := by
  rw [sample, dif_neg (by omega)]

/-- A set with a member is not empty. -/
lemma size_pos_of_contains {c : Char} (h : set.contains c = true) : 0 < set.size := by
  obtain ⟨i, -⟩ := contains_iff.1 h
  exact Nat.lt_of_le_of_lt (Nat.zero_le i.1) i.2

/-- Each member of a set can be drawn, since no set is larger than the chunks of a draw. -/
theorem exists_sample_eq {c : Char} (h : set.contains c = true) (p : Progress) :
    ∃ stream q, set.sample stream p = .ok ⟨c.toString, .choice set.size⟩ q := by
  obtain ⟨place, rfl⟩ := contains_iff.1 h
  have hsize : set.size < sizeLimit := Nat.lt_of_le_of_lt set.size_le (by decide)
  obtain ⟨stream, hstream⟩ := exists_uniform_eq (le_chunkSize hsize) place.isLt p.position
  have hplace : (⟨(uniform stream set.size p.position).1,
      uniform_lt stream p.position (size_pos_of_contains h)⟩ : Fin set.size) = place :=
    Fin.ext hstream
  have hdrawn := sample_of_size_pos stream (size_pos_of_contains h) p
  rw [hplace] at hdrawn
  exact ⟨stream, _, hdrawn⟩

end CharSet

/-! ## Bracket expressions -/

section Bracketed

variable {negated : Bool} {items : List BracketItem} {stream : WordStream}

/-- The size of the set is the number of characters that are meant. -/
lemma size_bracketedSet (negated : Bool) (items : List BracketItem) :
    (bracketedSet negated items).size = (bracketedMembers negated items).ncard := by
  rw [← CharSet.ncard_contains]
  congr 1
  ext c
  exact contains_bracketedSet

/-- A bracket expression opens no groups. -/
lemma countGroups_bracketed (negated : Bool) (items : List BracketItem) :
    countGroups (bracketed negated items) = 0 := by
  have hnext := next_bracketed negated items 0 []
  rw [List.append_nil] at hnext
  exact (Token.opens_next hnext).countGroups_eq

/-- A bracket expression is generated as its set is. -/
lemma walk_bracketed {l : Ledger} {s : Sample} {p : Progress} (start : Nat)
    (h : (bracketedSet negated items).sample stream l.progress = .ok s p) :
    Walk.sample (walk stream) ⟨start, bracketed negated items⟩ l =
      .ok (.join [s]) ⟨p, l.opened⟩ := by
  have hnext := next_bracketed negated items start []
  rw [List.append_nil] at hnext
  have hsample : (⟨start, bracketed negated items⟩ : Slice).sample stream l.opened l.progress =
      .ok (.join [s]) p := by
    rw [Slice.sample_of_construct stream hnext (by rw [Construct.ofToken]), Construct.prepare,
      pure_bind]
    simp only [bind, EStateM.bind, h]
    rfl
  have hwalk := walk_of_sample hsample
  rwa [countGroups_bracketed] at hwalk

end Bracketed

/-- **Bracket expressions**: let `bracketed negated items` be the text of some items in brackets,
behind a caret or not, and `bracketedMembers negated items` the characters of the items, or the
other printable ASCII characters behind a caret. Whatever follows the text, just the text is read,
and the set read lists exactly these characters, each of them once. Generating from the text makes
one draw among them and yields the character drawn, with the entropy of that choice, and each of
them can be drawn. If there are none, generating yields nothing and draws nothing.

**Proof sketch.** An item is read as what it adds whatever stands around it, since a character that
means something between brackets is behind a backslash there. Adding and cutting out ranges acts on
the members as union and difference do, and the set that comes out is drawn from by place. -/
theorem bracketed_denotes_members (negated : Bool) (items : List BracketItem) :
    ∃ set : CharSet,
      (∀ start rest, Token.next ⟨start, bracketed negated items ++ rest⟩ =
        .ok (some (.oneOf set, ⟨start + (bracketed negated items).length, rest⟩))) ∧
      set.toList.Nodup ∧
      (∀ c, c ∈ set.toList ↔ c ∈ bracketedMembers negated items) ∧
      ((bracketedMembers negated items).Nonempty →
        (∀ stream start l, ∃ c ∈ bracketedMembers negated items, ∃ x,
          Walk.sample (walk stream) ⟨start, bracketed negated items⟩ l = .ok x
            ⟨⟨(uniform stream (bracketedMembers negated items).ncard l.progress.position).2,
              l.progress.groups⟩, l.opened⟩ ∧
          x.text = c.toString ∧
          x.entropy.exact = Real.logb 2 (bracketedMembers negated items).ncard) ∧
        (∀ start l, ∀ c ∈ bracketedMembers negated items, ∃ stream x l',
          Walk.sample (walk stream) ⟨start, bracketed negated items⟩ l = .ok x l' ∧
          x.text = c.toString)) ∧
      (bracketedMembers negated items = ∅ → ∀ stream start l, ∃ x,
        Walk.sample (walk stream) ⟨start, bracketed negated items⟩ l = .ok x l ∧
        x.text = "" ∧ x.entropy.exact = 0) := by
  have hsize := size_bracketedSet negated items
  refine ⟨bracketedSet negated items, next_bracketed negated items, CharSet.nodup_toList _,
    fun c => CharSet.mem_toList.trans contains_bracketedSet, ?_, ?_⟩
  · rintro ⟨member, hmember⟩
    have hpos := CharSet.size_pos_of_contains (contains_bracketedSet.2 hmember)
    constructor
    · intro stream start l
      have hplace := uniform_lt stream l.progress.position hpos
      have hmem : (bracketedSet negated items).get ⟨_, hplace⟩ ∈ bracketedMembers negated items :=
        contains_bracketedSet.1 (CharSet.contains_iff.2 ⟨_, rfl⟩)
      have hdrawn := walk_bracketed start (CharSet.sample_of_size_pos stream hpos l.progress)
      rw [← hsize]
      refine ⟨_, hmem, _, hdrawn, Sample.text_join_singleton _, ?_⟩
      rw [Sample.exact_join_singleton, Entropy.exact, Entropy.choiceBits]
    · intro start l c hc
      obtain ⟨stream, q, hdrawn⟩ :=
        CharSet.exists_sample_eq (contains_bracketedSet.2 hc) l.progress
      exact ⟨stream, _, _, walk_bracketed start hdrawn, Sample.text_join_singleton _⟩
  · intro hempty stream start l
    rw [hempty, Set.ncard_empty] at hsize
    have hnothing : (bracketedSet negated items).sample stream l.progress =
        .ok (.fixed "") l.progress := by
      rw [CharSet.sample_of_size_eq_zero stream hsize]
      rfl
    refine ⟨_, walk_bracketed start hnothing, Sample.text_join_singleton _, ?_⟩
    rw [Sample.exact_join_singleton, Sample.fixed, Entropy.exact_zero]

end PatternSampler
