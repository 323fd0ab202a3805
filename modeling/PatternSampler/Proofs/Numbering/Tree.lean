import PatternSampler.Pattern.Parse
import PatternSampler.Proofs.Numbering.Scan

set_option autoImplicit false

/-!
# The numbers in a tree

The numbers of the groups of a tree are consecutive, in the order of the text. The tree of a slice
takes as many of them as the scan counts in the slice.

## Main definitions

* `Pattern.Numbered` — the groups of a tree have the numbers behind `before` up to `after`.

## Main results

* `Pattern.numbered_ofSlice` — the tree of a slice is numbered as its text is counted.

## Implementation notes

A mistake hides the groups behind it, so the numbers of a tree that ends with one may go on.
-/

namespace PatternSampler

mutual

/-- The groups of a pattern have the numbers behind `before` up to `after`. -/
def Pattern.Numbered : Pattern → Nat → Nat → Prop
  | .done, before, after => before = after
  | .stop _, before, after => before ≤ after
  | .seq head _ rest, before, after =>
    ∃ mid, head.Numbered before mid ∧ rest.Numbered mid after

/-- The groups of a construct have the numbers behind `before` up to `after`. -/
def Construct.Numbered : Construct → Nat → Nat → Prop
  | .character _, before, after | .oneOf _, before, after | .reference _ _, before, after
  | .byte _, before, after => before = after
  | .group number body, before, after => number = before + 1 ∧ body.Numbered number after
  | .alternation number branches, before, after =>
    number = before + 1 ∧ branches.Numbered number after
  | .encode _ argument, before, after | .words argument, before, after
  | .shuffle argument, before, after | .optional argument, before, after =>
    argument.Numbered before after
  | .expand first second, before, after =>
    ∃ mid, first.Numbered before mid ∧ second.Numbered mid after
  | .date first second third, before, after | .justify _ first second third, before, after =>
    ∃ mid mid', first.Numbered before mid ∧ second.Numbered mid mid' ∧ third.Numbered mid' after

/-- The groups of an argument have the numbers behind `before` up to `after`. -/
def Argument.Numbered : Argument → Nat → Nat → Prop
  | .mk _ body, before, after => body.Numbered before after

/-- The groups of branches have the numbers behind `before` up to `after`, and each branch knows
its own ones. -/
def Branches.Numbered : Branches → Nat → Nat → Prop
  | .one front count body, before, after =>
    front = before ∧ front + count = after ∧ body.Numbered before after
  | .more front count body rest, before, after =>
    front = before ∧ body.Numbered before (front + count) ∧ rest.Numbered (front + count) after

end

/-- An argument is numbered as its pattern is. -/
@[simp] lemma Argument.numbered_mk (span : Span) (body : Pattern) (before after : Nat) :
    (Argument.mk span body).Numbered before after ↔ body.Numbered before after := Iff.rfl

/-! ## Numbers never decrease -/

mutual

/-- The numbers of the groups of a pattern go up. -/
lemma Pattern.Numbered.le {before after : Nat} :
    ∀ {p : Pattern}, p.Numbered before after → before ≤ after
  | .done, h => Nat.le_of_eq h
  | .stop _, h => h
  | .seq _ _ _, ⟨_, hhead, hrest⟩ => Nat.le_trans hhead.le hrest.le

/-- The numbers of the groups of a construct go up. -/
lemma Construct.Numbered.le {before after : Nat} :
    ∀ {c : Construct}, c.Numbered before after → before ≤ after
  | .character _, h | .oneOf _, h | .reference _ _, h | .byte _, h => Nat.le_of_eq h
  | .group _ _, ⟨hnumber, hbody⟩ => Nat.le_trans (hnumber ▸ Nat.le_succ _) hbody.le
  | .alternation _ _, ⟨hnumber, hbranches⟩ => Nat.le_trans (hnumber ▸ Nat.le_succ _) hbranches.le
  | .encode _ argument, h | .words argument, h | .shuffle argument, h | .optional argument, h =>
    Argument.Numbered.le (a := argument) h
  | .expand _ _, ⟨_, h₁, h₂⟩ => Nat.le_trans h₁.le h₂.le
  | .date _ _ _, ⟨_, _, h₁, h₂, h₃⟩ | .justify _ _ _ _, ⟨_, _, h₁, h₂, h₃⟩ =>
    Nat.le_trans h₁.le (Nat.le_trans h₂.le h₃.le)

/-- The numbers of the groups of an argument go up. -/
lemma Argument.Numbered.le {before after : Nat} :
    ∀ {a : Argument}, a.Numbered before after → before ≤ after
  | .mk _ body, h => Pattern.Numbered.le (p := body) h

/-- The numbers of the groups of branches go up. -/
lemma Branches.Numbered.le {before after : Nat} :
    ∀ {b : Branches}, b.Numbered before after → before ≤ after
  | .one _ _ _, ⟨_, _, hbody⟩ => hbody.le
  | .more _ _ _ _, ⟨_, hbody, hrest⟩ => Nat.le_trans hbody.le hrest.le

end

/-! ## Reading along the count -/

/-- What is read from the front of a slice opens `n` groups. -/
def Slice.Opens (s : Slice) (n : Nat) (rest : Slice) : Prop :=
  ∃ text, s.Starts text rest ∧ GroupScan.start.Counts text n .start

namespace Slice.Opens

variable {s mid rest : Slice} {n k : Nat}

/-- Where nothing is read no group opens. -/
protected lemma refl (s : Slice) : s.Opens 0 s := ⟨[], .refl s, .nil _⟩

/-- What is read in two steps opens the groups of both. -/
protected lemma trans (h : s.Opens n mid) (h' : mid.Opens k rest) : s.Opens (n + k) rest := by
  obtain ⟨x, hx, hn⟩ := h
  obtain ⟨y, hy, hk⟩ := h'
  exact ⟨x ++ y, hx.trans hy, hn.append hk⟩

/-- The groups of a slice are those read and those behind. -/
lemma countGroups_eq (h : s.Opens n rest) : countGroups s.text = n + countGroups rest.text := by
  obtain ⟨text, htext, hn⟩ := h
  rw [countGroups, htext.text_eq, GroupScan.count_append, hn.count_eq, hn.after_eq, countGroups]

end Slice.Opens

/-- A token opens the groups that it is said to open. -/
lemma Token.opens_next {s rest : Slice} {t : Token} (h : Token.next s = .ok (some (t, rest))) :
    s.Opens t.groups rest := by
  obtain ⟨text, htext, hstarts⟩ := Token.next_spelled h
  exact ⟨text, hstarts, htext.counts⟩

/-- No repeat count stands where another token does. -/
lemma Token.next_ne_repetition {s rest : Slice} {t : Token}
    (hnext : Token.next s = .ok (some (t, rest))) (ht : ¬∃ count, t = .repetition count)
    (count : RepeatCount) (rest' : Slice) :
    Token.next s ≠ .ok (some (.repetition count, rest')) := by
  intro heq
  rw [hnext] at heq
  simp only [Except.ok.injEq, Option.some.injEq, Prod.mk.injEq] at heq
  exact ht ⟨count, heq.1⟩

/-- Where no repeat count stands none is read. -/
lemma readCounts_of_ne {s : Slice}
    (h : ∀ count rest, Token.next s ≠ .ok (some (.repetition count, rest))) (product : Nat) :
    readCounts product s = ⟨[], s, none⟩ := by
  rw [readCounts]
  split
  · rename_i count rest hnext
    exact absurd hnext (h count rest)
  · rfl

/-- Repeat counts open no groups. -/
lemma opens_readCounts (product : Nat) (s : Slice) : s.Opens 0 (readCounts product s).rest := by
  fun_induction readCounts product s with
  | case1 product s count rest h hlt => exact Token.opens_next h
  | case2 product s count rest h hle later ih => exact (Token.opens_next h).trans ih
  | case3 => exact .refl _

/-! ## Parts -/

/-- The parts of a slice have together the groups of the slice. -/
lemma sum_countGroups_splitParts {separator : Char} (hsep : separator ∈ [')', '|', ',']) {s : Slice}
    {parts : List Slice} (h : splitParts separator s = .ok parts) :
    (parts.map fun p => countGroups p.text).sum = countGroups s.text := by
  unfold splitParts at h
  split at h
  · rename_i hsplit
    simp only [Except.ok.injEq] at h
    exact h ▸ sum_countGroups_split hsep hsplit
  · simp at h

/-- The groups of an argument list with two arguments. -/
lemma countGroups_of_two {s first second : Slice} (h : splitParts ',' s = .ok [first, second]) :
    countGroups s.text = countGroups first.text + countGroups second.text := by
  have := sum_countGroups_splitParts (by simp) h
  simpa using this.symm

/-- The groups of an argument list with three arguments. -/
lemma countGroups_of_three {s first second third : Slice}
    (h : splitParts ',' s = .ok [first, second, third]) :
    countGroups s.text =
      countGroups first.text + countGroups second.text + countGroups third.text := by
  have := sum_countGroups_splitParts (by simp) h
  simpa [Nat.add_assoc] using this.symm

/-- An empty slice has no groups. -/
lemma countGroups_of_isEmpty {s : Slice} (h : s.text.isEmpty = true) : countGroups s.text = 0 := by
  rw [List.isEmpty_iff.1 h]
  rfl

/-- A part is shorter than the room for all parts. -/
lemma length_le_of_mem {part : Slice} {parts : List Slice} (h : part ∈ parts) :
    part.length + 1 ≤ roomOf parts := by
  induction parts with
  | nil => simp at h
  | cons first others ih =>
    rw [roomOf_cons]
    rcases List.mem_cons.1 h with rfl | h
    · omega
    · have := ih h
      omega

/-- A part is not longer than the slice. -/
lemma length_le_of_mem_splitParts {separator : Char} {s part : Slice} {parts : List Slice}
    (h : splitParts separator s = .ok parts) (hpart : part ∈ parts) : part.length ≤ s.length := by
  have := length_le_of_mem hpart
  rw [roomOf_splitParts h] at this
  omega

/-! ## The tree of a slice -/

/-- There are as many branches as parts. -/
@[simp] lemma Branches.length_ofSlices (opened : Nat) (first : Slice) (others : List Slice) :
    (Branches.ofSlices opened first others).length = others.length + 1 := by
  induction others generalizing opened first with
  | nil =>
    rw [Branches.ofSlices]
    rfl
  | cons second rest ih =>
    rw [Branches.ofSlices, Branches.length, ih, List.length_cons]

section Reading

variable {room : Nat}

/-- The trees of slices that are not longer than `room` are numbered. -/
def NumberedUpTo (room : Nat) : Prop :=
  ∀ (opened : Nat) (s : Slice), s.length ≤ room →
    (Pattern.ofSlice opened s).Numbered opened (opened + countGroups s.text)

/-- The default of an argument has no groups. -/
lemma Argument.numbered_ofChar (span : Span) (c : Char) (opened : Nat) :
    (Argument.ofChar span c).Numbered opened opened := by
  simp [Argument.ofChar, Pattern.Numbered, Construct.Numbered]

/-- The branches that are made from parts have the groups of all parts. -/
lemma Branches.numbered_ofSlices (ih : NumberedUpTo room) (others : List Slice) (first : Slice)
    (opened : Nat) (hroom : ∀ part ∈ first :: others, part.length ≤ room) :
    (Branches.ofSlices opened first others).Numbered opened
      (opened + ((first :: others).map fun p => countGroups p.text).sum) := by
  induction others generalizing opened first with
  | nil =>
    have hbody := ih opened first (hroom first (by simp))
    rw [Branches.ofSlices]
    simpa [Branches.Numbered] using hbody
  | cons second rest hrest =>
    have hbody := ih opened first (hroom first (by simp))
    have hothers := hrest second (opened + countGroups first.text) fun part hpart =>
      hroom part (List.mem_cons_of_mem _ hpart)
    rw [Branches.ofSlices]
    refine ⟨rfl, hbody, ?_⟩
    simpa [Nat.add_assoc] using hothers

/-- The tree of a token is numbered behind the groups in front of it. -/
lemma Construct.numbered_ofToken (ih : NumberedUpTo room) {opened : Nat} {span : Span} {t : Token}
    {c : Construct} (hroom : t.room ≤ room) (h : Construct.ofToken opened span t = .ok c) :
    c.Numbered opened (opened + t.groups) := by
  cases t with
  | character | oneOf | reference =>
    simp only [Construct.ofToken, Except.ok.injEq] at h
    subst h
    rfl
  | repetition => simp [Construct.ofToken] at h
  | group body =>
    have hlater : opened + (Token.group body).groups = opened + 1 + countGroups body.text := by
      simp only [Token.groups]
      omega
    rw [hlater]
    simp only [Construct.ofToken] at h
    split at h
    · simp at h
    · rename_i hparts
      have hsum := sum_countGroups_splitParts (by simp) hparts
      simp only [Except.ok.injEq] at h
      subst h
      exact ⟨rfl, by simpa [Pattern.Numbered] using hsum.symm⟩
    · simp only [Except.ok.injEq] at h
      subst h
      exact ⟨rfl, ih _ body hroom⟩
    · rename_i first second rest hparts
      have hsum := sum_countGroups_splitParts (by simp) hparts
      simp only [Except.ok.injEq] at h
      subst h
      rw [← hsum]
      exact ⟨rfl, Branches.numbered_ofSlices ih _ _ _ fun part hpart =>
        Nat.le_trans (length_le_of_mem_splitParts hparts hpart) hroom⟩
  | call f arguments =>
    have hall := ih opened arguments hroom
    have hpart : ∀ {parts : List Slice}, splitParts ',' arguments = .ok parts →
        ∀ part ∈ parts, ∀ opened, (Pattern.ofSlice opened part).Numbered opened
          (opened + countGroups part.text) := fun hparts part hmem opened =>
      ih opened part (Nat.le_trans (length_le_of_mem_splitParts hparts hmem) hroom)
    simp only [Token.groups]
    cases f with
    | encode | shuffle | optional =>
      simp only [Construct.ofToken, Except.ok.injEq] at h
      subst h
      exact hall
    | byte =>
      simp only [Construct.ofToken] at h
      split at h
      · rename_i hnil
        simp only [Except.ok.injEq] at h
        subst h
        rw [countGroups_of_isEmpty hnil]
        rfl
      · simp at h
    | words =>
      simp only [Construct.ofToken] at h
      split at h
      · rename_i hnil
        simp only [Except.ok.injEq] at h
        subst h
        rw [countGroups_of_isEmpty hnil]
        exact Argument.numbered_ofChar span '1' opened
      · simp only [Except.ok.injEq] at h
        subst h
        exact hall
    | expand =>
      simp only [Construct.ofToken] at h
      split at h
      · simp at h
      · rename_i first second hparts
        simp only [Except.ok.injEq] at h
        subst h
        rw [countGroups_of_two hparts, ← Nat.add_assoc]
        exact ⟨_, hpart hparts first (by simp) _, hpart hparts second (by simp) _⟩
      · simp at h
    | date | justify =>
      simp only [Construct.ofToken] at h
      split at h
      · simp at h
      · rename_i first second hparts
        simp only [Except.ok.injEq] at h
        subst h
        rw [countGroups_of_two hparts, ← Nat.add_assoc]
        exact ⟨_, _, hpart hparts first (by simp) _, hpart hparts second (by simp) _,
          Argument.numbered_ofChar _ _ _⟩
      · rename_i first second third hparts
        simp only [Except.ok.injEq] at h
        subst h
        rw [countGroups_of_three hparts, ← Nat.add_assoc, ← Nat.add_assoc]
        exact ⟨_, _, hpart hparts first (by simp) _, hpart hparts second (by simp) _,
          hpart hparts third (by simp) _⟩
      · simp at h

end Reading

/-- **The numbers of a tree are those of its text**: the groups of a slice have the consecutive
numbers behind the groups in front of it, as many as the scan counts.

**Proof sketch.** By strong induction on the length of the slice. The inner part of a token and
what follows the token are shorter, and the counts of the token and of what follows it add up to
the count of the slice. -/
theorem Pattern.numbered_ofSlice (opened : Nat) (s : Slice) :
    (Pattern.ofSlice opened s).Numbered opened (opened + countGroups s.text) := by
  induction hn : s.length using Nat.strong_induction_on generalizing opened s with
  | _ n ih =>
    rw [Pattern.ofSlice]
    split
    · exact Nat.le_add_right _ _
    · rename_i hnext
      simp [Pattern.Numbered, Token.text_eq_nil_of_next hnext, countGroups, GroupScan.count]
    · rename_i t rest hnext
      have hcount := (Token.opens_next hnext).countGroups_eq
      obtain ⟨hroom, hrest⟩ := Token.room_next hnext
      split
      · exact Nat.le_add_right _ _
      · rename_i c hc
        have hshort : NumberedUpTo t.room := fun opened' s' hs' =>
          ih s'.length (by omega) opened' s' rfl
        refine ⟨_, Construct.numbered_ofToken hshort (Nat.le_refl _) hc, ?_⟩
        have hbehind := (opens_readCounts 1 rest).countGroups_eq
        have hlength := length_readCounts_le 1 rest
        split
        · simp only [Pattern.Numbered]
          omega
        · have := ih _ (by omega) (opened + t.groups) (readCounts 1 rest).rest rfl
          rwa [Nat.add_assoc, show t.groups + countGroups (readCounts 1 rest).rest.text =
            countGroups s.text by omega] at this

end PatternSampler
