import PatternSampler.Proofs.Faults.Possible
import PatternSampler.Proofs.Language.Cutting
import PatternSampler.Proofs.Run.Choices

set_option autoImplicit false

/-!
# The language of a tree

The tree of a text has a language of its own. Where the tree shows no mistakes, it is the language
that the text denotes as a regular expression.

## Main definitions

* `Pattern.Regular` — a pattern without calls and references.
* `Pattern.Plain` — a pattern without calls, references and mistakes.
* `Pattern.language` — the words of a pattern.

## Main results

* `Pattern.denotesRow_ofSlice` — a slice denotes the language of its tree.
-/

namespace PatternSampler

/-! ## Regular patterns -/

mutual

/-- There are no calls and no references in the pattern. -/
def Pattern.Regular : Pattern → Prop
  | .done | .stop _ => True
  | .seq head _ rest => head.Regular ∧ rest.Regular

/-- There are no calls and no references in the construct. -/
def Construct.Regular : Construct → Prop
  | .character _ | .oneOf _ => True
  | .group _ body => body.Regular
  | .alternation _ branches => branches.Regular
  | _ => False

/-- There are no calls and no references in the branches. -/
def Branches.Regular : Branches → Prop
  | .one _ _ body => body.Regular
  | .more _ _ body rest => body.Regular ∧ rest.Regular

end

mutual

/-- There are no calls, no references and no mistakes in the pattern. -/
def Pattern.Plain : Pattern → Prop
  | .done => True
  | .stop _ => False
  | .seq head _ rest => head.Plain ∧ rest.Plain

/-- There are no calls, no references and no mistakes in the construct. -/
def Construct.Plain : Construct → Prop
  | .character _ | .oneOf _ => True
  | .group _ body => body.Plain
  | .alternation _ branches => branches.Plain
  | _ => False

/-- There are no calls, no references and no mistakes in the branches. -/
def Branches.Plain : Branches → Prop
  | .one _ _ body => body.Plain
  | .more _ _ body rest => body.Plain ∧ rest.Plain

end

mutual

/-- A pattern without calls and references has no calls. -/
lemma Pattern.Regular.callFree : ∀ {p : Pattern}, p.Regular → p.CallFree
  | .done, _ | .stop _, _ => trivial
  | .seq _ _ _, h => ⟨h.1.callFree, h.2.callFree⟩

/-- A construct without calls and references has no calls. -/
lemma Construct.Regular.callFree : ∀ {c : Construct}, c.Regular → c.CallsIn fun _ => False
  | .character _, _ | .oneOf _, _ => trivial
  | .group _ body, h => Pattern.Regular.callFree (p := body) h
  | .alternation _ branches, h => Branches.Regular.callFree (b := branches) h

/-- Branches without calls and references have no calls. -/
lemma Branches.Regular.callFree : ∀ {b : Branches}, b.Regular → b.CallsIn fun _ => False
  | .one _ _ body, h => Pattern.Regular.callFree (p := body) h
  | .more _ _ _ _, h => ⟨h.1.callFree, h.2.callFree⟩

end

mutual

/-- A regular pattern without possible faults is plain. -/
lemma Pattern.Regular.plain {known : Nat → Bool} :
    ∀ {p : Pattern}, p.Regular → p.faults known = [] → p.Plain
  | .done, _, _ => trivial
  | .stop _, _, hfaults => by simp [Pattern.faults] at hfaults
  | .seq _ _ _, h, hfaults => by
    simp only [Pattern.faults, orLater_eq_nil] at hfaults
    exact ⟨h.1.plain hfaults.1.2, h.2.plain hfaults.2⟩

/-- A construct without calls and references is plain if generating it makes no mistake. -/
lemma Construct.Regular.plain {known : Nat → Bool} :
    ∀ {c : Construct}, c.Regular → c.lateFaults known = [] → c.Plain
  | .character _, _, _ | .oneOf _, _, _ => trivial
  | .group _ body, h, hfaults => Pattern.Regular.plain (p := body) h hfaults
  | .alternation _ branches, h, hfaults => by
    rw [Construct.lateFaults_alternation_eq_nil] at hfaults
    exact Branches.Regular.plain (b := branches) h fun choice hchoice => (hfaults choice hchoice).2

/-- Branches without calls and references are plain if choosing any of them makes no mistake. -/
lemma Branches.Regular.plain {known : Nat → Bool} :
    ∀ {b : Branches}, b.Regular → (∀ choice < b.length, b.chosenFaults choice known = []) → b.Plain
  | .one _ _ body, h, hfaults => Pattern.Regular.plain (p := body) h (hfaults 0 Nat.one_pos)
  | .more _ _ _ _, h, hfaults =>
    ⟨h.1.plain (hfaults 0 (Nat.succ_pos _)), h.2.plain fun choice hchoice =>
      hfaults (choice + 1) (Nat.succ_lt_succ hchoice)⟩

end

/-! ## Languages -/

mutual

/-- The words of a pattern. A mistake has none. -/
def Pattern.language : Pattern → Language Char
  | .done => 1
  | .stop _ => 0
  | .seq head counts rest => repeatedBy counts head.language * rest.language

/-- The words of a construct. Calls and references count as having none. -/
def Construct.language : Construct → Language Char
  | .character c => {[c]}
  | .oneOf set => set.language
  | .group _ body => body.language
  | .alternation _ branches => branches.language
  | _ => 0

/-- The words of several branches. -/
def Branches.language : Branches → Language Char
  | .one _ _ body => body.language
  | .more _ _ body rest => body.language + rest.language

end

/-! ## The tree of a slice -/

/-- Repeat counts that are read without a mistake stand in their braces. -/
lemma readCounts_spelled {product : Nat} {s : Slice} (h : (readCounts product s).fault = none) :
    ∃ text, RepeatCount.Spelled (readCounts product s).counts text ∧
      s.Starts text (readCounts product s).rest := by
  fun_induction readCounts product s with
  | case1 => cases h
  | case2 product s count rest hnext hle later ih =>
    obtain ⟨text, htext, hstarts⟩ := ih h
    obtain ⟨front, hfront, hrest⟩ := Token.next_spelled hnext
    obtain ⟨body, hbody, hcount, rfl⟩ := hfront.exists_braces
    refine ⟨_, .cons hbody hcount htext, ?_⟩
    simpa using hrest.trans hstarts
  | case3 => exact ⟨[], .nil, .refl _⟩

section Reading

variable {room : Nat}

/-- Slices that are not longer than `room` denote the languages of their trees. -/
def DenotesUpTo (room : Nat) : Prop :=
  ∀ (opened : Nat) (s : Slice) (inGroup : Bool), s.length ≤ room →
    (Pattern.ofSlice opened s).Plain → (inGroup = true → Uncut s.text) →
      DenotesRow inGroup s.text (Pattern.ofSlice opened s).language

/-- Parts that are not cut any further denote, with bars between them, the language of their
branches. -/
lemma Branches.denotesBody_ofSlices (ih : DenotesUpTo room) (others : List Slice)
    (opened : Nat) (first : Slice) (hroom : ∀ part ∈ first :: others, part.length ≤ room)
    (huncut : ∀ part ∈ first :: others, Uncut part.text)
    (hplain : (Branches.ofSlices opened first others).Plain) :
    DenotesBody (first.text ++ others.flatMap fun part => '|' :: part.text)
      (Branches.ofSlices opened first others).language := by
  induction others generalizing opened first with
  | nil =>
    rw [Branches.ofSlices] at hplain ⊢
    rw [List.flatMap_nil, List.append_nil]
    exact .one (ih opened first true (hroom first (by simp)) hplain fun _ => huncut first (by simp))
  | cons second rest hrest =>
    rw [Branches.ofSlices] at hplain ⊢
    have hfirst := ih opened first true (hroom first (by simp)) hplain.1 fun _ =>
      huncut first (by simp)
    have hothers := hrest _ second (fun part hpart => hroom part (List.mem_cons_of_mem _ hpart))
      (fun part hpart => huncut part (List.mem_cons_of_mem _ hpart)) hplain.2
    simpa [Branches.language] using DenotesBody.more hfirst hothers

/-- The body of a group denotes the union of its branches. -/
lemma Construct.denotesBody_ofToken (ih : DenotesUpTo room) {opened : Nat} {span : Span}
    {body : Slice} {c : Construct} (hroom : body.length ≤ room)
    (h : Construct.ofToken opened span (.group body) = .ok c) (hplain : c.Plain) :
    DenotesBody body.text c.language := by
  simp only [Construct.ofToken] at h
  split at h
  · cases h
  · rename_i hparts
    obtain ⟨first, later, hnil, -⟩ := exists_of_splitParts hparts
    cases hnil
  · rename_i part hparts
    cases h
    obtain ⟨first, later, hone, huncut, -, htext⟩ := exists_of_splitParts hparts
    cases hone
    rw [List.flatMap_nil, List.append_nil] at htext
    exact .one (ih _ body true hroom hplain fun _ => htext ▸ huncut)
  · rename_i first second rest hparts
    cases h
    obtain ⟨first', later, hmany, hfirst, hlater, htext⟩ := exists_of_splitParts hparts
    cases hmany
    rw [htext]
    refine Branches.denotesBody_ofSlices ih _ _ _ ?_ (List.forall_mem_cons.2 ⟨hfirst, hlater⟩)
      hplain
    exact fun part hpart => Nat.le_trans (length_le_of_mem_splitParts hparts hpart) hroom

/-- The text of a token denotes the language of its tree. -/
lemma Construct.denotesPiece_ofToken (ih : DenotesUpTo room) {opened start : Nat} {span : Span}
    {t : Token} {c : Construct} {text : List Char} {inGroup : Bool} (hroom : t.room ≤ room)
    (htext : t.Spelled start text) (h : Construct.ofToken opened span t = .ok c) (hplain : c.Plain)
    (hbar : inGroup = true → text ≠ ['|']) : DenotesPiece inGroup text c.language := by
  cases htext with
  | @literal c hc =>
    simp only [Construct.ofToken] at h
    cases h
    refine .literal hc fun hgroup => ?_
    rintro rfl
    exact hbar hgroup rfl
  | @escape e text he hdigit =>
    have hlanguage : c.language = e.language := by
      cases e <;> simp only [Escape.token, Construct.ofToken] at h <;> cases h <;>
        simp only [Construct.language, Escape.language]
    rw [hlanguage]
    exact .escape he hdigit
  | reference =>
    simp only [Construct.ofToken] at h
    cases h
    exact hplain.elim
  | oneOf hitems =>
    simp only [Construct.ofToken] at h
    cases h
    simpa only [Construct.language] using DenotesPiece.bracket hitems
  | repetition =>
    simp only [Construct.ofToken] at h
    cases h
  | group hclose => exact .group (Construct.denotesBody_ofToken ih hroom h hplain)
  | call =>
    have hcall := Construct.isCall_ofToken h
    cases c with
    | character | oneOf | reference | group | alternation => cases hcall
    | _ => exact hplain.elim

end Reading

/-- **A slice denotes the language of its tree**, if the tree is plain. In a group the slice has to
be a single part.

**Proof sketch.** By strong induction on the length of the slice. The parts of a group are uncut,
so no bar in them is read as a literal. Behind a construct and its counts the rest of an uncut
text is uncut, because cutting goes past them. -/
theorem Pattern.denotesRow_ofSlice (opened : Nat) (s : Slice) (inGroup : Bool)
    (hplain : (Pattern.ofSlice opened s).Plain) (huncut : inGroup = true → Uncut s.text) :
    DenotesRow inGroup s.text (Pattern.ofSlice opened s).language := by
  induction hn : s.length using Nat.strong_induction_on generalizing opened s inGroup with
  | _ n ih =>
    generalize htree : Pattern.ofSlice opened s = tree at hplain ⊢
    rw [Pattern.ofSlice] at htree
    split at htree
    · subst htree
      exact hplain.elim
    · rename_i hnext
      subst htree
      rw [Token.text_eq_nil_of_next hnext]
      simpa only [Pattern.language] using DenotesRow.nil inGroup
    · rename_i t rest hnext
      obtain ⟨hroom, hrest⟩ := Token.room_next hnext
      obtain ⟨text, htext, hstarts⟩ := Token.next_spelled hnext
      split at htree
      · subst htree
        exact hplain.elim
      · rename_i c hc
        subst htree
        obtain ⟨hhead, hbehind⟩ := hplain
        split at hbehind
        · exact hbehind.elim
        · rename_i hfault
          obtain ⟨counts, hcounts, hstarts'⟩ := readCounts_spelled hfault
          have hlength := length_readCounts_le 1 rest
          have hsplit : s.text = text ++ (counts ++ (readCounts 1 rest).rest.text) := by
            rw [hstarts.text_eq, hstarts'.text_eq]
          have hshort : DenotesUpTo t.room := fun opened' s' inGroup' hs' hplain' huncut' =>
            ih s'.length (by omega) opened' s' inGroup' hplain' huncut' rfl
          have hpiece : DenotesPiece inGroup text c.language := by
            apply Construct.denotesPiece_ofToken hshort (Nat.le_refl _) htext hc hhead
            rintro hgroup rfl
            have hwhole := huncut hgroup
            rw [hsplit] at hwhole
            exact not_uncut_bar _ hwhole
          have hrow := ih _ (by omega) (opened + t.groups) (readCounts 1 rest).rest inGroup hbehind
            (fun hgroup => ?_) rfl
          · rw [hsplit]
            simpa only [Pattern.language, hfault] using DenotesRow.cons hpiece hcounts hrow
          · have hwhole := huncut hgroup
            rw [hsplit] at hwhole
            exact (hwhole.of_leads (hpiece.leads hgroup [])).of_leads (hcounts.leads [])

end PatternSampler
