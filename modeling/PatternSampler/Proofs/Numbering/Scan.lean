import Mathlib
import PatternSampler.Proofs.Reading.TokenSpelling

set_option autoImplicit false

/-!
# Counting groups along a text

The number of groups of a text is counted by a scan that knows nothing of tokens, calls or
branches. Here the scan is followed along a token and along the parts between separators: behind
each of them it is in its first state again, and it has counted the groups of the token or of the
part.

## Main definitions

* `GroupScan.after` — the state of the scan behind a text.
* `GroupScan.Counts` — a text leads from one state to another and opens some groups.

## Main results

* `Token.Spelled.counts` — a token leads the scan back to its start.
* `sum_countGroups_split` — the parts of a slice open the groups of the slice.
-/

namespace PatternSampler

namespace GroupScan

/-- The state of the scan behind a text. -/
def after (s : GroupScan) (text : List Char) : GroupScan := text.foldl next s

/-- A text opens `n` groups and leads the scan from the state `s` to the state `s'`. -/
structure Counts (s : GroupScan) (text : List Char) (n : Nat) (s' : GroupScan) : Prop where
  after_eq : s.after text = s'
  count_eq : s.count text = n

/-- The groups of two texts, the second one counted from the state behind the first. -/
lemma count_append (s : GroupScan) (x y : List Char) :
    s.count (x ++ y) = s.count x + (s.after x).count y := by
  induction x generalizing s with
  | nil => simp [count, after]
  | cons c x ih =>
    rw [List.cons_append, count, ih, count]
    simp only [after, List.foldl_cons]
    omega

/-- The state behind two texts. -/
lemma after_append (s : GroupScan) (x y : List Char) : s.after (x ++ y) = (s.after x).after y :=
  List.foldl_append

namespace Counts

variable {s m s' : GroupScan} {x y : List Char} {n k : Nat}

/-- An empty text opens no group. -/
protected lemma nil (s : GroupScan) : s.Counts [] 0 s := ⟨rfl, rfl⟩

/-- Two texts open the groups of both. -/
protected lemma append (h : s.Counts x n m) (h' : m.Counts y k s') :
    s.Counts (x ++ y) (n + k) s' := by
  refine ⟨?_, ?_⟩
  · rw [after_append, h.after_eq, h'.after_eq]
  · rw [count_append, h.after_eq, h.count_eq, h'.count_eq]

/-- A character that opens no group. -/
protected lemma one {c : Char} (hnext : s.next c = s') (hopen : s.opensGroup c = false) :
    s.Counts [c] 0 s' := by
  refine ⟨hnext, ?_⟩
  simp [count, hopen]

/-- A character that opens no group in front of a text. -/
protected lemma cons {c : Char} (hnext : s.next c = m) (hopen : s.opensGroup c = false)
    (h : m.Counts x n s') : s.Counts (c :: x) n s' := by
  have := (Counts.one hnext hopen).append h
  rwa [Nat.zero_add] at this

/-- Characters none of which changes the state. -/
protected lemma of_forall (h : ∀ c ∈ x, s.next c = s ∧ s.opensGroup c = false) :
    s.Counts x 0 s := by
  induction x with
  | nil => exact .nil s
  | cons c x ih =>
    obtain ⟨hc, hx⟩ := List.forall_mem_cons.1 h
    exact .cons hc.1 hc.2 (ih hx)

end Counts

/-! ## Single characters -/

/-- At the start only a backslash, an opening bracket or parenthesis and a dollar sign are looked
at. -/
lemma next_start {c : Char} (hc : c ∉ ['\\', '[', '(', '$']) :
    start.next c = start ∧ start.opensGroup c = false := by
  simp only [List.mem_cons, List.not_mem_nil, or_false, not_or] at hc
  obtain ⟨h₁, h₂, h₃, h₄⟩ := hc
  simp [start, next, opensGroup, CallHead.continued?, Zone.next, h₁, h₂, h₃, h₄]

/-- Inside a bracket expression the scan waits for the closing bracket. -/
lemma next_bracket {c : Char} (hc : c ≠ '\\') (hclose : c ≠ ']') :
    GroupScan.next ⟨.bracket, .outside⟩ c = ⟨.bracket, .outside⟩ ∧
      GroupScan.opensGroup ⟨.bracket, .outside⟩ c = false := by
  simp [next, opensGroup, CallHead.continued?, Zone.next, hc, hclose]

/-- An ordinary character is none of those that the scan looks at. -/
lemma not_mem_of_isSpecial {c : Char} (hc : isSpecial c = false) :
    c ∉ ['\\', '[', '(', '$'] := by
  simp only [isSpecial, List.mem_cons, List.not_mem_nil, or_false, decide_eq_false_iff_not,
    not_or] at hc ⊢
  tauto

/-- An ordinary character is neither a backslash nor a closing bracket. -/
lemma ne_of_isSpecial {c : Char} (hc : isSpecial c = false) : c ≠ '\\' ∧ c ≠ ']' := by
  simp only [isSpecial, List.mem_cons, List.not_mem_nil, or_false, decide_eq_false_iff_not,
    not_or] at hc
  tauto

/-- A closing parenthesis or a separator ends the head of a call. -/
lemma next_of_plain {s : GroupScan} {c : Char} (hs : s.zone = .plain) (hc : c ∈ [')', '|', ',']) :
    s.next c = start ∧ s.opensGroup c = false := by
  obtain ⟨zone, head⟩ := s
  subst hs
  simp only [List.mem_cons, List.not_mem_nil, or_false] at hc
  rcases hc with rfl | rfl | rfl <;> cases head <;> decide

/-! ## Zones -/

/-- The head of a call is followed only outside bracket expressions. -/
def Valid (s : GroupScan) : Prop := s.head = .outside ∨ s.zone = .plain

/-- The head of a call has no character that leaves the plain zone. -/
lemma next_plain_of_continued {head head' : CallHead} {c : Char}
    (h : head.continued? c = some head') : Zone.next .plain c = .plain := by
  have hc : c ≠ '\\' ∧ c ≠ '[' := by
    constructor
    all_goals
      rintro rfl
      revert h
      cases head <;> cases head' <;> decide
  simp [Zone.next, hc.1, hc.2]

/-- The scan moves through the zones of its text. -/
lemma zone_next {s : GroupScan} (hs : s.Valid) (c : Char) :
    (s.next c).zone = s.zone.next c ∧ (s.next c).Valid := by
  unfold next
  split
  · rename_i head hhead
    have hplain : s.zone = .plain := by
      apply hs.resolve_left
      intro hout
      simp [hout, CallHead.continued?] at hhead
    exact ⟨by rw [hplain, next_plain_of_continued hhead], .inr rfl⟩
  · refine ⟨rfl, ?_⟩
    by_cases hc : s.zone = .plain ∧ c = '$'
    · refine .inr ?_
      rw [hc.1, hc.2]
      decide
    · exact .inl (by rw [if_neg hc])

/-- The scan is in the zone in which the text leaves it, and follows heads only outside brackets. -/
lemma zone_after {s : GroupScan} (hs : s.Valid) (text : List Char) :
    (s.after text).zone = s.zone.after text ∧ (s.after text).Valid := by
  induction text generalizing s with
  | nil => exact ⟨rfl, hs⟩
  | cons c text ih =>
    obtain ⟨hzone, hvalid⟩ := zone_next hs c
    rw [Zone.after_cons, ← hzone]
    exact ih hvalid

/-- The scan starts in a valid state. -/
lemma valid_start : start.Valid := .inl rfl

end GroupScan

/-! ## Tokens -/

open GroupScan

/-- The characters of an escape mean nothing to the scan, in a pattern or in a bracket
expression. -/
lemma Escape.Spelled.counts {e : Escape} {text : List Char} (h : e.Spelled text) {z : Zone}
    (hz : z = .plain ∨ z = .bracket) :
    GroupScan.Counts ⟨z, .outside⟩ ('\\' :: text) 0 ⟨z, .outside⟩ := by
  have hquiet : ∀ digits : List Char, (∀ c ∈ digits, isSpecial c = false) →
      GroupScan.Counts ⟨z, .outside⟩ digits 0 ⟨z, .outside⟩ := by
    intro digits hdigits
    refine .of_forall fun c hc => ?_
    rcases hz with rfl | rfl
    · exact next_start (not_mem_of_isSpecial (hdigits c hc))
    · exact next_bracket (ne_of_isSpecial (hdigits c hc)).1 (ne_of_isSpecial (hdigits c hc)).2
  -- the first character behind the backslash never counts, whatever it is
  have hfirst : ∀ (c : Char) (digits : List Char), (∀ d ∈ digits, isSpecial d = false) →
      GroupScan.Counts ⟨z, .outside⟩ ('\\' :: c :: digits) 0 ⟨z, .outside⟩ := by
    intro c digits hdigits
    rcases hz with rfl | rfl
    · refine .cons (m := ⟨.escaped, .outside⟩) (by decide) (by decide)
        (.cons (m := ⟨.plain, .outside⟩) ?_ ?_ (hquiet digits hdigits)) <;>
        simp [GroupScan.next, opensGroup, CallHead.continued?, Zone.next]
    · refine .cons (m := ⟨.bracketEscaped, .outside⟩) (by decide) (by decide)
        (.cons (m := ⟨.bracket, .outside⟩) ?_ ?_ (hquiet digits hdigits)) <;>
        simp [GroupScan.next, opensGroup, CallHead.continued?, Zone.next]
  cases h with
  | digits | wordCharacters | control => exact hfirst _ [] (by simp)
  | codePoint hlead hpoint => exact hfirst _ _ fun d hd => isSpecial_of_mem_codePoint? hpoint hd

/-- A bracket expression leads the scan back to its start. -/
lemma Draft.Spelled.counts {d : Draft} {items : List Char} {set : CharSet}
    (h : d.Spelled items set) : GroupScan.Counts ⟨.bracket, .outside⟩ items 0 .start := by
  have hone : ∀ {c : Char}, c ≠ '\\' → c ≠ ']' →
      GroupScan.Counts ⟨.bracket, .outside⟩ [c] 0 ⟨.bracket, .outside⟩ := fun hc hclose =>
    .one (next_bracket hc hclose).1 (next_bracket hc hclose).2
  have hname : ∀ {name : List Char}, (∀ c ∈ name, c.isAlphanum = true) →
      GroupScan.Counts ⟨.bracket, .outside⟩ name 0 ⟨.bracket, .outside⟩ := fun hall =>
    .of_forall fun c hc =>
      have hc := ne_of_isSpecial (isSpecial_of_isAlphanum (hall c hc))
      next_bracket hc.1 hc.2
  induction h with
  | close d => exact .one (by decide) (by decide)
  | caret _ _ ih | dash _ _ ih | colon _ _ ih =>
    exact .cons (next_bracket (by decide) (by decide)).1 (next_bracket (by decide) (by decide)).2 ih
  | escape he _ ih => simpa using (he.counts (.inr rfl)).append ih
  | name hne hall hranges _ ih =>
    have hcolon := hone (c := ':') (by decide) (by decide)
    simpa using (hcolon.append (hname hall)).append (hcolon.append ih)
  | range hlow hhigh hrange _ ih =>
    simp only [List.mem_cons, List.not_mem_nil, or_false, not_or] at hhigh
    simpa using (hone (c := '-') (by decide) (by decide)).append
      ((hone hhigh.2.2.2.2 hhigh.1).append ih)
  | rangeEscape hlow he hrange _ ih =>
    simpa using (hone (c := '-') (by decide) (by decide)).append ((he.counts (.inr rfl)).append ih)
  | member hc hcaret _ ih =>
    simp only [List.mem_cons, List.not_mem_nil, or_false, not_or] at hc
    simpa using (hone hc.2.2.2.2.1 hc.1).append ih

namespace RepeatCount

/-- The bound of a repeat count consists of ordinary characters. -/
lemma isSpecial_of_mem_bound {text : List Char} {n : Nat} (h : bound text = .ok n) {c : Char}
    (hc : c ∈ text) : isSpecial c = false := by
  unfold bound at h
  split at h
  · simp at h
  · rename_i n' hn
    obtain ⟨ns, hns, -⟩ := Option.map_eq_some_iff.1 hn
    obtain ⟨d, hd⟩ := exists_digit_of_mem_digits? hns hc
    exact isSpecial_of_decimalDigit? hd

/-- A count that can be read has readable bounds. -/
lemma ofBounds_of_ofText {text : List Char} {count : RepeatCount} (h : ofText text = .ok count) :
    ofBounds text = .ok count := by
  unfold ofText at h
  cases hbounds : ofBounds text with
  | error cause => simp [hbounds, bind, Except.bind] at h
  | ok count' =>
    simp only [hbounds, bind, Except.bind] at h
    repeat' split at h
    all_goals simp_all [pure, Except.pure]

/-- The body of a repeat count consists of digits and commas. -/
lemma isSpecial_of_mem_ofText {text : List Char} {count : RepeatCount}
    (h : ofText text = .ok count) {c : Char} (hc : c ∈ text) : c = ',' ∨ isSpecial c = false := by
  have hbounds := ofBounds_of_ofText h
  simp only [ofBounds] at hbounds
  obtain ⟨back, hback⟩ : text.takeWhile (· != ',') <+: text := List.takeWhile_prefix _
  generalize hfirst : text.takeWhile (· != ',') = first at hback hbounds
  rw [← hback, List.drop_left] at hbounds
  split at hbounds
  · rw [List.append_nil] at hback hbounds
    cases hn : bound first with
    | error cause => simp [hn, Except.map] at hbounds
    | ok n =>
      rw [← hback] at hc
      exact .inr (isSpecial_of_mem_bound hn hc)
  · rename_i comma second
    have hcomma : comma = ',' := by
      have hdrop : text.dropWhile (· != ',') = comma :: second := by
        have := List.takeWhile_append_dropWhile (p := (· != ',')) (l := text)
        rw [hfirst] at this
        exact List.append_cancel_left (this.trans hback.symm)
      have := List.head_dropWhile_not (· != ',') (by simp [hdrop] : text.dropWhile _ ≠ [])
      simpa [hdrop] using this
    cases hlow : bound first with
    | error cause => simp [hlow, bind, Except.bind] at hbounds
    | ok low =>
      cases hhigh : bound second with
      | error cause => simp [hlow, hhigh, bind, Except.bind] at hbounds
      | ok high =>
        rw [← hback, List.mem_append, List.mem_cons] at hc
        rcases hc with hc | rfl | hc
        · exact .inr (isSpecial_of_mem_bound hlow hc)
        · exact .inl hcomma
        · exact .inr (isSpecial_of_mem_bound hhigh hc)

end RepeatCount

namespace Token

/-- The name of a call keeps its head open. -/
lemma counts_name {name : List Char} (h : IsCallName name) :
    ∃ head, head ≠ .outside ∧ CallHead.continued? head '(' = some .outside ∧
      GroupScan.Counts ⟨.plain, .dollar⟩ name 0 ⟨.plain, head⟩ := by
  rcases h with rfl | ⟨hne, hall⟩
  · exact ⟨.complete, by decide, by decide, .one (by decide) (by decide)⟩
  · have hone : ∀ {head : CallHead} {c : Char}, head = .dollar ∨ head = .name →
        isNameCharacter c = true →
        GroupScan.next ⟨.plain, head⟩ c = ⟨.plain, .name⟩ ∧
          GroupScan.opensGroup ⟨.plain, head⟩ c = false := by
      intro head c hhead hc
      have hquestion : c ≠ '?' := by
        rintro rfl
        exact absurd hc (by decide)
      rcases hhead with rfl | rfl <;>
        simp [GroupScan.next, opensGroup, CallHead.continued?, hquestion, hc]
    cases name with
    | nil => exact absurd rfl hne
    | cons c name =>
      obtain ⟨hc, hname⟩ := List.forall_mem_cons.1 hall
      exact ⟨.name, by decide, by decide, .cons (hone (.inl rfl) hc).1 (hone (.inl rfl) hc).2
        (.of_forall fun d hd => hone (.inr rfl) (hname d hd))⟩

/-- What stands in parentheses counts as it does on its own. -/
lemma counts_enclosed {body : List Char}
    (h : closeParenthesis .plain 0 (body ++ [')']) = some (body, [])) :
    GroupScan.start.Counts (body ++ [')']) (countGroups body) .start := by
  have hzone : (GroupScan.start.after body).zone = .plain :=
    (zone_after valid_start body).1.trans (after_closeParenthesis h)
  have hclose := next_of_plain hzone (c := ')') (by simp)
  exact Counts.append (n := countGroups body) ⟨rfl, rfl⟩ (.one hclose.1 hclose.2)

/-- **Tokens and the group count agree**: behind a token the scan is in its first state, and it has
counted the groups that the token opens. -/
theorem Spelled.counts {i : Nat} {t : Token} {text : List Char} (h : t.Spelled i text) :
    GroupScan.start.Counts text t.groups .start := by
  cases h with
  | literal hc =>
    simp only [isStructural, List.mem_cons, List.not_mem_nil, or_false, decide_eq_false_iff_not,
      not_or] at hc
    exact .one (next_start (by simp; tauto)).1 (next_start (by simp; tauto)).2
  | escape he hdigit =>
    rename_i e text
    have hgroups : e.token.groups = 0 := by cases e <;> rfl
    rw [hgroups]
    exact he.counts (.inl rfl)
  | reference hne hdigits =>
    rename_i digits
    cases digits with
    | nil => exact absurd rfl hne
    | cons c digits =>
      refine .cons (m := ⟨.escaped, .outside⟩) (by decide) (by decide) (.cons (m := .start) ?_ ?_
        (.of_forall fun d hd => next_start (not_mem_of_isSpecial
          (isSpecial_of_isDigit (hdigits d (List.mem_cons_of_mem _ hd)))))) <;>
        simp [GroupScan.next, opensGroup, CallHead.continued?, Zone.next, start]
  | oneOf hitems => exact .cons (m := ⟨.bracket, .outside⟩) (by decide) (by decide) hitems.counts
  | repetition hbody hcount =>
    refine .of_forall fun c hc => next_start ?_
    simp only [List.mem_cons, List.mem_append, List.not_mem_nil, or_false] at hc
    rcases hc with rfl | hc | rfl
    · decide
    · rcases RepeatCount.isSpecial_of_mem_ofText hcount hc with rfl | hc
      · decide
      · exact not_mem_of_isSpecial hc
    · decide
  | group hclose =>
    exact Counts.append (x := ['(']) (n := 1) ⟨by decide, by decide⟩ (counts_enclosed hclose)
  | call hname hf hclose =>
    obtain ⟨head, hhead, hopen, hcounts⟩ := counts_name hname
    refine .cons (m := ⟨.plain, .dollar⟩) (by decide) (by decide) ?_
    have hparen : GroupScan.Counts ⟨.plain, head⟩ ['('] 0 .start := by
      refine .one ?_ ?_
      · simp [GroupScan.next, hopen, start]
      · simp [opensGroup, hopen]
    have := hcounts.append (hparen.append (counts_enclosed hclose))
    rwa [Nat.zero_add, Nat.zero_add] at this

end Token

/-! ## Parts -/

/-- The nesting moves through the zones of its text. -/
lemma Nesting.zone_step {n n' : Nesting} {position : Nat} {c : Char}
    (h : n.step position c = .ok n') : n'.zone = n.zone.next c := by
  unfold step at h
  split at h
  · rename_i hzone
    split at h
    · simp only [Except.ok.injEq] at h
      rw [← h]
    split at h
    · rename_i hcloser
      split at h
      · split at h
        · simp only [Except.ok.injEq] at h
          rw [← h, hzone]
          simp only [isCloser, Bool.or_eq_true, beq_iff_eq] at hcloser
          rcases hcloser with rfl | rfl <;> rfl
        · simp at h
      · simp at h
    · simp only [Except.ok.injEq] at h
      rw [← h]
  · rename_i hzone
    simp only [Except.ok.injEq] at h
    rw [← h, hzone]
  · simp only [Except.ok.injEq] at h
    rw [← h]

/-- The groups in front of the first separator and the groups of the later parts are those of the
whole text. -/
lemma count_splitFrom {separator : Char} (hsep : separator ∈ [')', '|', ',']) {n : Nesting}
    {s : GroupScan} {position : Nat} {text part : List Char} {later : List Slice}
    (hzone : s.zone = n.zone) (hs : s.Valid)
    (h : splitFrom separator n position text = .ok (part, later)) :
    s.count text = s.count part + (later.map fun p => countGroups p.text).sum := by
  induction text generalizing n s position part later with
  | nil =>
    unfold splitFrom at h
    split at h
    · simp only [Except.ok.injEq, Prod.mk.injEq] at h
      obtain ⟨rfl, rfl⟩ := h
      rfl
    · simp at h
  | cons c rest ih =>
    unfold splitFrom at h
    split at h
    · rename_i hcut
      simp only [Nesting.cutsAt, Bool.and_eq_true, beq_iff_eq] at hcut
      obtain ⟨⟨⟨hplain, -⟩, rfl⟩, -⟩ := hcut
      have hnext := next_of_plain (hzone.trans hplain) hsep
      split at h
      · rename_i part' later' hrest
        simp only [Except.ok.injEq, Prod.mk.injEq] at h
        obtain ⟨rfl, rfl⟩ := h
        have hrest := ih (s := .start) hplain.symm valid_start hrest
        calc s.count (_ :: rest) = GroupScan.start.count rest := by
              simp [GroupScan.count, hnext.1, hnext.2]
          _ = _ := by simp [hrest, GroupScan.count, countGroups]
      · simp at h
    · split at h
      · rename_i n' hstep
        split at h
        · rename_i part' later' hrest
          simp only [Except.ok.injEq, Prod.mk.injEq] at h
          obtain ⟨rfl, rfl⟩ := h
          obtain ⟨hzone', hs'⟩ := zone_next hs c
          have := ih (hzone'.trans (by rw [hzone, Nesting.zone_step hstep])) hs' hrest
          rw [GroupScan.count, this, GroupScan.count]
          omega
        · simp at h
      · simp at h

/-- The parts of a slice open the groups of the slice. -/
theorem sum_countGroups_split {separator : Char} (hsep : separator ∈ [')', '|', ',']) {s : Slice}
    {parts : List Slice} (h : s.split separator = .ok parts) :
    (parts.map fun p => countGroups p.text).sum = countGroups s.text := by
  unfold Slice.split at h
  split at h
  · rename_i part later hfrom
    simp only [Except.ok.injEq] at h
    subst h
    exact (count_splitFrom hsep rfl valid_start hfrom).symm
  · simp at h

end PatternSampler
