import PatternSampler.Pattern.Parse
import PatternSampler.Proofs.Language.Grammar
import PatternSampler.Proofs.Numbering.Scan

set_option autoImplicit false

/-!
# Where bodies of groups are cut

The body of a group is cut at its bars before its branches are read. Each construct that stands in
a group leads past itself to where cutting goes on as in front of it, so the bars at which a body
is cut are those between its branches.

## Main definitions

* `Nesting.Leads` — a text in which nothing is cut, and the nesting behind it.
* `Uncut` — a text that is a single part.

## Main results

* `DenotesPiece.leads`, `DenotesRow.leads` — cutting goes past constructs and their counts.
* `exists_of_splitParts` — the parts of a slice are uncut, and with bars between them they are the
  slice.
-/

namespace PatternSampler

namespace Nesting

variable {n m n' : Nesting} {x y : List Char} {c : Char}

/-- Nothing is cut in `text`, and behind it cutting at bars goes on from `n'`. -/
def Leads (n : Nesting) (text : List Char) (n' : Nesting) : Prop :=
  ∀ position rest, splitFrom '|' n position (text ++ rest) =
    (splitFrom '|' n' (position + text.length) rest).map fun (part, later) => (text ++ part, later)

namespace Leads

/-- Nothing leads from a nesting to itself. -/
protected lemma nil (n : Nesting) : n.Leads [] n := by
  intro position rest
  show splitFrom '|' n position rest = (splitFrom '|' n position rest).map id
  cases splitFrom '|' n position rest <;> rfl

/-- Texts that cutting passes over, one behind the other. -/
protected lemma append (h : n.Leads x m) (h' : m.Leads y n') : n.Leads (x ++ y) n' := by
  intro position rest
  rw [List.append_assoc, h, h', List.length_append, Nat.add_assoc]
  cases splitFrom '|' n' (position + (x.length + y.length)) rest with
  | error e => rfl
  | ok p => simp [Except.map]

/-- One character that is no bar to cut at, and that the nesting accepts at every position. -/
lemma one (hcut : n.cutsAt '|' c = false) (hstep : ∀ position, n.step position c = .ok n') :
    n.Leads [c] n' := by
  intro position rest
  show splitFrom '|' n position (c :: rest) = _
  rw [splitFrom, if_neg (by simp [hcut])]
  simp only [hstep position]
  rw [List.length_singleton]
  cases splitFrom '|' n' (position + 1) rest <;> rfl

/-- One more character in front of a text that cutting passes over. -/
lemma cons (hcut : n.cutsAt '|' c = false) (hstep : ∀ position, n.step position c = .ok m)
    (h : m.Leads x n') : n.Leads (c :: x) n' :=
  (one hcut hstep).append h

/-- A text whose characters all keep the nesting keeps it as a whole. -/
lemma of_forall (h : ∀ c ∈ x, n.Leads [c] n) : n.Leads x n := by
  induction x with
  | nil => exact .nil n
  | cons c x ih =>
    obtain ⟨hc, hx⟩ := List.forall_mem_cons.1 h
    exact hc.append (ih hx)

end Leads

variable {opens : List (Nat × Char)}

/-- An opener and what leads out of it again. -/
lemma leads_enclosed (hopener : isOpener c = true)
    (h : ∀ position,
      (⟨Zone.plain.next c, (position, c) :: opens⟩ : Nesting).Leads x ⟨.plain, opens⟩) :
    (⟨.plain, opens⟩ : Nesting).Leads (c :: x) ⟨.plain, opens⟩ := by
  intro position rest
  have hcut : (⟨.plain, opens⟩ : Nesting).cutsAt '|' c = false := by simp [cutsAt, hopener]
  rw [List.cons_append, splitFrom, if_neg (by simp [hcut])]
  simp only [step, hopener, if_true]
  rw [h position (position + 1) rest, List.length_cons, Nat.add_assoc, Nat.add_comm 1]
  cases splitFrom '|' ⟨.plain, opens⟩ (position + (x.length + 1)) rest <;> rfl

/-- An ordinary character keeps a nesting outside brackets. -/
lemma leads_plain (hspecial : isSpecial c = false) :
    (⟨.plain, opens⟩ : Nesting).Leads [c] ⟨.plain, opens⟩ := by
  simp only [isSpecial, List.mem_cons, List.not_mem_nil, or_false, decide_eq_false_iff_not,
    not_or] at hspecial
  refine .one ?_ fun position => ?_
  · simp [cutsAt, hspecial]
  · simp [step, isOpener, isCloser, Zone.next, hspecial]

/-- Inside a bracket expression only its end and the backslash change the nesting. -/
lemma leads_bracket (hescape : c ≠ '\\') (hclose : c ≠ ']') :
    (⟨.bracket, opens⟩ : Nesting).Leads [c] ⟨.bracket, opens⟩ :=
  .one rfl fun position => by simp [step, Zone.next, hescape, hclose]

end Nesting

open Nesting

/-! ## Tokens -/

/-- An escape is passed over outside and inside a bracket expression. -/
lemma Escape.Spelled.leads {e : Escape} {text : List Char} (h : e.Spelled text) {z : Zone}
    (hz : z = .plain ∨ z = .bracket) (opens : List (Nat × Char)) :
    (⟨z, opens⟩ : Nesting).Leads ('\\' :: text) ⟨z, opens⟩ := by
  -- the character behind the backslash is passed whatever it is, and digits mean nothing
  have hfirst : ∀ (c : Char) (digits : List Char), (∀ d ∈ digits, isSpecial d = false) →
      (⟨z, opens⟩ : Nesting).Leads ('\\' :: c :: digits) ⟨z, opens⟩ := by
    intro c digits hdigits
    rcases hz with rfl | rfl
    · refine .cons (m := ⟨.escaped, opens⟩) ?_ (fun _ => ?_) (.cons (m := ⟨.plain, opens⟩) rfl
        (fun _ => rfl) (.of_forall fun d hd => leads_plain (hdigits d hd)))
      · simp [cutsAt]
      · simp [step, isOpener, isCloser, Zone.next]
    · refine .cons (m := ⟨.bracketEscaped, opens⟩) rfl (fun _ => rfl)
        (.cons (m := ⟨.bracket, opens⟩) rfl (fun _ => rfl) (.of_forall fun d hd => ?_))
      obtain ⟨hescape, hclose⟩ := GroupScan.ne_of_isSpecial (hdigits d hd)
      exact leads_bracket hescape hclose
  cases h with
  | digits | wordCharacters | control => exact hfirst _ [] (by simp)
  | codePoint hlead hpoint => exact hfirst _ _ fun d hd => isSpecial_of_mem_codePoint? hpoint hd

/-- The items of a bracket expression lead out of it. -/
lemma Draft.Spelled.leads {d : Draft} {items : List Char} {set : CharSet}
    (h : d.Spelled items set) (o : Nat × Char) (opens : List (Nat × Char)) :
    (⟨.bracket, o :: opens⟩ : Nesting).Leads items ⟨.plain, opens⟩ := by
  have hcolon : (⟨.bracket, o :: opens⟩ : Nesting).Leads [':'] ⟨.bracket, o :: opens⟩ :=
    leads_bracket (by decide) (by decide)
  have hdash : (⟨.bracket, o :: opens⟩ : Nesting).Leads ['-'] ⟨.bracket, o :: opens⟩ :=
    leads_bracket (by decide) (by decide)
  induction h with
  | close d => exact .one rfl fun _ => rfl
  | caret _ _ ih => exact (leads_bracket (c := '^') (by decide) (by decide)).append ih
  | colon _ _ ih => exact hcolon.append ih
  | dash _ _ ih => exact hdash.append ih
  | escape he _ ih => simpa using (he.leads (.inr rfl) (o :: opens)).append ih
  | @name d name items ranges set hne hall hranges _ ih =>
    have hname : (⟨.bracket, o :: opens⟩ : Nesting).Leads name ⟨.bracket, o :: opens⟩ := by
      refine .of_forall fun c hc => ?_
      obtain ⟨hescape, hclose⟩ := GroupScan.ne_of_isSpecial (isSpecial_of_isAlphanum (hall c hc))
      exact leads_bracket hescape hclose
    simpa using (hcolon.append hname).append (hcolon.append ih)
  | range hlow hhigh hrange _ ih =>
    simp only [List.mem_cons, List.not_mem_nil, or_false, not_or] at hhigh
    exact hdash.append ((leads_bracket hhigh.2.2.2.2 hhigh.1).append ih)
  | rangeEscape hlow he hrange _ ih =>
    simpa using hdash.append ((he.leads (.inr rfl) (o :: opens)).append ih)
  | member hc hcaret _ ih =>
    simp only [List.mem_cons, List.not_mem_nil, or_false, not_or] at hc
    exact (leads_bracket hc.2.2.2.2.1 hc.1).append ih

/-- Written repeat counts are passed over, although they have braces around them. -/
lemma RepeatCount.Spelled.leads {counts : List RepeatCount} {text : List Char}
    (h : Spelled counts text) (opens : List (Nat × Char)) :
    (⟨.plain, opens⟩ : Nesting).Leads text ⟨.plain, opens⟩ := by
  induction h with
  | nil => exact .nil _
  | @cons body text count counts hbody hcount h ih =>
    have hbraces : (⟨.plain, opens⟩ : Nesting).Leads ('\x7b' :: (body ++ ['\x7d']))
        ⟨.plain, opens⟩ := by
      refine leads_enclosed rfl fun position => .append (.of_forall fun c hc => ?_)
        (.one rfl fun _ => rfl)
      rcases RepeatCount.isSpecial_of_mem_ofText hcount hc with rfl | hc
      · exact .one rfl fun _ => rfl
      · exact leads_plain hc
    simpa using hbraces.append ih

/-! ## Constructs in groups -/

mutual

/-- Cutting goes past a row of constructs in a group. -/
lemma DenotesRow.leads {inGroup : Bool} (hgroup : inGroup = true) {x : List Char}
    {L : Language Char} (opens : List (Nat × Char)) :
    DenotesRow inGroup x L → (⟨.plain, opens⟩ : Nesting).Leads x ⟨.plain, opens⟩
  | .nil _ => .nil _
  | .cons hx hy hz =>
    (hx.leads hgroup opens).append ((hy.leads opens).append (hz.leads hgroup opens))

/-- Cutting goes past a construct in a group. -/
lemma DenotesPiece.leads {inGroup : Bool} (hgroup : inGroup = true) {x : List Char}
    {L : Language Char} (opens : List (Nat × Char)) :
    DenotesPiece inGroup x L → (⟨.plain, opens⟩ : Nesting).Leads x ⟨.plain, opens⟩
  | .literal hc hbar => by
    simp only [isStructural, List.mem_cons, List.not_mem_nil, or_false, decide_eq_false_iff_not,
      not_or] at hc
    refine .one ?_ fun position => ?_
    · simp [cutsAt, hbar hgroup]
    · simp [step, isOpener, isCloser, Zone.next, hc]
  | .escape he _ => he.leads (.inl rfl) opens
  | .bracket hitems => leads_enclosed rfl fun position => hitems.leads (position, '[') opens
  | .group hbody => leads_enclosed rfl fun position =>
    (hbody.leads (position, '(') opens).append (.one rfl fun _ => rfl)

/-- Inside its parentheses nothing is cut out of the body of a group. -/
lemma DenotesBody.leads {x : List Char} {L : Language Char} (o : Nat × Char)
    (opens : List (Nat × Char)) :
    DenotesBody x L → (⟨.plain, o :: opens⟩ : Nesting).Leads x ⟨.plain, o :: opens⟩
  | .one hx => hx.leads rfl (o :: opens)
  | .more hx hy => (hx.leads rfl (o :: opens)).append (.cons rfl (fun _ => rfl) (hy.leads o opens))

end

/-! ## Parts -/

/-- Nothing is cut out of the text. -/
def Uncut (text : List Char) : Prop :=
  ∃ position, splitFrom '|' .outermost position text = .ok (text, [])

/-- What stands behind a text that cutting passes over is cut nowhere either. -/
lemma Uncut.of_leads {x y : List Char} (h : Uncut (x ++ y))
    (hx : Nesting.outermost.Leads x .outermost) : Uncut y := by
  obtain ⟨position, h⟩ := h
  rw [hx] at h
  refine ⟨position + x.length, ?_⟩
  cases hy : splitFrom '|' .outermost (position + x.length) y with
  | error e => simp [hy, Except.map] at h
  | ok p => simpa [hy, Except.map, Prod.ext_iff] using h

/-- A text that starts with a bar is cut. -/
lemma not_uncut_bar (text : List Char) : ¬Uncut ('|' :: text) := by
  rintro ⟨position, h⟩
  have hcut : Nesting.outermost.cutsAt '|' '|' = true := rfl
  rw [splitFrom, if_pos hcut] at h
  split at h <;> simp at h

/-- None of the parts that a text is cut into is cut again, and with separators between them they
are the text. -/
lemma parts_of_splitFrom {separator : Char} {n : Nesting} {position : Nat} {text part : List Char}
    {later : List Slice} (h : splitFrom separator n position text = .ok (part, later)) :
    splitFrom separator n position part = .ok (part, []) ∧
      (∀ s ∈ later, splitFrom separator .outermost s.start s.text = .ok (s.text, [])) ∧
      text = part ++ later.flatMap fun s => separator :: s.text := by
  induction text generalizing n position part later with
  | nil =>
    have hsplit := h
    unfold splitFrom at h
    split at h
    · simp only [Except.ok.injEq, Prod.mk.injEq] at h
      obtain ⟨rfl, rfl⟩ := h
      exact ⟨hsplit, by simp, rfl⟩
    · cases h
  | cons c rest ih =>
    rw [splitFrom] at h
    split at h
    · rename_i hcut
      simp only [cutsAt, Bool.and_eq_true, beq_iff_eq, List.isEmpty_iff] at hcut
      obtain ⟨⟨⟨hplain, hopens⟩, rfl⟩, -⟩ := hcut
      have hn : n = .outermost := by
        cases n
        simp_all [outermost]
      split at h
      · rename_i part' later' hrest
        obtain ⟨hpart, hlater, rfl⟩ := ih hrest
        simp only [Except.ok.injEq, Prod.mk.injEq] at h
        obtain ⟨rfl, rfl⟩ := h
        refine ⟨by rw [hn]; rfl, ?_, rfl⟩
        rw [List.forall_mem_cons]
        exact ⟨hn ▸ hpart, hlater⟩
      · cases h
    · rename_i hcut
      split at h
      · rename_i n' hstep
        split at h
        · rename_i part' later' hrest
          obtain ⟨hpart, hlater, rfl⟩ := ih hrest
          simp only [Except.ok.injEq, Prod.mk.injEq] at h
          obtain ⟨rfl, rfl⟩ := h
          refine ⟨?_, hlater, rfl⟩
          rw [splitFrom, if_neg hcut]
          simp only [hstep, hpart]
        · cases h
      · cases h

/-- The parts that a text is cut into are uncut, and with bars between them they are the text. -/
lemma uncut_of_splitFrom {n : Nesting} {position : Nat} {text part : List Char}
    {later : List Slice} (h : splitFrom '|' n position text = .ok (part, later)) :
    splitFrom '|' n position part = .ok (part, []) ∧ (∀ s ∈ later, Uncut s.text) ∧
      text = part ++ later.flatMap fun s => '|' :: s.text := by
  obtain ⟨hpart, hlater, htext⟩ := parts_of_splitFrom h
  exact ⟨hpart, fun s hs => ⟨s.start, hlater s hs⟩, htext⟩

/-- The parts of a slice are uncut, and with bars between them they are the slice. -/
lemma exists_of_splitParts {s : Slice} {parts : List Slice} (h : splitParts '|' s = .ok parts) :
    ∃ first later, parts = first :: later ∧ Uncut first.text ∧ (∀ part ∈ later, Uncut part.text) ∧
      s.text = first.text ++ later.flatMap fun part => '|' :: part.text := by
  unfold splitParts at h
  split at h
  · rename_i parts' hsplit
    unfold Slice.split at hsplit
    split at hsplit
    · rename_i part later hfrom
      cases h
      cases hsplit
      obtain ⟨hpart, hlater, htext⟩ := uncut_of_splitFrom hfrom
      exact ⟨⟨s.start, part⟩, later, rfl, ⟨_, hpart⟩, hlater, htext⟩
    · cases hsplit
  · cases h

end PatternSampler
