import PatternSampler.Pattern.Parse
import PatternSampler.Proofs.Reading.TokenSpelling

set_option autoImplicit false

/-!
# Where faults of reading stand

A fault that is met while a slice is read stands inside the slice, also where the slice ends too
early and where what is underlined is empty.

## Main definitions

* `Span.Between` — what is underlined for a span lies between two positions.
* `Fault.StandsIn` — a fault at a place with a property, and not of an unknown kind.
* `Slice.ReadsFrom` — a reader goes on in the slice or reports a fault in it.

## Main results

* `readsFrom_readBracket` — faults of bracket expressions.
* `Token.standsIn_of_next` — faults of tokens.
* `standsIn_of_splitParts` — faults of cutting at separators.
-/

namespace PatternSampler

/-! ## Places -/

/-- What is underlined for a span lies between two positions. An empty span is underlined with one
character. -/
def Span.Between (low high : Nat) (s : Span) : Prop :=
  low ≤ s.start ∧ s.start + max s.length 1 ≤ high

/-- A span lies between positions further apart as well. -/
lemma Span.Between.mono {low low' high high' : Nat} {s : Span} (h : s.Between low high)
    (hlow : low' ≤ low) (hhigh : high ≤ high') : s.Between low' high' :=
  ⟨Nat.le_trans hlow h.1, Nat.le_trans h.2 hhigh⟩

/-- A mistake in a pattern that stands at a place with the property `P`. -/
def Fault.StandsIn (P : Span → Prop) (fault : Fault) : Prop :=
  fault.cause.kind ≠ .unknown ∧ ∃ span, fault.place = some span ∧ P span

/-- A mistake stands at a place with any weaker property. -/
lemma Fault.StandsIn.imp {P P' : Span → Prop} {fault : Fault} (h : fault.StandsIn P)
    (hP : ∀ span, P span → P' span) : fault.StandsIn P' := by
  obtain ⟨hkind, span, hplace, hspan⟩ := h
  exact ⟨hkind, span, hplace, hP span hspan⟩

/-- A mistake with a place stands where this place is. -/
lemma Fault.standsIn_located {low high start length : Nat} {cause : Cause}
    (hkind : cause.kind ≠ .unknown) (hlow : low ≤ start) (hhigh : start + max length 1 ≤ high) :
    (located cause start length).StandsIn (Span.Between low high) :=
  ⟨hkind, ⟨start, length⟩, rfl, hlow, hhigh⟩

/-- What a reader of a slice yields: it goes on somewhere in the slice, or it reports a fault
between `low` and the end of the slice. -/
def Slice.ReadsFrom (low : Nat) (s : Slice) {α : Type} (rest : α → Slice) : Except Fault α → Prop
  | .ok x => s.start ≤ (rest x).start ∧ (rest x).stop = s.stop
  | .error fault => fault.StandsIn (Span.Between low s.stop)

/-- A slice does not end in front of its start. -/
lemma Slice.start_le_stop (s : Slice) : s.start ≤ s.stop := Nat.le_add_right _ _

/-! ## Escapes -/

/-- Reading a code point goes on in the slice, or blames a place behind the start. -/
lemma readsFrom_readCodePoint {start count : Nat} {s : Slice} (h : start < s.start) :
    s.ReadsFrom start Prod.snd (readCodePoint start count s) := by
  have hstop := s.start_le_stop
  simp only [readCodePoint]
  split
  · exact Fault.standsIn_located (by simp) (Nat.le_refl _) (by omega)
  · rename_i hcount
    have hlength : s.stop = s.start + s.length := rfl
    split
    · refine ⟨Nat.le_add_right _ _, Slice.stop_drop (by omega)⟩
    · exact Fault.standsIn_located (by simp) (Nat.le_refl _) (by omega)

/-- A fault in an escape stands behind its backslash. -/
lemma standsIn_of_readEscape {start : Nat} {s : Slice} {fault : Fault} (h : start < s.start)
    (hread : readEscape start s = .error fault) :
    fault.StandsIn (Span.Between start s.stop) := by
  have hpoint : ∀ {count : Nat} {c : Char} {tail : List Char}, s.text = c :: tail →
      readCodePoint start count (s.drop 1) = .error fault →
      fault.StandsIn (Span.Between start s.stop) := by
    intro count c tail htext hpoint
    have hfits : (s.drop 1).ReadsFrom start Prod.snd (readCodePoint start count (s.drop 1)) :=
      readsFrom_readCodePoint (Nat.lt_succ_of_lt h)
    rw [hpoint] at hfits
    rwa [← Slice.stop_drop (n := 1) (s := s) (by simp [Slice.length, htext])]
  unfold readEscape at hread
  split at hread
  case h_4 | h_5 =>
    rename_i htext
    generalize hr : readCodePoint start _ (s.drop 1) = r at hread
    cases r <;> cases hread
    exact hpoint htext hr
  all_goals cases hread

/-! ## Bracket expressions -/

namespace Slice.ReadsFrom

variable {α : Type} {low low' : Nat} {s mid : Slice} {rest : α → Slice} {r : Except Fault α}

/-- Reading on behind the front of a slice. -/
lemma behind (h : mid.ReadsFrom low rest r) (hlow : low' ≤ low) (hstart : s.start ≤ mid.start)
    (hstop : mid.stop = s.stop) : s.ReadsFrom low' rest r := by
  cases r with
  | ok x => exact ⟨Nat.le_trans hstart h.1, h.2.trans hstop⟩
  | error fault =>
    exact Fault.StandsIn.imp h fun span hspan => hspan.mono hlow (Nat.le_of_eq hstop)

end Slice.ReadsFrom

namespace Draft

variable {position : Nat} {d : Draft} {s : Slice}

/-- Closing a range goes on in the slice, or blames the range. -/
lemma readsFrom_closeRange {low high : Char} (h : position < s.start) :
    s.ReadsFrom position BracketStep.rest (d.closeRange position low high s) := by
  have hstop := s.start_le_stop
  unfold closeRange
  split
  · exact ⟨Nat.le_refl _, rfl⟩
  · exact Fault.standsIn_located (by simp) (Nat.le_refl _) (by omega)

/-- Reading the end of a range goes on in the slice, or blames the range. -/
lemma readsFrom_stepRangeEnd {low c : Char} (h : position + 2 = s.start) :
    s.ReadsFrom position BracketStep.rest (d.stepRangeEnd position low c s) := by
  have hstop := s.start_le_stop
  unfold stepRangeEnd
  split
  · exact Fault.standsIn_located (by simp) (Nat.le_succ _) (by omega)
  split
  · exact Fault.standsIn_located (by simp) (Nat.le_succ _) (by omega)
  split
  · split
    · rename_i fault hread
      exact (standsIn_of_readEscape (by omega) hread).imp fun span hspan =>
        hspan.mono (Nat.le_succ _) (Nat.le_refl _)
    · exact ⟨Nat.le_refl _, rfl⟩
    · rename_i high rest hread
      obtain ⟨text, -, hstarts⟩ := readEscape_spelled hread
      have hstart := hstarts.start_eq
      exact (readsFrom_closeRange (by omega)).behind (Nat.le_refl _) (by omega) hstarts.stop_eq
    · rename_i read _ hread
      obtain ⟨text, htext, hstarts⟩ := readEscape_spelled hread
      have hlength := hstarts.length_eq
      have hstop : s.stop = s.start + s.length := rfl
      have := htext.length_pos
      exact Fault.standsIn_located (by simp) (Nat.le_succ _) (by omega)
  · exact readsFrom_closeRange (by omega)

/-- Reading behind a hyphen goes on in the slice, or blames the range. -/
lemma readsFrom_stepRange (h : position + 1 = s.start) :
    s.ReadsFrom position BracketStep.rest (d.stepRange position s) := by
  unfold stepRange
  split
  · rename_i low c tail _ htext
    split
    · exact ⟨Nat.le_refl _, rfl⟩
    · have hstart : (s.drop 1).start = s.start + 1 := rfl
      exact (readsFrom_stepRangeEnd (by omega)).behind (Nat.le_refl _) (by omega)
        (Slice.stop_drop (by simp [Slice.length, htext]))
  · exact ⟨Nat.le_refl _, rfl⟩

/-- The name of a class is followed by a colon. -/
lemma length_of_setName? {text name : List Char} (h : setName? text = some name) :
    name.length + 1 ≤ text.length := by
  simp only [setName?] at h
  split at h
  · rename_i back hback
    split at h <;> cases h
    have := congrArg List.length hback
    simp only [List.length_drop, List.length_cons] at this
    omega
  · cases h

/-- Reading a named class goes on in the slice, or blames the name. -/
lemma readsFrom_stepName (h : position + 1 = s.start) :
    s.ReadsFrom position BracketStep.rest (d.stepName position s) := by
  have hstop : s.stop = s.start + s.text.length := rfl
  unfold stepName
  split
  · exact ⟨Nat.le_refl _, rfl⟩
  · rename_i name hname
    have hlength := length_of_setName? hname
    split
    · exact ⟨Nat.le_add_right _ _, Slice.stop_drop hlength⟩
    · exact Fault.standsIn_located (by simp) (Nat.le_refl _) (by omega)

/-- An item is read in the slice behind its first character, or a fault in it is reported. -/
lemma readsFrom_step {c : Char} (h : position + 1 = s.start) :
    s.ReadsFrom position BracketStep.rest (d.step position c s) := by
  have hstop := s.start_le_stop
  unfold step
  split
  · exact ⟨Nat.le_refl _, rfl⟩
  split
  · exact ⟨Nat.le_refl _, rfl⟩
  split
  · exact Fault.standsIn_located (by simp) (Nat.le_refl _) (by omega)
  split
  · exact Fault.standsIn_located (by simp) (Nat.le_refl _) (by omega)
  split
  · split
    · rename_i fault hread
      exact standsIn_of_readEscape (by omega) hread
    · exact ⟨Nat.le_refl _, rfl⟩
    · rename_i e rest hread
      obtain ⟨text, -, hstarts⟩ := readEscape_spelled hread
      exact ⟨hstarts.start_eq ▸ Nat.le_add_right _ _, hstarts.stop_eq⟩
  split
  · exact readsFrom_stepName h
  split
  · exact readsFrom_stepRange h
  · exact ⟨Nat.le_refl _, rfl⟩

end Draft

/-- A fault in a bracket expression stands behind its opening bracket. -/
theorem readsFrom_readBracket {opening : Nat} (d : Draft) (s : Slice) (h : opening < s.start) :
    s.ReadsFrom opening Prod.snd (readBracket opening d s) := by
  fun_induction readBracket opening d s with
  | case1 d s htext =>
    have hstop := s.start_le_stop
    exact Fault.standsIn_located (by simp) (Nat.le_refl _) (by omega)
  | case2 d s c tail htext fault hstep =>
    have hitem := Draft.readsFrom_step (d := d) (c := c) (s := s.drop 1) rfl
    rw [hstep] at hitem
    exact hitem.behind (Nat.le_of_lt h) (Nat.le_succ _)
      (Slice.stop_drop (by simp [Slice.length, htext]))
  | case3 d s c tail htext rest hstep =>
    have hitem := Draft.readsFrom_step (d := d) (c := c) (s := s.drop 1) rfl
    rw [hstep] at hitem
    exact hitem.behind (Nat.le_of_lt h) (Nat.le_succ _)
      (Slice.stop_drop (by simp [Slice.length, htext]))
  | case4 d s c tail htext d' rest hstep ih =>
    have hitem := Draft.readsFrom_step (d := d) (c := c) (s := s.drop 1) rfl
    rw [hstep] at hitem
    have hdrop : (s.drop 1).stop = s.stop := Slice.stop_drop (by simp [Slice.length, htext])
    have hstart : s.start < rest.start := hitem.1
    exact (ih (by omega)).behind (Nat.le_refl _) (Nat.le_of_lt hstart) (hitem.2.trans hdrop)

/-! ## Tokens -/

/-- Two actions in a row fail if the first one does or the second one behind it. -/
lemma eq_error_or_of_bind {ε α β : Type} {x : Except ε α} {f : α → Except ε β} {e : ε}
    (h : x >>= f = .error e) : x = .error e ∨ ∃ a, f a = .error e := by
  cases x with
  | error =>
    cases h
    exact .inl rfl
  | ok a => exact .inr ⟨a, h⟩

namespace RepeatCount

variable {text : List Char} {cause : Cause}

/-- What is wrong with a count that cannot be read. -/
inductive IsCause : Cause → Prop
  | invalidNumber (text : String) : IsCause (.invalidNumber text)
  | tooLarge : IsCause .repeatTooLarge
  | empty : IsCause .emptyRepeat
  | reversed (low high : Nat) : IsCause (.reversedRepeat low high)

/-- A bound that cannot be read has a cause of a count. -/
lemma isCause_of_bound (h : bound text = .error cause) : IsCause cause := by
  unfold bound at h
  split at h
  · cases h
    exact .invalidNumber _
  · split at h <;> cases h
    exact .tooLarge

/-- Bounds that cannot be read have a cause of a count. -/
lemma isCause_of_ofBounds (h : ofBounds text = .error cause) : IsCause cause := by
  simp only [ofBounds] at h
  split at h
  · generalize hone : bound text = r at h
    cases r <;> cases h
    exact isCause_of_bound hone
  · obtain hfirst | ⟨_, h⟩ := eq_error_or_of_bind h
    · exact isCause_of_bound hfirst
    obtain hsecond | ⟨_, h⟩ := eq_error_or_of_bind h
    · exact isCause_of_bound hsecond
    · cases h

/-- A count that cannot be read has a cause of a count. -/
lemma isCause_of_ofText (h : ofText text = .error cause) : IsCause cause := by
  obtain hbounds | ⟨count, h⟩ := eq_error_or_of_bind h
  · exact isCause_of_ofBounds hbounds
  split at h
  · cases h
    exact .empty
  split at h
  · cases h
    exact .reversed _ _
  split at h <;> cases h
  exact .tooLarge

/-- A count that cannot be read is a mistake of a value. -/
lemma kind_of_ofText (h : ofText text = .error cause) : cause.kind = .value := by
  cases isCause_of_ofText h <;> rfl

end RepeatCount

namespace Token

variable {s : Slice} {fault : Fault}

/-- A fault at the front of a slice. -/
lemma standsIn_front {cause : Cause} {length : Nat} (hkind : cause.kind ≠ .unknown)
    (hs : 0 < s.length) (hlength : length ≤ s.length) :
    (Fault.located cause s.start length).StandsIn (Span.Between s.start s.stop) := by
  refine Fault.standsIn_located hkind (Nat.le_refl _) ?_
  simp only [Slice.stop]
  omega

/-- What is wrong with an escaped character is underlined inside the slice. -/
lemma standsIn_of_readEscaped (hs : 0 < s.length) (h : readEscaped s = .error fault) :
    fault.StandsIn (Span.Between s.start s.stop) := by
  simp only [readEscaped] at h
  split at h
  · split at h <;> cases h
    · rename_i hread
      exact (standsIn_of_readEscape (Nat.lt_succ_self _) hread).imp fun span hspan =>
        hspan.mono (Nat.le_refl _) (Nat.le_of_eq (Slice.stop_drop hs))
    · exact standsIn_front (by simp) hs hs
  · cases h

/-- What is wrong with a bracket expression is underlined inside the slice. -/
lemma standsIn_of_readSet (hs : 0 < s.length) (h : readSet s = .error fault) :
    fault.StandsIn (Span.Between s.start s.stop) := by
  unfold readSet at h
  have hset := readsFrom_readBracket .start (s.drop 1) (Nat.lt_succ_self s.start)
  generalize readBracket s.start .start (s.drop 1) = r at h hset
  cases r <;> cases h
  exact Fault.StandsIn.imp hset fun span hspan =>
    hspan.mono (Nat.le_refl _) (Nat.le_of_eq (Slice.stop_drop hs))

/-- What is wrong with a repeat count is underlined inside the slice. -/
lemma standsIn_of_readRepetition (hs : 0 < s.length) (h : readRepetition s = .error fault) :
    fault.StandsIn (Span.Between s.start s.stop) := by
  simp only [readRepetition] at h
  split at h
  · cases h
    exact standsIn_front (by simp) hs (Nat.le_refl _)
  · split at h <;> cases h
    rename_i hcount
    have hkind := RepeatCount.kind_of_ofText hcount
    exact standsIn_front (by simp [hkind]) hs (by omega)

/-- What is wrong with a group is underlined inside the slice. -/
lemma standsIn_of_readGroup (hs : 0 < s.length) (h : readGroup s = .error fault) :
    fault.StandsIn (Span.Between s.start s.stop) := by
  unfold readGroup at h
  split at h <;> cases h
  exact standsIn_front (by simp) hs (Nat.le_refl _)

/-- What is wrong with a call is underlined inside the slice. -/
lemma standsIn_of_readCall (hs : 0 < s.length) (h : readCall s = .error fault) :
    fault.StandsIn (Span.Between s.start s.stop) := by
  have hname := length_callName_le (s.text.drop 1)
  rw [List.length_drop] at hname
  simp only [readCall] at h
  split at h
  · cases h
    refine standsIn_front (by simp) hs ?_
    simp only [Slice.length] at hs ⊢
    omega
  · rename_i c back hback
    have hlength := congrArg List.length hback
    rw [List.length_drop, List.length_cons] at hlength
    have hroom : (callName (s.text.drop 1)).length + 2 ≤ s.length := by
      simp only [Slice.length]
      omega
    split at h
    · cases h
      exact standsIn_front (by simp) hs hroom
    split at h
    · cases h
      exact standsIn_front (by simp) hs hs
    unfold readArguments at h
    split at h
    · cases h
      exact standsIn_front (by simp) hs (Nat.le_refl _)
    · split at h <;> cases h
      exact standsIn_front (by simp) hs hroom

/-- A fault at the front of a slice stands inside the slice. -/
theorem standsIn_of_next (h : next s = .error fault) :
    fault.StandsIn (Span.Between s.start s.stop) := by
  unfold next at h
  split at h
  · cases h
  · rename_i c tail hs
    have hpos : 0 < s.length := by simp [Slice.length, hs]
    generalize hr : readFrom c s = r at h
    cases r <;> cases h
    unfold readFrom at hr
    split at hr
    · exact standsIn_of_readEscaped hpos hr
    · exact standsIn_of_readSet hpos hr
    · exact standsIn_of_readGroup hpos hr
    · exact standsIn_of_readRepetition hpos hr
    · exact standsIn_of_readCall hpos hr
    · cases hr
      exact standsIn_front (by simp) hpos hpos
    · cases hr
      exact standsIn_front (by simp) hpos hpos
    · cases hr

end Token

/-! ## Cutting at separators -/

/-- A step fails only at a closer to which no opener belongs. -/
lemma Nesting.eq_of_step_error {n : Nesting} {position : Nat} {c : Char} {imbalance : Imbalance}
    (h : n.step position c = .error imbalance) : imbalance = .unexpected position c := by
  unfold step at h
  split at h
  · split at h
    · cases h
    split at h
    · split at h
      · split at h <;> cases h
        rfl
      · cases h
        rfl
    · cases h
  · cases h
  · cases h

/-- Behind a character, nothing is open but what was open in front of it and the character. -/
lemma Nesting.opens_of_step {n n' : Nesting} {position : Nat} {c : Char}
    (h : n.step position c = .ok n') :
    ∀ opened ∈ n'.opens, opened ∈ n.opens ∨ opened = (position, c) := by
  intro opened hopened
  unfold step at h
  split at h
  · split at h
    · cases h
      exact (List.mem_cons.1 hopened).symm
    split at h
    · split at h
      · rename_i hopens
        split at h <;> cases h
        rw [hopens]
        exact .inl (List.mem_cons_of_mem _ hopened)
      · cases h
    · cases h
      exact .inl hopened
  · cases h
    split at hopened
    · exact .inl (List.mem_of_mem_tail hopened)
    · exact .inl hopened
  · cases h
    exact .inl hopened

/-- The character that keeps a text from being balanced stands in the text, or it was open in front
of it. -/
lemma position_of_splitFrom {separator : Char} {low position : Nat} {n : Nesting}
    {text : List Char} {imbalance : Imbalance} (hlow : low ≤ position)
    (hopens : ∀ opened ∈ n.opens, low ≤ opened.1 ∧ opened.1 < position)
    (h : splitFrom separator n position text = .error imbalance) :
    low ≤ imbalance.position ∧ imbalance.position < position + text.length := by
  induction text generalizing n position with
  | nil =>
    unfold splitFrom at h
    split at h <;> cases h
    rename_i hn
    exact hopens _ (hn ▸ List.mem_cons_self)
  | cons c rest ih =>
    rw [List.length_cons, Nat.add_comm rest.length, ← Nat.add_assoc]
    unfold splitFrom at h
    split at h
    · split at h <;> cases h
      rename_i hrest
      exact ih (by omega)
        (fun opened ho => ⟨(hopens opened ho).1, Nat.lt_succ_of_lt (hopens opened ho).2⟩) hrest
    · split at h
      · rename_i n' hstep
        split at h <;> cases h
        rename_i hrest
        refine ih (by omega) (fun opened ho => ?_) hrest
        rcases n.opens_of_step hstep opened ho with ho | rfl
        · exact ⟨(hopens opened ho).1, Nat.lt_succ_of_lt (hopens opened ho).2⟩
        · exact ⟨hlow, Nat.lt_succ_self _⟩
      · rename_i hstep
        cases h
        rw [Nesting.eq_of_step_error hstep]
        simp only [Imbalance.position]
        omega

/-- A slice that is not balanced has the character at fault. -/
theorem standsIn_of_splitParts {separator : Char} {s : Slice} {fault : Fault}
    (h : splitParts separator s = .error fault) :
    fault.StandsIn (Span.Between s.start s.stop) := by
  unfold splitParts Slice.split at h
  split at h <;> cases h
  rename_i hsplit
  split at hsplit <;> cases hsplit
  rename_i hfrom
  obtain ⟨hlow, hhigh⟩ := position_of_splitFrom (Nat.le_refl _) (by simp [Nesting.outermost]) hfrom
  exact Fault.standsIn_located (by simp) hlow hhigh

end PatternSampler
