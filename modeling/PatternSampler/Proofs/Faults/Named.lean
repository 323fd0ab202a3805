import PatternSampler.Proofs.Faults.Marks
import PatternSampler.Proofs.Reading.Parts

set_option autoImplicit false

/-!
# Errors underline what they name

Some messages quote the characters of the pattern that are at fault. What is underlined for such an
error spells just the construct that the message names.

## Main definitions

* `Fault.Spells` — what is underlined for a fault spells a given text.
* `Fault.NamedIn` — a fault that names a construct underlines it.

## Main results

* `Token.namedIn_of_next`, `namedIn_of_splitParts` — faults of reading are named.
* `Fault.namedIn_reference`, `Fault.namedIn_transform` — faults of tokens that are read.
-/

namespace PatternSampler

/-! ## Faults that name a construct -/

/-- What is underlined for a fault in the slice spells `text`. -/
def Fault.Spells (s : Slice) (fault : Fault) (text : List Char) : Prop :=
  ∃ start, fault.place = some ⟨start, text.length⟩ ∧ (⟨start, text⟩ : Slice).IsPart s

/-- A fault that names a construct of the slice underlines it, and a transform that fails stands
behind its name. -/
def Fault.NamedIn (s : Slice) (fault : Fault) : Prop :=
  match fault.cause with
  | .unmatched c => fault.Spells s [c]
  | .unbalanced imbalance => fault.Spells s [imbalance.character]
  | .invalidEscape digits =>
    fault.Spells s ('\\' :: 'u' :: digits.toList) ∨ fault.Spells s ('\\' :: 'U' :: digits.toList)
  | .invalidReference digits => fault.Spells s ('\\' :: digits.toList)
  | .unknownSet name => fault.Spells s (':' :: (name.toList ++ [':']))
  | .unknownFunction name => fault.Spells s ('$' :: (name.toList ++ ['(']))
  | .transform t _ => ∃ span start, fault.place = some span ∧
      span.start = start + (t.name.length + 2) ∧
      (⟨start, '$' :: (t.name.toList ++ ['('])⟩ : Slice).IsPart s
  | _ => True

namespace Fault

variable {s mid : Slice} {fault : Fault} {text : List Char}

/-- What a fault spells in a part it spells in the slice around it. -/
lemma Spells.mono (h : fault.Spells mid text) (hmid : mid.IsPart s) : fault.Spells s text := by
  obtain ⟨start, hplace, hpart⟩ := h
  exact ⟨start, hplace, hpart.trans hmid⟩

/-- A fault that names a construct of a part names one of the slice around it. -/
lemma NamedIn.mono (h : fault.NamedIn mid) (hmid : mid.IsPart s) : fault.NamedIn s := by
  unfold NamedIn at *
  split at h
  · exact h.mono hmid
  · exact h.mono hmid
  · exact h.imp (fun h => h.mono hmid) fun h => h.mono hmid
  · exact h.mono hmid
  · exact h.mono hmid
  · exact h.mono hmid
  · obtain ⟨span, start, hplace, hstart, hpart⟩ := h
    exact ⟨span, start, hplace, hstart, hpart.trans hmid⟩
  · trivial

/-- A fault at the front of a slice underlines the front. -/
lemma spells_front (cause : Cause) (start : Nat) (back : List Char) {length : Nat}
    (hlength : length = text.length) :
    (located cause start length).Spells ⟨start, text ++ back⟩ text :=
  ⟨start, by rw [located, hlength], [], back, rfl, rfl⟩

end Fault

/-- What stands behind a front is a part of the slice. -/
lemma Slice.Starts.isPart {s rest : Slice} {x : List Char} (h : s.Starts x rest) : rest.IsPart s :=
  ⟨x, [], by rw [List.append_nil, h.text_eq], h.start_eq⟩

/-- A part of a text is what stands in the text where the part starts. -/
lemma Slice.IsPart.take_drop {pattern text : List Char} {start : Nat}
    (h : (⟨start, text⟩ : Slice).IsPart (.whole pattern)) :
    start + text.length ≤ pattern.length ∧ (pattern.drop start).take text.length = text := by
  obtain ⟨front, back, hpattern, hstart⟩ := h
  simp only [Slice.whole, Nat.zero_add] at hpattern hstart
  subst hpattern hstart
  refine ⟨?_, by rw [List.append_assoc, List.drop_left, List.take_left]⟩
  simp only [List.length_append]
  omega

/-! ## Escapes -/

variable {fault : Fault}

/-- A fault in an escape names its digits. -/
lemma namedIn_of_readEscape {start : Nat} {s : Slice} (h : start + 1 = s.start)
    (hread : readEscape start s = .error fault) : fault.NamedIn ⟨start, '\\' :: s.text⟩ := by
  have hpoint : ∀ {count : Nat} {c : Char} {tail : List Char}, s.text = c :: tail →
      c = 'u' ∨ c = 'U' → readCodePoint start count (s.drop 1) = .error fault →
      fault.NamedIn ⟨start, '\\' :: s.text⟩ := by
    intro count c tail htext hc hpoint
    have htail : (s.drop 1).text = tail := by simp [Slice.drop, htext]
    have hstart : (s.drop 1).start = start + 2 := congrArg (· + 1) h.symm
    simp only [readCodePoint, Slice.length, htail, hstart] at hpoint
    split at hpoint
    · cases hpoint
      trivial
    · split at hpoint <;> cases hpoint
      rename_i hcount _
      have hdigits : (tail.take count).length = count := List.length_take_of_le (by omega)
      have hspells : (Fault.located (.invalidEscape (String.ofList (tail.take count))) start
          (start + 2 + count - start)).Spells ⟨start, '\\' :: s.text⟩
          ('\\' :: c :: tail.take count) := by
        have hlength : start + 2 + count - start = ('\\' :: c :: tail.take count).length := by
          simp only [List.length_cons, hdigits]
          omega
        have hfront := Fault.spells_front (.invalidEscape (String.ofList (tail.take count)))
          start (tail.drop count) hlength
        rwa [List.cons_append, List.cons_append, List.take_append_drop, ← htext] at hfront
      simp only [Fault.NamedIn, Fault.located, String.toList_ofList]
      rcases hc with rfl | rfl
      · exact .inl hspells
      · exact .inr hspells
  unfold readEscape at hread
  split at hread
  case h_4 | h_5 =>
    rename_i htext
    generalize hr : readCodePoint start _ (s.drop 1) = r at hread
    cases r <;> cases hread
    exact hpoint htext (by decide) hr
  all_goals cases hread

/-! ## Bracket expressions -/

namespace Draft

variable {position : Nat} {d : Draft} {s : Slice}

/-- Closing a range names no construct. -/
lemma namedIn_of_closeRange {low high : Char} (h : d.closeRange position low high s = .error fault)
    (whole : Slice) : fault.NamedIn whole := by
  unfold closeRange at h
  split at h <;> cases h
  trivial

/-- A fault at the end of a range names a construct from there on. -/
lemma namedIn_of_stepRangeEnd {low c : Char} (hs : position + 2 = s.start)
    (h : d.stepRangeEnd position low c s = .error fault) :
    fault.NamedIn ⟨position + 1, c :: s.text⟩ := by
  unfold stepRangeEnd at h
  split at h
  · cases h
    trivial
  split at h
  · cases h
    trivial
  split at h
  · rename_i hc
    subst hc
    split at h
    · rename_i hread
      cases h
      exact namedIn_of_readEscape hs hread
    · cases h
    · exact namedIn_of_closeRange h _
    · cases h
      trivial
  · exact namedIn_of_closeRange h _

/-- A fault behind a hyphen names a construct of the slice. -/
lemma namedIn_of_stepRange (hs : position + 1 = s.start)
    (h : d.stepRange position s = .error fault) : fault.NamedIn s := by
  unfold stepRange at h
  split at h
  · rename_i low c tail _ htext
    split at h
    · cases h
    · have hnamed := namedIn_of_stepRangeEnd (s := s.drop 1) (congrArg (· + 1) hs) h
      have hslice : (⟨position + 1, c :: (s.drop 1).text⟩ : Slice) = s := by
        rw [hs, ← Slice.text_eq_cons htext]
      rwa [hslice] at hnamed
  · cases h

/-- The name of a class stands at the front, with a colon behind it. -/
lemma setName?_prefix {text name : List Char} (h : setName? text = some name) :
    name ++ [':'] <+: text := by
  simp only [setName?] at h
  split at h
  · rename_i back hback
    split at h <;> cases h
    obtain ⟨behind, hbehind⟩ := List.takeWhile_prefix Char.isAlphanum (l := text)
    rw [← hbehind, List.drop_left' (by rw [hbehind])] at hback
    refine ⟨back, ?_⟩
    rw [List.append_assoc, List.singleton_append, ← hback, hbehind]
  · cases h

/-- A fault of a named class names this class. -/
lemma namedIn_of_stepName (h : d.stepName position s = .error fault) :
    fault.NamedIn ⟨position, ':' :: s.text⟩ := by
  unfold stepName at h
  split at h
  · cases h
  · rename_i name hname
    split at h <;> cases h
    obtain ⟨back, hback⟩ := setName?_prefix hname
    simp only [Fault.NamedIn, Fault.located, String.toList_ofList]
    have hlength : name.length + 2 = (':' :: (name ++ [':'])).length := by simp
    have hfront := Fault.spells_front (.unknownSet (String.ofList name)) position back hlength
    rwa [List.cons_append, hback] at hfront

/-- A fault in an item names what the item spells. -/
lemma namedIn_of_step {c : Char} (hs : position + 1 = s.start)
    (h : d.step position c s = .error fault) : fault.NamedIn ⟨position, c :: s.text⟩ := by
  unfold step at h
  split at h
  · cases h
  split at h
  · cases h
  split at h
  · cases h
    trivial
  split at h
  · cases h
    trivial
  split at h
  · rename_i hc
    subst hc
    split at h <;> cases h
    rename_i hread
    exact namedIn_of_readEscape hs hread
  split at h
  · rename_i hc
    subst hc
    exact namedIn_of_stepName h
  split at h
  · exact (namedIn_of_stepRange hs h).mono ⟨[c], [], by simp, by simp [hs]⟩
  · cases h

end Draft

/-- A fault inside brackets names a construct of the slice. -/
lemma namedIn_of_readBracket {opening : Nat} {d : Draft} {s : Slice}
    (h : readBracket opening d s = .error fault) : fault.NamedIn s := by
  fun_induction readBracket opening d s with
  | case1 =>
    cases h
    trivial
  | case2 d s c tail htext fault' hstep =>
    cases h
    have hnamed := Draft.namedIn_of_step rfl hstep
    rwa [← Slice.text_eq_cons htext] at hnamed
  | case3 => cases h
  | case4 d s c tail htext d' rest hstep ih =>
    rcases Draft.step_extends htext hstep with hnil | ⟨front, hfront, -⟩
    · rw [readBracket_nil hnil] at h
      cases h
      trivial
    · exact (ih h).mono hfront.isPart

/-! ## Tokens -/

namespace Token

variable {s rest : Slice}

/-- A fault of an escaped character names it. -/
lemma namedIn_of_readEscaped {tail : List Char} (hs : s.text = '\\' :: tail)
    (h : readEscaped s = .error fault) : fault.NamedIn s := by
  simp only [readEscaped] at h
  split at h
  · split at h <;> cases h
    · rename_i hread
      have hnamed := namedIn_of_readEscape rfl hread
      rwa [← Slice.text_eq_cons hs] at hnamed
    · trivial
  · cases h

/-- A fault of a bracket expression names a construct in it. -/
lemma namedIn_of_readSet {tail : List Char} (hs : s.text = '[' :: tail)
    (h : readSet s = .error fault) : fault.NamedIn s := by
  unfold readSet at h
  generalize hr : readBracket s.start .start (s.drop 1) = r at h
  cases r <;> cases h
  have hfront : s.Starts ['['] (s.drop 1) := .of_text_eq hs rfl
  exact (namedIn_of_readBracket hr).mono hfront.isPart

/-- A fault of a repeat count names no construct. -/
lemma namedIn_of_readRepetition (h : readRepetition s = .error fault) : fault.NamedIn s := by
  simp only [readRepetition] at h
  split at h
  · cases h
    trivial
  · split at h <;> cases h
    rename_i hcount
    cases RepeatCount.isCause_of_ofText hcount <;> trivial

/-- A group that is not closed names no construct. -/
lemma namedIn_of_readGroup (h : readGroup s = .error fault) : fault.NamedIn s := by
  unfold readGroup at h
  split at h <;> cases h
  trivial

/-- A fault of a call names the function. -/
lemma namedIn_of_readCall {tail : List Char} (hs : s.text = '$' :: tail)
    (h : readCall s = .error fault) : fault.NamedIn s := by
  have hdrop : s.text.drop 1 = tail := by rw [hs, List.drop_one, List.tail_cons]
  simp only [readCall, hdrop] at h
  obtain ⟨back, hback⟩ := callName_prefix tail
  generalize callName tail = name at h hback
  have hbehind : s.text.drop (name.length + 1) = back := by simp [hs, ← hback]
  rw [hbehind] at h
  split at h
  · cases h
    trivial
  split at h
  · cases h
    trivial
  split at h
  · cases h
    trivial
  rename_i c back' hc _
  rw [not_not] at hc
  subst hc
  unfold readArguments at h
  split at h
  · cases h
    trivial
  split at h <;> cases h
  have hlength : name.length + 2 = ('$' :: (name ++ ['('])).length := by simp
  have hfront := Fault.spells_front (.unknownFunction (String.ofList name)) s.start back' hlength
  have htext : '$' :: (name ++ ['(']) ++ back' = s.text := by
    rw [hs, ← hback]
    simp
  rw [htext] at hfront
  simpa [Fault.NamedIn, Fault.located] using hfront

/-- A fault at the front of a slice underlines what it names. -/
theorem namedIn_of_next (h : next s = .error fault) : fault.NamedIn s := by
  unfold next at h
  split at h
  · cases h
  · rename_i c tail hs
    generalize hr : readFrom c s = r at h
    cases r <;> cases h
    have hunmatched : (Fault.located (.unmatched c) s.start 1).NamedIn s :=
      ⟨s.start, rfl, [], tail, hs, rfl⟩
    unfold readFrom at hr
    split at hr
    · exact namedIn_of_readEscaped hs hr
    · exact namedIn_of_readSet hs hr
    · exact namedIn_of_readGroup hr
    · exact namedIn_of_readRepetition hr
    · exact namedIn_of_readCall hs hr
    · cases hr
      exact hunmatched
    · cases hr
      exact hunmatched
    · cases hr

end Token

/-! ## Cutting at separators -/

/-- The character that keeps a text from being balanced stands where it is said to stand. -/
lemma isPart_of_splitFrom_error {separator : Char} {whole : Slice} {n : Nesting} {position : Nat}
    {text : List Char} {imbalance : Imbalance} (htext : (⟨position, text⟩ : Slice).IsPart whole)
    (hopens : ∀ opened ∈ n.opens, (⟨opened.1, [opened.2]⟩ : Slice).IsPart whole)
    (h : splitFrom separator n position text = .error imbalance) :
    (⟨imbalance.position, [imbalance.character]⟩ : Slice).IsPart whole := by
  induction text generalizing n position with
  | nil =>
    unfold splitFrom at h
    split at h <;> cases h
    rename_i hn
    exact hopens _ (hn ▸ List.mem_cons_self)
  | cons c rest ih =>
    have hfirst : (⟨position, [c]⟩ : Slice).IsPart whole := .trans ⟨[], rest, rfl, rfl⟩ htext
    have hrest : (⟨position + 1, rest⟩ : Slice).IsPart whole :=
      .trans ⟨[c], [], by simp, rfl⟩ htext
    unfold splitFrom at h
    split at h
    · split at h <;> cases h
      rename_i hsplit
      exact ih hrest hopens hsplit
    · split at h
      · rename_i n' hstep
        split at h <;> cases h
        rename_i hsplit
        refine ih hrest (fun opened ho => ?_) hsplit
        rcases n.opens_of_step hstep opened ho with ho | rfl
        · exact hopens opened ho
        · exact hfirst
      · rename_i hstep
        cases h
        rw [Nesting.eq_of_step_error hstep]
        exact hfirst

/-- A slice that is not balanced has the character that its fault names. -/
theorem namedIn_of_splitParts {separator : Char} {s : Slice}
    (h : splitParts separator s = .error fault) : fault.NamedIn s := by
  unfold splitParts Slice.split at h
  split at h <;> cases h
  rename_i hsplit
  split at hsplit <;> cases hsplit
  rename_i hfrom
  have hpart := isPart_of_splitFrom_error (.refl s) (by simp [Nesting.outermost]) hfrom
  exact ⟨_, rfl, hpart⟩

/-! ## Tokens that are read -/

/-- A reference is spelled by its backslash and its digits. -/
lemma Token.Spelled.eq_of_reference {start : Nat} {digits text : List Char}
    (h : (Token.reference digits).Spelled start text) : text = '\\' :: digits := by
  generalize ht : Token.reference digits = t at h
  cases h with
  | reference =>
    cases ht
    rfl
  | @escape e => cases e <;> cases ht
  | _ => cases ht

/-- A call starts with the name of its function, and its arguments stand behind the parenthesis. -/
lemma Token.Spelled.exists_name {start : Nat} {f : Builtin} {arguments : Slice} {text : List Char}
    (h : (Token.call f arguments).Spelled start text) :
    ∃ name back, Builtin.ofName? (String.ofList name) = some f ∧
      text = '$' :: (name ++ ['(']) ++ back ∧ arguments.start = start + (name.length + 2) := by
  generalize ht : Token.call f arguments = t at h
  cases h with
  | @call name body f' hname hf hclose =>
    cases ht
    exact ⟨name, body ++ [')'], hf, by simp, Nat.add_assoc _ _ _⟩
  | @escape e => cases e <;> cases ht
  | _ => cases ht

/-- A reference that has no group is underlined with its backslash. -/
lemma Fault.namedIn_reference {s rest : Slice} {digits : List Char}
    (h : Token.next s = .ok (some (.reference digits, rest))) :
    (within (.invalidReference (String.ofList digits))
      ⟨s.start, rest.start - s.start⟩).NamedIn s := by
  obtain ⟨text, htext, hstarts⟩ := Token.next_spelled h
  have hlength : rest.start - s.start = text.length := by
    rw [hstarts.start_eq]
    exact Nat.add_sub_cancel_left _ _
  simp only [NamedIn, within, hlength, String.toList_ofList, ← htext.eq_of_reference]
  exact ⟨s.start, rfl, [], rest.text, hstarts.text_eq, rfl⟩

/-- The name of the transform that a name calls. -/
lemma Builtin.name_of_ofName? {name : String} {t : Transform}
    (h : ofName? name = some (.encode t)) : t.name = name := by
  have hall : named.all (fun entry => match entry.2 with
      | .encode t => t.name == entry.1
      | _ => true) = true := by decide
  obtain ⟨front, back, hnamed, -⟩ := List.lookup_eq_some_iff.1 h
  have hmem : (name, Builtin.encode t) ∈ named := by simp [hnamed]
  simpa using List.all_eq_true.1 hall _ hmem

/-- A transform that fails stands behind its name. -/
lemma Fault.namedIn_transform {s rest arguments : Slice} {t : Transform}
    (h : Token.next s = .ok (some (.call (.encode t) arguments, rest))) (cause : TransformError) :
    (within (.transform t cause) arguments.span).NamedIn s := by
  obtain ⟨text, htext, hstarts⟩ := Token.next_spelled h
  obtain ⟨name, back, hname, rfl, hstart⟩ := htext.exists_name
  have hlength : t.name.length = name.length := by
    rw [Builtin.name_of_ofName? hname, String.length_ofList]
  refine ⟨arguments.span, s.start, rfl, ?_, [], back ++ rest.text, ?_, rfl⟩
  · rw [hlength]
    exact hstart
  · rw [hstarts.text_eq, Builtin.name_of_ofName? hname, String.toList_ofList]
    simp

end PatternSampler
