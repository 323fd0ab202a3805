import PatternSampler.Proofs.Faults.Marks
import PatternSampler.Proofs.Reading.Parts
import PatternSampler.Proofs.Run.Ends

set_option autoImplicit false

/-!
# Errors point inside the pattern

A mistake is blamed on a place that was fixed when the pattern was read. All places in the tree of a
slice stand inside the slice, and a run reports no others.

## Main definitions

* `Pattern.BlamesIn` — the places that are blamed for mistakes of a pattern have a property.

## Main results

* `Pattern.standsIn_samples` — a run ends with a mistake at a place that may be blamed.
* `Pattern.blamesIn_ofSlice` — the tree of a slice is blamed for mistakes inside the slice only.
* `toError_inside_pattern` — what is underlined for an error stands inside the pattern.
-/

namespace PatternSampler

open Run

/-! ## Trees -/

mutual

/-- The places that are blamed for mistakes of a pattern have the property `P`. -/
def Pattern.BlamesIn (P : Span → Prop) : Pattern → Prop
  | .done => True
  | .stop fault => fault.StandsIn P
  | .seq head _ rest => head.BlamesIn P ∧ rest.BlamesIn P

/-- The places that are blamed for mistakes of a construct have the property `P`. -/
def Construct.BlamesIn (P : Span → Prop) : Construct → Prop
  | .character _ | .oneOf _ | .byte _ => True
  | .reference span _ => P span
  | .group _ body => body.BlamesIn P
  | .alternation _ branches => branches.BlamesIn P
  | .encode _ argument | .words argument | .shuffle argument | .optional argument =>
    argument.BlamesIn P
  | .expand argument separator => argument.BlamesIn P ∧ separator.BlamesIn P
  | .date first last separator =>
    P (first.span.upTo last.span) ∧ first.BlamesIn P ∧ last.BlamesIn P ∧ separator.BlamesIn P
  | .justify _ argument width fill => argument.BlamesIn P ∧ width.BlamesIn P ∧ fill.BlamesIn P

/-- The places that are blamed for mistakes of an argument have the property `P`. -/
def Argument.BlamesIn (P : Span → Prop) : Argument → Prop
  | .mk span body => P span ∧ body.BlamesIn P

/-- The places that are blamed for mistakes of branches have the property `P`. -/
def Branches.BlamesIn (P : Span → Prop) : Branches → Prop
  | .one _ _ body => body.BlamesIn P
  | .more _ _ body rest => body.BlamesIn P ∧ rest.BlamesIn P

end

/-- An argument is blamed at its own place. -/
lemma Argument.BlamesIn.span {P : Span → Prop} :
    ∀ {a : Argument}, a.BlamesIn P → P a.span
  | .mk _ _, h => h.1

/-- A mistake at a place that may be blamed. -/
lemma Fault.standsIn_within {P : Span → Prop} {span : Span} (h : P span) (cause : Cause)
    (hkind : cause.kind ≠ .unknown) : (Fault.within cause span).StandsIn P :=
  ⟨hkind, span, rfl, h⟩

/-! ## Trees and their runs -/

section Runs

variable {P : Span → Prop}

mutual

/-- A mistake that a run of a pattern ends with stands where the pattern may be blamed.

**Proof sketch.** By induction over the tree. -/
theorem Pattern.standsIn_samples (stream : WordStream) :
    ∀ {t : Pattern}, t.BlamesIn P →
      (t.samples stream).Keeps (fun _ => True) (fun _ => True) (Fault.StandsIn P)
  | .done, _ => by
    rw [Pattern.samples]
    exact keeps_pure trivial
  | .stop fault, h => by
    rw [Pattern.samples]
    exact keeps_throw h
  | .seq head counts rest, ⟨hhead, hrest⟩ => by
    rw [Pattern.samples_seq]
    exact (Construct.keeps_instances (fun _ _ => trivial) (Construct.standsIn_prepare stream hhead)
      counts).bind fun _ _ => (Pattern.standsIn_samples stream hrest).bind fun _ _ =>
        keeps_pure trivial

/-- What goes wrong in a construct stands where the construct is blamed. -/
lemma Construct.standsIn_prepare (stream : WordStream) :
    ∀ {c : Construct}, c.BlamesIn P →
      (c.prepare stream).Keeps (fun _ => True)
        (fun action => action.Keeps (fun _ => True) (fun _ => True) (Fault.StandsIn P))
        (Fault.StandsIn P)
  | .character c, _ => by
    rw [Construct.prepare]
    exact keeps_pure (keeps_pure trivial)
  | .oneOf set, _ => by
    rw [Construct.prepare]
    exact keeps_pure ((keeps_charSet_sample stream set).imp fun _ _ => trivial)
  | .reference span digits, h => by
    rw [Construct.prepare]
    intro p hp
    rw [ends_bind, ends_get]
    split
    · exact ⟨hp, keeps_pure trivial⟩
    · exact Fault.standsIn_within h _ (by simp)
  | .group number body, h => by
    rw [Construct.prepare]
    exact keeps_pure ((Pattern.standsIn_samples (t := body) stream h).bind fun _ _ =>
      (keeps_record _ _).bind fun _ _ => keeps_pure trivial)
  | .alternation number branches, h => by
    rw [Construct.prepare_alternation]
    exact keeps_pure ((keeps_choose stream _).bind fun choice _ =>
      (Branches.standsIn_probeOthers stream h choice 0).bind fun _ _ =>
        (Branches.standsIn_chosen stream h choice).bind fun _ _ =>
          (keeps_modify _).bind fun _ _ => (keeps_record _ _).bind fun _ _ => keeps_pure trivial)
  | .encode t argument, h => by
    rw [Construct.prepare]
    exact keeps_pure ((Argument.standsIn_sample (a := argument) stream h).bind fun s _ =>
      (keeps_transformed t s (Fault.standsIn_within (Argument.BlamesIn.span h))).imp
        fun _ _ => trivial)
  | .expand argument separator, ⟨hargument, hseparator⟩ => by
    rw [Construct.prepare]
    exact (Argument.standsIn_literal stream .separator hseparator).bind fun sep _ =>
      keeps_pure ((Argument.standsIn_sample stream hargument).bind fun s _ =>
        (keeps_transformed _ s (Fault.standsIn_within hargument.span)).imp fun _ _ => trivial)
  | .byte case, _ => by
    rw [Construct.prepare]
    exact keeps_pure ((keeps_sampleByte stream case).imp fun _ _ => trivial)
  | .words count, h =>
    Construct.keeps_prepare_words (Argument.standsIn_literal (a := count) stream .wordCount h)
      (Fault.standsIn_within (Argument.BlamesIn.span h)) fun _ number _ _ _ =>
        (keeps_sampleWords stream number).imp fun _ _ => trivial
  | .date first last separator, ⟨hspan, hfirst, hlast, hseparator⟩ => by
    have hspans : ∀ span ∈ [first.span, last.span, first.span.upTo last.span], P span := by
      simpa using ⟨hfirst.span, hlast.span, hspan⟩
    exact Construct.keeps_prepare_date (Argument.standsIn_literal stream .year hfirst)
      (Argument.standsIn_literal stream .year hlast)
      (Argument.standsIn_literal stream .separator hseparator)
      (fun span hmem => Fault.standsIn_within (hspans span hmem))
      fun _ _ _ _ _ _ _ _ _ _ _ hday => hday.imp fun _ _ => trivial
  | .shuffle argument, h => by
    rw [Construct.prepare]
    exact keeps_pure ((Argument.standsIn_sample (a := argument) stream h).bind fun s _ =>
      (keeps_shuffled stream s).imp fun _ _ => trivial)
  | .optional argument, h => by
    rw [Construct.prepare]
    exact keeps_pure ((Argument.standsIn_sample (a := argument) stream h).bind fun s _ =>
      (keeps_orNothing stream s).imp fun _ _ => trivial)
  | .justify alignment argument width fill, ⟨hargument, hwidth, hfill⟩ => by
    have hspans : ∀ span ∈ [width.span, fill.span], P span := by
      simpa using ⟨hwidth.span, hfill.span⟩
    exact Construct.keeps_prepare_justify (Argument.standsIn_literal stream .width hwidth)
      (Argument.standsIn_literal stream .fill hfill)
      (fun span hmem => Fault.standsIn_within (hspans span hmem)) fun columns filling =>
        (Argument.standsIn_sample stream hargument).bind fun _ _ => keeps_pure trivial

/-- What goes wrong in an argument stands where the argument is blamed. -/
lemma Argument.standsIn_sample (stream : WordStream) :
    ∀ {a : Argument}, a.BlamesIn P →
      (a.sample stream).Keeps (fun _ => True) (fun _ => True) (Fault.StandsIn P)
  | .mk _ body, h => by
    rw [Argument.sample]
    exact (Pattern.standsIn_samples stream h.2).bind fun _ _ => keeps_pure trivial

/-- What goes wrong in a fixed argument stands where the argument is blamed. -/
lemma Argument.standsIn_literal (stream : WordStream) (role : LiteralArgument) :
    ∀ {a : Argument}, a.BlamesIn P →
      (a.literal stream role).Keeps (fun _ => True) (fun _ => True) (Fault.StandsIn P)
  | .mk span body, h => by
    rw [Argument.literal]
    exact (Pattern.standsIn_samples stream h.2).bind fun _ _ =>
      keeps_ite (fun _ => keeps_throw (Fault.standsIn_within h.1 _ (by simp)))
        fun _ => keeps_pure trivial

/-- What goes wrong in probes stands where the branches are blamed. -/
lemma Branches.standsIn_probeOthers (stream : WordStream) :
    ∀ {b : Branches}, b.BlamesIn P → ∀ choice place : Nat,
      (b.probeOthers stream choice place).Keeps (fun _ => True) (fun _ => True)
        (Fault.StandsIn P)
  | .one _ _ body, h, choice, place => by
    rw [Branches.probeOthers]
    exact keeps_ite (fun _ => keeps_pure trivial) fun _ =>
      (Pattern.standsIn_samples (t := body) stream h).probe.bind fun _ _ => keeps_pure trivial
  | .more _ _ body rest, h, choice, place => by
    rw [Branches.probeOthers]
    exact keeps_ite (fun _ => Branches.standsIn_probeOthers stream h.2 choice (place + 1))
      fun _ => (Pattern.standsIn_samples stream h.1).probe.bind fun _ _ =>
        (Branches.standsIn_probeOthers stream h.2 choice (place + 1)).bind fun _ _ =>
          keeps_pure trivial

/-- What goes wrong in the chosen branch stands where the branches are blamed. -/
lemma Branches.standsIn_chosen (stream : WordStream) :
    ∀ {b : Branches}, b.BlamesIn P → ∀ choice : Nat,
      (b.chosen stream choice).Keeps (fun _ => True) (fun _ => True) (Fault.StandsIn P)
  | .one _ _ body, h, choice => by
    rw [Branches.chosen]
    exact (Pattern.standsIn_samples (t := body) stream h).bind fun _ _ => keeps_pure trivial
  | .more _ _ body rest, h, 0 => by
    rw [Branches.chosen]
    exact (Pattern.standsIn_samples stream h.1).bind fun _ _ => keeps_pure trivial
  | .more _ _ body rest, h, choice + 1 => by
    rw [Branches.chosen]
    exact Branches.standsIn_chosen stream h.2 choice

end

end Runs

/-! ## Trees of slices -/

/-- Behind the front token of a slice the slice goes on. -/
lemma Token.start_lt_of_next {s rest : Slice} {t : Token} (h : next s = .ok (some (t, rest))) :
    s.start < rest.start ∧ rest.stop = s.stop := by
  obtain ⟨text, -, hstarts⟩ := next_spelled h
  have hstart := hstarts.start_eq
  have hlength := hstarts.length_eq
  have hroom := (room_next h).2
  exact ⟨by omega, hstarts.stop_eq⟩

/-- A fault in repeat counts stands in the slice, and behind the counts the slice goes on. -/
lemma readsFrom_readCounts (product : Nat) (s : Slice) :
    s.start ≤ (readCounts product s).rest.start ∧ (readCounts product s).rest.stop = s.stop ∧
      ∀ fault, (readCounts product s).fault = some fault →
        fault.StandsIn (Span.Between s.start s.stop) := by
  fun_induction readCounts product s with
  | case1 product s count rest h hlarge =>
    obtain ⟨hstart, hstop⟩ := Token.start_lt_of_next h
    have hrest := rest.start_le_stop
    refine ⟨Nat.le_of_lt hstart, hstop, ?_⟩
    rintro fault ⟨⟩
    exact Fault.standsIn_located (by simp) (Nat.le_refl _) (by omega)
  | case2 product s count rest h hle later ih =>
    obtain ⟨hstart, hstop⟩ := Token.start_lt_of_next h
    obtain ⟨hlater, hlaterStop, hfault⟩ := ih
    exact ⟨Nat.le_of_lt (Nat.lt_of_lt_of_le hstart hlater), hlaterStop.trans hstop,
      fun fault hf => (hfault fault hf).imp fun span hspan =>
        hspan.mono (Nat.le_of_lt hstart) (Nat.le_of_eq hstop)⟩
  | case3 => exact ⟨Nat.le_refl _, rfl, by simp⟩

/-- Two spans in a text have both ends of the span around them in it. -/
lemma Span.Between.upTo {low high : Nat} {first last : Span} (hfirst : first.Between low high)
    (hlast : last.Between low high) : (first.upTo last).Between low high := by
  simp only [Span.Between, Span.upTo] at *
  omega

/-- Branches are blamed where their patterns are. -/
lemma Branches.blamesIn_of_bodies {P : Span → Prop} :
    ∀ {b : Branches}, (∀ body ∈ b.bodies, body.BlamesIn P) → b.BlamesIn P
  | .one _ _ _, h => h _ (List.mem_singleton_self _)
  | .more _ _ _ _, h =>
    have h := List.forall_mem_cons.1 h
    ⟨h.1, blamesIn_of_bodies h.2⟩

/-- The faults of a construct stand where the construct, its arguments and its patterns may be
blamed. -/
lemma Construct.blamesIn_of_parts {low high : Nat} {c : Construct}
    (hreference : ∀ span digits, c = .reference span digits → span.Between low high)
    (harguments : ∀ a ∈ c.arguments, a.span.Between low high)
    (hbodies : ∀ body ∈ c.bodies, body.BlamesIn (Span.Between low high)) :
    c.BlamesIn (Span.Between low high) := by
  have hmk : ∀ a ∈ c.arguments, a.body ∈ c.bodies →
      a.BlamesIn (Span.Between low high) := by
    rintro ⟨span, body⟩ ha hbody
    exact ⟨harguments _ ha, hbodies _ hbody⟩
  cases c with
  | character | oneOf | byte => exact trivial
  | reference span digits => exact hreference span digits rfl
  | group number body => exact hbodies body (List.mem_singleton_self _)
  | alternation number branches => exact Branches.blamesIn_of_bodies hbodies
  | encode | words | shuffle | optional =>
    simp only [Construct.arguments, Construct.bodies, Construct.BlamesIn] at hmk ⊢
    exact hmk _ (by simp) (by simp)
  | expand argument separator =>
    simp only [Construct.arguments, Construct.bodies, Construct.BlamesIn] at hmk ⊢
    exact ⟨hmk _ (by simp) (by simp), hmk _ (by simp) (by simp)⟩
  | date first last separator =>
    simp only [Construct.arguments, Construct.bodies, Construct.BlamesIn] at hmk harguments ⊢
    exact ⟨(harguments _ (by simp)).upTo (harguments _ (by simp)), hmk _ (by simp) (by simp),
      hmk _ (by simp) (by simp), hmk _ (by simp) (by simp)⟩
  | justify alignment argument width fill =>
    simp only [Construct.arguments, Construct.bodies, Construct.BlamesIn] at hmk ⊢
    exact ⟨hmk _ (by simp) (by simp), hmk _ (by simp) (by simp), hmk _ (by simp) (by simp)⟩

/-- A token that stands for no construct is blamed as a whole, or for an imbalance inside it. -/
lemma Construct.standsIn_ofToken {low high opened : Nat} {span : Span} {t : Token} {fault : Fault}
    (hspan : span.Between low high)
    (hinner : ∀ inner, t.inner? = some inner → low ≤ inner.start ∧ inner.stop ≤ high)
    (h : Construct.ofToken opened span t = .error fault) :
    fault.StandsIn (Span.Between low high) := by
  have hsplit : ∀ {separator : Char} {inner : Slice}, t.inner? = some inner →
      splitParts separator inner = .error fault → fault.StandsIn (Span.Between low high) :=
    fun hin hparts => (standsIn_of_splitParts hparts).imp fun _ hbetween =>
      hbetween.mono (hinner _ hin).1 (hinner _ hin).2
  cases t with
  | character | oneOf | reference =>
    simp only [Construct.ofToken] at h
    cases h
  | repetition =>
    simp only [Construct.ofToken] at h
    cases h
    exact Fault.standsIn_within hspan _ (by simp)
  | group body =>
    simp only [Construct.ofToken] at h
    split at h <;> cases h
    rename_i hparts
    exact hsplit rfl hparts
  | call f arguments =>
    cases f with
    | encode | shuffle | optional =>
      simp only [Construct.ofToken] at h
      cases h
    | byte | words =>
      simp only [Construct.ofToken] at h
      split at h <;> cases h
      all_goals exact Fault.standsIn_within hspan _ (by simp)
    | expand | date | justify =>
      simp only [Construct.ofToken] at h
      split at h <;> cases h
      · rename_i hparts
        exact hsplit rfl hparts
      · exact Fault.standsIn_within hspan _ (by simp)

/-- The span of a reference in the text is that of its token. -/
lemma Construct.span_of_ofToken {opened : Nat} {span span' : Span} {t : Token}
    {digits : List Char} (h : Construct.ofToken opened span t = .ok (.reference span' digits)) :
    span' = span := by
  cases t with
  | reference =>
    simp only [Construct.ofToken] at h
    cases h
    rfl
  | character | oneOf | repetition =>
    simp only [Construct.ofToken] at h
    cases h
  | group =>
    simp only [Construct.ofToken] at h
    split at h <;> cases h
  | call =>
    have hcall := Construct.isCall_ofToken h
    cases hcall

/-- The tree of a slice is blamed for mistakes inside the slice only.

**Proof sketch.** By strong induction on the length of the slice. A token starts behind the start of
the slice and ends in front of its end, and the patterns inside it are read from parts that leave
room for a closing parenthesis. An argument that is empty is underlined with one character, which
is at most this parenthesis. -/
theorem Pattern.blamesIn_ofSlice {low high : Nat} (opened : Nat) (s : Slice)
    (hlow : low ≤ s.start) (hhigh : s.stop ≤ high) :
    (Pattern.ofSlice opened s).BlamesIn (Span.Between low high) := by
  induction hn : s.length using Nat.strong_induction_on generalizing opened s with
  | _ n ih =>
    have hmono : ∀ {span : Span}, span.Between s.start s.stop → span.Between low high :=
      fun hspan => hspan.mono hlow hhigh
    rw [Pattern.ofSlice]
    split
    · rename_i fault hnext
      exact (Token.standsIn_of_next hnext).imp fun _ => hmono
    · exact trivial
    · rename_i t rest hnext
      obtain ⟨hstart, hstop⟩ := Token.start_lt_of_next hnext
      have hrest := rest.start_le_stop
      have hspan : Span.Between low high ⟨s.start, rest.start - s.start⟩ := by
        simp only [Span.Between]
        omega
      have hinner : ∀ inner, t.inner? = some inner →
          inner.length < n ∧ low ≤ inner.start ∧ inner.stop < high := by
        intro inner hinner
        obtain ⟨hpart, hfront, hback⟩ := Token.inner_isPart hnext hinner
        have := hpart.start_le
        simp only [Slice.stop] at *
        omega
      split
      · rename_i fault hfault
        exact Construct.standsIn_ofToken hspan
          (fun inner h => ⟨(hinner inner h).2.1, Nat.le_of_lt (hinner inner h).2.2⟩) hfault
      · rename_i c hc
        obtain ⟨hcounts, hcountsStop, hfault⟩ := readsFrom_readCounts 1 rest
        refine ⟨Construct.blamesIn_of_parts ?_ ?_ ?_, ?_⟩
        · rintro span digits rfl
          exact Construct.span_of_ofToken hc ▸ hspan
        · intro a ha
          obtain ⟨inner, hin, ⟨part, opened', hpart, rfl⟩ | ⟨ch, rfl⟩⟩ :=
            Construct.arguments_ofToken hc a ha
          · obtain ⟨-, hfront, hback⟩ := hinner inner hin
            have := hpart.start_le
            have := hpart.stop_le
            simp only [Span.Between, Argument.span, Slice.span, Slice.stop] at *
            omega
          · exact hspan
        · intro body hbody
          obtain ⟨inner, part, opened', hin, hpart, rfl⟩ | ⟨ch, rfl⟩ :=
            Construct.bodies_ofToken hc body hbody
          · obtain ⟨hshort, hfront, hback⟩ := hinner inner hin
            have hlength := hpart.length_le
            exact ih part.length (by omega) opened' part (Nat.le_trans hfront hpart.start_le)
              (Nat.le_trans hpart.stop_le (Nat.le_of_lt hback)) rfl
          · exact ⟨trivial, trivial⟩
        · split
          · rename_i fault hf
            exact (hfault fault hf).imp fun span hbetween => hbetween.mono (by omega) (by omega)
          · refine ih (readCounts 1 rest).rest.length ?_ _ _ (by omega) (by omega) rfl
            simp only [Slice.stop] at *
            omega

/-! ## Whole patterns -/

/-- **Errors point inside the pattern**: an error is never of an unknown kind, it has no position
exactly if the pattern is too long, and otherwise what is underlined is not empty and ends inside
the pattern. -/
theorem toError_inside_pattern (stream : WordStream) (position : Nat) (pattern : String)
    (fault : Fault) (h : (generate stream position pattern).result = .error fault) :
    fault.toError.kind ≠ .unknown ∧
      (fault.toError.position = none ↔ maxPatternLength < pattern.toList.length) ∧
        ∀ start, fault.toError.position = some start →
          1 ≤ fault.toError.markLength ∧
            start + fault.toError.markLength ≤ pattern.toList.length := by
  have hblames : (Pattern.ofText pattern.toList).BlamesIn
      (Span.Between 0 pattern.toList.length) :=
    Pattern.blamesIn_ofSlice 0 (.whole pattern.toList) (Nat.le_refl _) (by
      simp [Slice.whole, Slice.stop])
  obtain ⟨q, hrun⟩ := generate_eq_error h
  have hfault := ends_of_eq_error
    (ends_sampleText_of_keeps (Pattern.standsIn_samples stream hblames) _) hrun
  obtain ⟨hlong, rfl⟩ | ⟨hshort, hkind, span, hplace, hspan⟩ := hfault
  · exact ⟨by simp [Fault.toError], ⟨fun _ => hlong, fun _ => rfl⟩, by simp [Fault.toError]⟩
  · simp only [Fault.toError, hplace, Option.map_some, Option.some.injEq]
    refine ⟨hkind, by simp [hshort], ?_⟩
    rintro start rfl
    exact ⟨Nat.le_max_right _ _, hspan.2⟩

/-- An empty width is underlined at the parenthesis behind it, also in a branch that is not
chosen. -/
theorem toError_inside_empty_width :
    ∃ fault, (generate (fun _ => 0) 0 "(a|$rjust(b,))").result = .error fault ∧
      fault.toError.position = some 12 ∧
        12 + fault.toError.markLength ≤ "(a|$rjust(b,))".toList.length := by
  have hrun : (generate (fun _ => 0) 0 "(a|$rjust(b,))").result =
      .error (.located (.invalidNumber "") 12 0) := by cbv
  have hposition : (Fault.located (.invalidNumber "") 12 0).toError.position = some 12 := rfl
  have hinside := toError_inside_pattern (fun _ => 0) 0 _ _ hrun
  exact ⟨_, hrun, hposition, (hinside.2.2 12 hposition).2⟩

end PatternSampler
