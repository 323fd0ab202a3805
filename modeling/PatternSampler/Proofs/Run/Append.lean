import PatternSampler.Proofs.Entropy.Exact
import PatternSampler.Proofs.Numbering.Agreement
import PatternSampler.Proofs.Reading.Append
import PatternSampler.Proofs.Run.Shift

set_option autoImplicit false

/-!
# Generating from texts one behind the other

A text that generates well leaves nothing behind but the texts of its groups, the words that it has
taken, and the number of its groups. What stands behind it goes on from there as if it stood alone.

## Main results

* `Pattern.samples_append` — trees one behind the other.
* `Slice.samples_append` — the samples of a longer slice.
* `walk_append` — a text and another one behind it, with all that a run reads and leaves behind.
-/

namespace PatternSampler

/-! ## Trees -/

/-- Trees one behind the other are generated one after the other. -/
theorem Pattern.samples_append (stream : WordStream) :
    ∀ p q : Pattern, (p.append q).samples stream = do
      let front ← p.samples stream
      let back ← q.samples stream
      return front ++ back
  | .done, q => by simp [Pattern.append, Pattern.samples]
  | .stop fault, q => rfl
  | .seq head counts rest, q => by
    simp only [Pattern.append, Pattern.samples_seq, Pattern.samples_append stream rest q,
      bind_assoc, pure_bind, List.append_assoc]

/-- A tree that generates well is not broken off. -/
lemma Pattern.unbroken_of_samples {stream : WordStream} :
    ∀ {progress progress' : Progress} {samples : List Sample} {p : Pattern},
      p.samples stream progress = .ok samples progress' → p.Unbroken
  | _, _, _, .done, _ => trivial
  | _, _, _, .stop fault, h => by
    rw [Pattern.samples] at h
    cases h
  | _, _, _, .seq head counts rest, h => by
    rw [Pattern.samples_seq] at h
    simp only [bind, EStateM.bind] at h
    split at h
    · split at h
      · rename_i hrest
        show rest.Unbroken
        exact Pattern.unbroken_of_samples hrest
      · cases h
    · cases h

/-! ## Samples -/

/-- The texts of two rows are put together. -/
lemma Sample.text_join_append (front back : List Sample) :
    (join (front ++ back)).text = (join front).text ++ (join back).text := by
  simp [join]

/-- The entropies of two rows add up. -/
lemma Sample.exact_join_append (front back : List Sample) :
    (join (front ++ back)).entropy.exact =
      (join front).entropy.exact + (join back).entropy.exact := by
  simp only [exact_join, List.map_append, List.sum_append]

/-- A single sample keeps its text when joined. -/
lemma Sample.text_join_singleton (s : Sample) : (join [s]).text = s.text := by
  simp [join]

/-- A single sample keeps its entropy when joined. -/
lemma Sample.exact_join_singleton (s : Sample) : (join [s]).entropy.exact = s.entropy.exact := by
  rw [exact_join, List.map_singleton, List.sum_singleton]

/-! ## Slices -/

/-- The samples of a longer slice. -/
theorem Slice.samples_append (stream : WordStream) {opened : Nat} {s : Slice} {q : List Char}
    (hs : (Pattern.ofSlice opened s).Unbroken) (hq : s.Precedes q) :
    (Pattern.ofSlice opened (s.append q)).samples stream = do
      let front ← (Pattern.ofSlice opened s).samples stream
      let back ← (Pattern.ofSlice (opened + countGroups s.text) ⟨s.stop, q⟩).samples stream
      return front ++ back := by
  rw [Pattern.ofSlice_append hs hq, Pattern.samples_append]

/-- The sample of a slice joins the samples of its tree. -/
lemma Slice.sample_eq_ok {stream : WordStream} {opened : Nat} {s : Slice} {x : Sample}
    {p q : Progress} :
    s.sample stream opened p = .ok x q ↔
      ∃ samples, (Pattern.ofSlice opened s).samples stream p = .ok samples q ∧
        x = .join samples := by
  simp only [sample, bind, EStateM.bind]
  cases (Pattern.ofSlice opened s).samples stream p with
  | ok samples q' =>
    constructor
    · rintro ⟨⟩
      exact ⟨samples, rfl, rfl⟩
    · rintro ⟨_, ⟨⟩, rfl⟩
      rfl
  | error fault q' => simp

/-- The sample of a longer slice, once the slice itself has been generated. -/
theorem Slice.sample_append {stream : WordStream} {opened : Nat} {s : Slice} {q : List Char}
    {progress progress₁ : Progress} {s₁ : Sample}
    (hs : s.sample stream opened progress = .ok s₁ progress₁) (hq : s.Precedes q) :
    match (⟨s.start, q⟩ : Slice).sample stream (opened + countGroups s.text) progress₁ with
    | .ok s₂ progress₂ => ∃ x, (s.append q).sample stream opened progress = .ok x progress₂ ∧
        x.text = s₁.text ++ s₂.text ∧ x.entropy.exact = s₁.entropy.exact + s₂.entropy.exact
    | .error fault progress₂ =>
      (s.append q).sample stream opened progress = .error (fault.shift s.length) progress₂ := by
  obtain ⟨front, hfront, rfl⟩ := Slice.sample_eq_ok.1 hs
  have hlonger := Slice.samples_append stream (Pattern.unbroken_of_samples hfront) hq
  have hmoved : (⟨s.stop, q⟩ : Slice) = (⟨s.start, q⟩ : Slice).shift s.length := rfl
  rw [hmoved, Pattern.ofSlice_shift, Pattern.samples_shift] at hlonger
  simp only [Slice.sample, hlonger, bind, EStateM.bind, hfront, Run.shift_apply]
  cases (Pattern.ofSlice (opened + countGroups s.text) ⟨s.start, q⟩).samples stream progress₁ with
  | ok back progress₂ =>
    exact ⟨.join (front ++ back), rfl, Sample.text_join_append front back,
      Sample.exact_join_append front back⟩
  | error fault progress₂ => rfl

/-! ## Along the text -/

/-- A slice is generated along its text as its tree is. -/
lemma tracks_sample (stream : WordStream) (s : Slice) (b : Nat) :
    Walk.Tracks (Walk.sample (walk stream) s) (s.sample stream b) Eq b
      (b + countGroups s.text) := by
  rw [Slice.sample]
  exact (tracks_walk stream s b).bind_eq fun samples => Walk.tracks_pure rfl

/-- Where the tree of a slice generates a sample, so does its text, and its groups are opened. -/
lemma walk_of_sample {stream : WordStream} {s : Slice} {l : Ledger} {x : Sample} {p : Progress}
    (h : s.sample stream l.opened l.progress = .ok x p) :
    Walk.sample (walk stream) s l = .ok x ⟨p, l.opened + countGroups s.text⟩ := by
  have hwalk := tracks_sample stream s l.opened l.progress
  rw [h] at hwalk
  obtain ⟨_, hwalk, rfl⟩ := hwalk
  exact hwalk

/-- A text that consists of one construct is generated as the construct is. -/
lemma Slice.sample_of_construct (stream : WordStream) {opened start stop : Nat} {text : List Char}
    {t : Token} {c : Construct} (hnext : Token.next ⟨start, text⟩ = .ok (some (t, ⟨stop, []⟩)))
    (hc : Construct.ofToken opened ⟨start, stop - start⟩ t = .ok c) :
    (⟨start, text⟩ : Slice).sample stream opened = do
      let action ← c.prepare stream
      let s ← action
      return .join [s] := by
  have hnone := readCounts_of_head?_ne (s := ⟨stop, []⟩) (by simp) 1
  have hdone : Pattern.ofSlice (opened + t.groups) ⟨stop, []⟩ = .done := by
    rw [Pattern.ofSlice]
    rfl
  rw [Slice.sample, Pattern.ofSlice_of_construct hnext hc, hnone]
  simp only [hdone, extras, Pattern.samples, bind_assoc, pure_bind, List.append_nil]

/-- A reference to the first group, whose text is known. -/
lemma sample_reference {stream : WordStream} {start opened : Nat} {p : Progress} {text : String}
    (h : p.groups.text? 1 = some text) :
    (⟨start, "\\1".toList⟩ : Slice).sample stream opened p = .ok (.join [.fixed text]) p := by
  have hnext : Token.next ⟨start, "\\1".toList⟩ =
      .ok (some (.reference ['1'], ⟨start + 2, []⟩)) := rfl
  have hread : Construct.runReference ⟨start, start + 2 - start⟩ ['1'] p = .ok text p := by
    have hdigits : (decimal? ['1']).bind p.groups.text? = some text := by
      rw [show decimal? ['1'] = some 1 by decide, Option.bind_some, h]
    rw [Construct.runReference_apply, hdigits]
  rw [Slice.sample_of_construct stream hnext (by rw [Construct.ofToken])]
  simp only [Construct.prepare_reference, bind_assoc, pure_bind]
  simp only [bind, EStateM.bind, hread]
  rfl

/-- A reference to the first group behind a text that has kept a text of it. -/
lemma walk_reference {stream : WordStream} {start : Nat} {text : List Char} {l l₁ : Ledger}
    {s : Sample} {t : String} (hs : Walk.sample (walk stream) ⟨start, text⟩ l = .ok s l₁)
    (ht : l₁.progress.groups.text? 1 = some t) :
    ∃ x, Walk.sample (walk stream) ⟨start, text ++ "\\1".toList⟩ l = .ok x l₁ ∧
      x.text = s.text ++ t ∧ x.entropy.exact = s.entropy.exact := by
  obtain ⟨_, progress₁, hrun, rfl, rfl⟩ :=
    (tracks_sample stream ⟨start, text⟩ l.opened).of_eq_ok (p := l.progress) hs
  have hprecedes : (⟨start, text⟩ : Slice).Precedes "\\1".toList := by
    refine ⟨by decide, ?_⟩
    rintro - c ⟨⟩
    rfl
  have hboth := Slice.sample_append hrun hprecedes
  rw [sample_reference ht] at hboth
  obtain ⟨x, hx, htext, hentropy⟩ := hboth
  obtain ⟨front, hfront, -⟩ := Slice.sample_eq_ok.1 hrun
  have hgroups : countGroups (text ++ "\\1".toList) = countGroups text :=
    (Pattern.unbroken_of_samples hfront).countGroups_append "\\1".toList
  have hwalk := walk_of_sample hx
  simp only [Slice.append, hgroups] at hwalk
  refine ⟨_, hwalk, ?_, ?_⟩
  · rw [htext, Sample.text_join_singleton, Sample.fixed]
  · rw [hentropy, Sample.exact_join_singleton, Sample.fixed, Entropy.exact_zero, add_zero]

/-- **Sequential composition**: if the text `p` generates the sample `s₁` and leaves the ledger `l₁`
behind, then `p` and `q` one behind the other generate a sample exactly where `q` alone does from
`l₁` on. The texts follow each other, the entropies add up, and the ledgers at the end are the
same. Where `q` fails, `p` and `q` fail with the same error, further on by the length of `p`.

The text `q` must not start with a repeat count, nor with a digit if `p` ends with a reference. -/
theorem walk_append (stream : WordStream) (start : Nat) (p q : List Char) (l l₁ : Ledger)
    (s₁ : Sample) (hp : Walk.sample (walk stream) ⟨start, p⟩ l = .ok s₁ l₁)
    (hbrace : q.head? ≠ some '\x7b')
    (hdigit : ¬(EndsWithReference p ∧ ∃ c, q.head? = some c ∧ c.isDigit = true)) :
    match Walk.sample (walk stream) ⟨start, q⟩ l₁ with
    | .ok s₂ l₂ => ∃ s, Walk.sample (walk stream) ⟨start, p ++ q⟩ l = .ok s l₂ ∧
        s.text = s₁.text ++ s₂.text ∧ s.entropy.exact = s₁.entropy.exact + s₂.entropy.exact
    | .error fault l₂ => ∃ fault' l', Walk.sample (walk stream) ⟨start, p ++ q⟩ l =
          .error fault' l' ∧ l'.progress = l₂.progress ∧
        fault'.toError =
          { fault.toError with position := fault.toError.position.map (· + p.length) } := by
  obtain ⟨_, progress₁, hrun, rfl, rfl⟩ :=
    (tracks_sample stream ⟨start, p⟩ l.opened).of_eq_ok (p := l.progress) hp
  have hprecedes : (⟨start, p⟩ : Slice).Precedes q := by
    refine ⟨hbrace, fun hend c hc => ?_⟩
    by_contra hne
    exact hdigit ⟨hend, c, hc, Bool.not_eq_false _ ▸ hne⟩
  have hlonger := Slice.sample_append hrun hprecedes
  have hback := tracks_sample stream ⟨start, q⟩ (l.opened + countGroups p) progress₁
  have hall := tracks_sample stream ⟨start, p ++ q⟩ l.opened l.progress
  obtain ⟨front, hfront, -⟩ := Slice.sample_eq_ok.1 hrun
  have hgroups : countGroups (p ++ q) = countGroups p + countGroups q :=
    (Pattern.unbroken_of_samples hfront).countGroups_append q
  simp only [hgroups, ← Nat.add_assoc] at hall
  cases hq : (⟨start, q⟩ : Slice).sample stream (l.opened + countGroups p) progress₁ with
  | ok s₂ progress₂ =>
    rw [hq] at hlonger hback
    obtain ⟨x, hx, htext, hentropy⟩ := hlonger
    obtain ⟨_, hback, rfl⟩ := hback
    rw [show (⟨start, p ++ q⟩ : Slice) = (⟨start, p⟩ : Slice).append q from rfl, hx] at hall
    obtain ⟨_, hall, rfl⟩ := hall
    rw [hback]
    exact ⟨_, hall, htext, hentropy⟩
  | error fault progress₂ =>
    rw [hq] at hlonger hback
    obtain ⟨n, hback⟩ := hback
    rw [show (⟨start, p ++ q⟩ : Slice) = (⟨start, p⟩ : Slice).append q from rfl, hlonger] at hall
    obtain ⟨m, hall⟩ := hall
    rw [hback]
    exact ⟨_, _, hall, rfl, Fault.toError_shift p.length fault⟩

/-- Behind five characters, a reference to a group that does not exist fails five characters further
on. -/
theorem walk_append_reference :
    ∃ fault l, Walk.sample (walk fun _ => 0) ⟨0, "(a)\\1x\\2".toList⟩ ⟨⟨0, .empty⟩, 0⟩ =
      .error fault l ∧ fault.toError.position = some 6 := by
  have hp : Walk.sample (walk fun _ => 0) ⟨0, "(a)\\1".toList⟩ ⟨⟨0, .empty⟩, 0⟩ =
      .ok ⟨"aa", .sum [.sum [.zero], .zero]⟩ ⟨⟨0, ⟨[(1, "a")]⟩⟩, 1⟩ := by cbv
  have hq : Walk.sample (walk fun _ => 0) ⟨0, "x\\2".toList⟩ ⟨⟨0, ⟨[(1, "a")]⟩⟩, 1⟩ =
      .error (.located (.invalidReference "2") 1 2) ⟨⟨0, ⟨[(1, "a")]⟩⟩, 1⟩ := by cbv
  have hdigit : ¬∃ c, "x\\2".toList.head? = some c ∧ c.isDigit = true := by
    rintro ⟨c, hc, hc'⟩
    cases hc
    cases hc'
  have happend := walk_append (fun _ => 0) 0 "(a)\\1".toList "x\\2".toList _ _ _ hp (by decide)
    fun h => hdigit h.2
  rw [hq] at happend
  obtain ⟨fault, l, hrun, -, herror⟩ := happend
  exact ⟨fault, l, hrun, by rw [herror]; rfl⟩

end PatternSampler
