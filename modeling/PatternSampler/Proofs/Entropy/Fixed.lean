import PatternSampler.Proofs.Faults.Possible
import PatternSampler.Proofs.Reading.Counts
import PatternSampler.Proofs.Run.Agrees

set_option autoImplicit false

/-!
# Arguments that are not random

An argument is taken for fixed if its entropy is nothing. There are two random parts that do not
show in the entropy: how often a construct is repeated, and the order of shuffled characters. Where
neither of them occurs, a text without entropy is the same whatever the random words are.

## Main results

* `Pattern.positive_samples` — a tree with a random part that shows yields samples with entropy.
* `Pattern.agrees_samples` — a tree without random parts yields the same text for all streams.
* `literal_eq_of_fixed_counts` — an argument that must not be random has the same text for all
  streams.
-/

namespace PatternSampler

open Run Sample

/-! ## Entropy of random parts -/

/-- A sum is positive if one of its parts is. -/
lemma isPositive_of_mem {parts : List Entropy} {part : Entropy} (hmem : part ∈ parts)
    (h : part.isPositive) : (Entropy.sum parts).isPositive := by
  rw [Entropy.isPositive, anyPositive_eq, List.any_eq_true]
  exact ⟨part, hmem, h⟩

/-- A year has at least two days. -/
lemma two_le_of_sum_daysInYear {first last : Int} {days : Nat}
    (h : days + 1 = ∑ year ∈ Finset.Icc first last, daysInYear year) : 2 ≤ days + 1 := by
  have hne : ∑ year ∈ Finset.Icc first last, daysInYear year ≠ 0 := by omega
  obtain ⟨year, hyear, -⟩ := Finset.exists_ne_zero_of_sum_ne_zero hne
  have hle := Finset.single_le_sum (f := daysInYear) (fun _ _ => Nat.zero_le _) hyear
  have := le_daysInYear year
  omega

/-- Preparing the construct yields an action whose entropy shows that the construct is random. -/
def Construct.ShowsRandom (stream : WordStream) (c : Construct) : Prop :=
  (c.prepare stream).Keeps (fun _ => True)
    (fun action => action.Keeps (fun _ => True) (fun s => c.isRandom → s.entropy.isPositive)
      fun _ => True)
    fun _ => True

section Positive

variable (stream : WordStream)

mutual

/-- A tree with a random part that shows yields samples with entropy.

**Proof sketch.** By induction over the tree. The first instance of a construct has its entropy,
however often the construct is repeated. -/
theorem Pattern.positive_samples :
    ∀ t : Pattern, (t.samples stream).Keeps (fun _ => True)
      (fun samples => t.isRandom → (join samples).entropy.isPositive) fun _ => True
  | .done => by
    rw [Pattern.samples]
    exact keeps_pure (by simp [Pattern.isRandom])
  | .stop fault => by
    rw [Pattern.samples]
    exact keeps_throw trivial
  | .seq head counts rest => by
    rw [Pattern.samples]
    refine (Construct.showsRandom head).bind fun action haction => haction.bind
      fun first hfirst => (keeps_trivial _).bind fun added _ =>
        (Pattern.positive_samples rest).bind fun later hlater => keeps_pure fun hrandom => ?_
    rw [isPositive_join] at hlater ⊢
    rw [List.any_cons, List.any_append]
    rcases Bool.or_eq_true_iff.1 hrandom with hhead | hrest
    · simp [hfirst hhead]
    · simp [hlater hrest]

/-- The entropy of a random construct shows that it is random. -/
lemma Construct.showsRandom : ∀ c : Construct, c.ShowsRandom stream
  | .character c => by
    rw [Construct.ShowsRandom, Construct.prepare]
    exact keeps_pure (keeps_pure (by simp [Construct.isRandom]))
  | .oneOf set => by
    rw [Construct.ShowsRandom, Construct.prepare]
    exact keeps_pure ((keeps_charSet_sample stream set).imp fun s hs hrandom => hs ▸ hrandom)
  | .reference span digits => by
    rw [Construct.ShowsRandom, Construct.prepare_reference]
    exact (keeps_trivial _).bind fun text _ =>
      keeps_pure (keeps_pure (by simp [Construct.isRandom]))
  | .group number body => by
    rw [Construct.ShowsRandom, Construct.prepare]
    exact keeps_pure ((Pattern.positive_samples body).bind fun samples hs =>
      (keeps_trivial _).bind fun _ _ => keeps_pure hs)
  | .alternation number (.one before count body) => by
    rw [Construct.ShowsRandom, Construct.prepare_alternation]
    refine keeps_pure ((keeps_choose stream _).bind fun choice _ => ?_)
    have hchoice : 0 = choice.val := (Nat.lt_one_iff.1 choice.isLt).symm
    rw [Branches.runChoice, Branches.probeOthers, if_pos hchoice, pure_bind, Branches.chosen,
      bind_assoc]
    refine (Pattern.positive_samples body).bind fun samples hs => ?_
    rw [pure_bind]
    refine (keeps_trivial _).bind fun _ _ => (keeps_trivial _).bind fun _ _ =>
      keeps_pure fun hrandom => ?_
    refine isPositive_of_mem (List.mem_cons_of_mem _ (List.mem_singleton_self _)) ?_
    simp [Entropy.isPositive, Entropy.allPositive, hs hrandom]
  | .alternation number (.more before count body rest) => by
    rw [Construct.ShowsRandom, Construct.prepare_alternation]
    refine keeps_pure ((keeps_choose stream _).bind fun choice _ => (keeps_trivial _).bind
      fun _ _ => (keeps_trivial _).bind fun _ _ => (keeps_trivial _).bind fun _ _ =>
        (keeps_trivial _).bind fun _ _ => keeps_pure fun _ => ?_)
    refine isPositive_of_mem List.mem_cons_self ?_
    have := rest.length_pos
    exact decide_eq_true (show 2 ≤ rest.length + 1 by omega)
  | .encode t argument => by
    rw [Construct.ShowsRandom, Construct.prepare]
    exact keeps_pure ((Argument.positive_sample argument).bind fun s hs =>
      (keeps_transformed t s fun _ _ => trivial).imp fun s' hs' hrandom => hs' ▸ hs hrandom)
  | .expand argument separator => by
    rw [Construct.ShowsRandom, Construct.prepare]
    exact (keeps_trivial _).bind fun sep _ => keeps_pure ((Argument.positive_sample argument).bind
      fun s hs => (keeps_transformed _ s fun _ _ => trivial).imp
        fun s' hs' hrandom => hs' ▸ hs hrandom)
  | .byte case => by
    rw [Construct.ShowsRandom, Construct.prepare]
    exact keeps_pure ((keeps_sampleByte stream case).imp fun s hs _ => hs ▸ rfl)
  | .words count => by
    refine Construct.keeps_prepare_words (keeps_trivial _) (fun _ _ => trivial)
      fun text number _ _ hnumber => (keeps_sampleWords stream number).imp fun s hs _ => ?_
    rw [hs]
    exact isPositive_of_mem (List.mem_replicate.2 ⟨hnumber.ne', rfl⟩) rfl
  | .date first last separator => by
    refine Construct.keeps_prepare_date (keeps_trivial _) (keeps_trivial _) (keeps_trivial _)
      (fun _ _ _ _ => trivial) fun _ _ _ _ days _ _ _ _ _ hdays hday => hday.imp
        fun s hs _ => ?_
    rw [hs, Entropy.isPositive]
    exact decide_eq_true (two_le_of_sum_daysInYear hdays)
  | .shuffle argument => by
    rw [Construct.ShowsRandom, Construct.prepare]
    exact keeps_pure ((Argument.positive_sample argument).bind fun s hs =>
      (keeps_shuffled stream s).imp fun s' hs' hrandom => hs' ▸ hs hrandom)
  | .optional argument => by
    rw [Construct.ShowsRandom, Construct.prepare]
    exact keeps_pure ((keeps_trivial _).bind fun s _ =>
      (keeps_orNothing stream s).imp fun s' hs' _ => hs' ▸ rfl)
  | .justify _ argument _ _ =>
    Construct.keeps_prepare_justify (keeps_trivial _) (keeps_trivial _)
      (fun _ _ _ _ => trivial) fun columns filling =>
        (Argument.positive_sample argument).bind fun s hs => keeps_pure hs

/-- The sample of a random argument has a positive entropy. -/
lemma Argument.positive_sample :
    ∀ a : Argument, (a.sample stream).Keeps (fun _ => True)
      (fun s => a.isRandom → s.entropy.isPositive) fun _ => True
  | .mk _ body => by
    rw [Argument.sample]
    exact (Pattern.positive_samples body).bind fun samples hs => keeps_pure hs

end

/-- An argument that shows to be random is refused. -/
lemma Argument.isRandom_eq_false_of_literal (role : LiteralArgument) (a : Argument) :
    (a.literal stream role).Keeps (fun _ => True) (fun _ => a.isRandom = false)
      fun _ => True := by
  obtain ⟨span, body⟩ := a
  rw [Argument.literal]
  exact (Pattern.positive_samples stream body).bind fun samples hs =>
    keeps_ite (fun _ => keeps_throw trivial) fun hcalm => keeps_pure
      (Bool.eq_false_iff.2 fun hrandom => hcalm (hs hrandom))

end Positive

/-! ## Texts without random parts -/

section Texts

variable (stream stream' : WordStream)

mutual

/-- A tree without random parts yields the same text for all streams.

**Proof sketch.** By induction over the tree. Nothing is drawn but from single values, and the
arguments that are settled in front of a construct agree since they must not be random. -/
theorem Pattern.agrees_samples : ∀ {t : Pattern}, t.isRandom = false →
    t.CountsIn (fun count => count.low = count.high) → t.CallsIn (· ≠ .shuffle) →
      (t.samples stream).Agrees (t.samples stream') SameTexts
  | .done, _, _, _ => by
    rw [Pattern.samples, Pattern.samples]
    exact agrees_pure rfl
  | .stop fault, _, _, _ => by
    rw [Pattern.samples, Pattern.samples]
    exact agrees_throw fault
  | .seq head counts rest, hrandom, ⟨hhead, hcounts, hrest⟩, hcalls => by
    rw [Pattern.isRandom, Bool.or_eq_false_iff] at hrandom
    rw [Pattern.samples, Pattern.samples]
    exact (Construct.agrees_prepare hrandom.1 hhead hcalls.1).bind fun action action' haction =>
      haction.bind fun first first' hfirst => (agrees_extras hcounts haction).bind
        fun added added' hadded => (Pattern.agrees_samples hrandom.2 hrest hcalls.2).bind
          fun later later' hlater => agrees_pure (hfirst.cons (hadded.append hlater))

/-- A construct that is not random yields the same text on both streams. -/
lemma Construct.agrees_prepare : ∀ {c : Construct}, c.isRandom = false →
    c.CountsIn (fun count => count.low = count.high) → c.CallsIn (· ≠ .shuffle) →
      (c.prepare stream).Agrees (c.prepare stream') fun action action' =>
        action.Agrees action' SameText
  | .character c, _, _, _ => by
    rw [Construct.prepare, Construct.prepare]
    exact agrees_pure (agrees_pure rfl)
  | .oneOf set, hrandom, _, _ => by
    rw [Construct.prepare, Construct.prepare]
    exact agrees_pure (agrees_charSet (Nat.not_le.1 (of_decide_eq_false hrandom)))
  | .reference span digits, _, _, _ => by
    rw [Construct.prepare_reference, Construct.prepare_reference]
    refine (agrees_runReference span digits).bind fun text text' htext => agrees_pure ?_
    subst htext
    exact agrees_pure rfl
  | .group number body, hrandom, hcounts, hcalls => by
    rw [Construct.prepare, Construct.prepare]
    exact agrees_pure ((Pattern.agrees_samples (t := body) hrandom hcounts hcalls).bind
      fun samples samples' hs => (agrees_record number hs).bind fun _ _ _ => agrees_pure hs)
  | .alternation number (.one before count body), hrandom, hcounts, hcalls => by
    rw [Construct.prepare_alternation, Construct.prepare_alternation]
    refine agrees_pure ((agrees_choose stream stream' _).bind fun choice choice' _ => ?_)
    have hchoice : choice = choice' := Subsingleton.elim (α := Fin 1) choice choice'
    have hfirst : 0 = choice'.val := (Nat.lt_one_iff.1 choice'.isLt).symm
    rw [hchoice, Branches.runChoice, Branches.runChoice, Branches.probeOthers,
      Branches.probeOthers, if_pos hfirst, if_pos hfirst, pure_bind, pure_bind, Branches.chosen,
      Branches.chosen, bind_assoc, bind_assoc]
    refine (Pattern.agrees_samples (t := body) hrandom hcounts hcalls).bind
      fun samples samples' hs => ?_
    rw [pure_bind, pure_bind]
    exact (agrees_modify _).bind fun _ _ _ => (agrees_record number hs).bind fun _ _ _ =>
      agrees_pure hs
  | .encode t argument, hrandom, hcounts, hcalls => by
    rw [Construct.prepare, Construct.prepare]
    exact agrees_pure ((Argument.agrees_sample (a := argument) hrandom hcounts hcalls.2).bind
      fun s s' hs => agrees_transformed t _ hs)
  | .expand argument separator, hrandom, hcounts, hcalls => by
    rw [Construct.prepare, Construct.prepare]
    refine (Argument.agrees_literal .separator hcounts.2 hcalls.2.2).bind fun sep sep' hsep => ?_
    subst hsep
    exact agrees_pure ((Argument.agrees_sample (a := argument) hrandom hcounts.1 hcalls.2.1).bind
      fun s s' hs => agrees_transformed _ _ hs)
  | .shuffle argument, _, _, hcalls => absurd rfl hcalls.1
  | .justify alignment argument width fill, hrandom, hcounts, hcalls => by
    rw [Construct.prepare, Construct.prepare]
    refine (Argument.agrees_literal .width hcounts.2.1 hcalls.2.2.1).bind fun text text' htext => ?_
    subst htext
    refine (agrees_numberOf _ _ _).bind fun columns columns' hcolumns => ?_
    subst hcolumns
    refine (Argument.agrees_literal .fill hcounts.2.2 hcalls.2.2.2).bind fun text text' htext => ?_
    subst htext
    refine (agrees_fillOf _ _).bind fun filling filling' hfilling => ?_
    subst hfilling
    refine agrees_check fun _ _ => agrees_pure
      ((Argument.agrees_sample (a := argument) hrandom hcounts.1 hcalls.2.1).bind
        fun s s' hs => agrees_pure ?_)
    simp only [SameText, Sample.justified]
    rw [show s.text = s'.text from hs]

/-- An argument that is not random has the same text on both streams. -/
lemma Argument.agrees_sample : ∀ {a : Argument}, a.isRandom = false →
    a.CountsIn (fun count => count.low = count.high) → a.CallsIn (· ≠ .shuffle) →
      (a.sample stream).Agrees (a.sample stream') SameText
  | .mk _ body, hrandom, hcounts, hcalls => by
    rw [Argument.sample, Argument.sample]
    exact (Pattern.agrees_samples (t := body) hrandom hcounts hcalls).bind
      fun samples samples' hs => agrees_pure hs

/-- A fixed argument has the same text on both streams. -/
lemma Argument.agrees_literal (role : LiteralArgument) : ∀ {a : Argument},
    a.CountsIn (fun count => count.low = count.high) → a.CallsIn (· ≠ .shuffle) →
      (a.literal stream role).Agrees (a.literal stream' role) Eq
  | .mk span body, hcounts, hcalls => by
    cases hrandom : body.isRandom with
    | true =>
      refine agrees_of_keeps ?_
      exact (Argument.isRandom_eq_false_of_literal stream role ⟨span, body⟩).imp fun _ hfixed =>
        absurd hrandom (Bool.eq_false_iff.1 hfixed)
    | false =>
      rw [Argument.literal, Argument.literal]
      exact (Pattern.agrees_samples (t := body) hrandom hcounts hcalls).bind
        fun samples samples' hs => agrees_check fun _ _ => agrees_pure hs

end

end Texts

/-- **Arguments that are not random**: let no count of an argument have two different bounds, and
let it call no function that puts characters into random order. Wherever the argument is accepted as
one that must not be random, for two streams and with the same texts of groups, its text is the same
for both, and so are the texts of groups behind it. -/
theorem literal_eq_of_fixed_counts {a : Argument}
    (hcounts : a.CountsIn fun count => count.low = count.high) (hcalls : a.CallsIn (· ≠ .shuffle))
    (role : LiteralArgument) {stream stream' : WordStream} {p p' q q' : Progress}
    {text text' : String} (hgroups : p.groups = p'.groups)
    (h : a.literal stream role p = .ok text q) (h' : a.literal stream' role p' = .ok text' q') :
    text = text' ∧ q.groups = q'.groups :=
  Argument.agrees_literal stream stream' role hcounts hcalls p p' hgroups text q text' q' h h'

/-- A group that is repeated twice and referred to, as the character that fills up a field. -/
theorem literal_eq_of_fixed_counts_of_group :
    ∃ q q', Argument.literal (fun _ => 0) .fill ⟨⟨0, 8⟩, Pattern.ofText "(x){2}\\1".toList⟩
        ⟨0, .empty⟩ = .ok "xxx" q ∧
      Argument.literal (fun _ => 0xffffffff) .fill ⟨⟨0, 8⟩, Pattern.ofText "(x){2}\\1".toList⟩
        ⟨7, .empty⟩ = .ok "xxx" q' ∧ q.groups = q'.groups := by
  have htree : Pattern.ofText "(x){2}\\1".toList =
      .seq (.group 1 (.seq (.character 'x') [] .done)) [.exactly 2]
        (.seq (.reference ⟨6, 2⟩ ['1']) [] .done) := by
    cbv
  have hcounts : (Argument.mk ⟨0, 8⟩ (Pattern.ofText "(x){2}\\1".toList)).CountsIn
      fun count => count.low = count.high := by
    rw [htree]
    exact ⟨⟨trivial, List.forall_mem_nil _, trivial⟩, List.forall_mem_singleton.2 rfl, trivial,
      List.forall_mem_nil _, trivial⟩
  have hcalls : (Argument.mk ⟨0, 8⟩ (Pattern.ofText "(x){2}\\1".toList)).CallsIn
      (· ≠ .shuffle) := by
    rw [htree]
    exact ⟨⟨trivial, trivial⟩, trivial, trivial⟩
  have hrun : Argument.literal (fun _ => 0) .fill ⟨⟨0, 8⟩, Pattern.ofText "(x){2}\\1".toList⟩
      ⟨0, .empty⟩ = .ok "xxx" ⟨0, ⟨[(1, "x")]⟩⟩ := by
    cbv
  have hrun' : Argument.literal (fun _ => 0xffffffff) .fill
      ⟨⟨0, 8⟩, Pattern.ofText "(x){2}\\1".toList⟩ ⟨7, .empty⟩ =
        .ok "xxx" ⟨7, ⟨[(1, "x")]⟩⟩ := by
    cbv
  have hgroups : (Progress.mk 0 .empty).groups = (Progress.mk 7 .empty).groups := rfl
  exact ⟨_, _, hrun, hrun', (literal_eq_of_fixed_counts hcounts hcalls .fill hgroups hrun hrun').2⟩

/-- A count that is drawn does not show in the entropy. -/
example :
    (generate (fun _ => 0) 0 "$expand(ab,z{1,2})").result.toOption.map Sample.text =
      some "azb" ∧
    (generate (fun _ => 0xffffffff) 0 "$expand(ab,z{1,2})").result.toOption.map Sample.text =
      some "azzb" := by
  cbv
  exact ⟨rfl, rfl⟩

end PatternSampler
