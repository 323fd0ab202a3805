import PatternSampler.Proofs.Faults.Possible
import PatternSampler.Proofs.Numbering.Frame

set_option autoImplicit false

/-!
# Runs end with possible faults

A run of a pattern whose calls cannot fail ends well exactly if the pattern has no possible faults,
and a mistake that it ends with is one of them. Random words therefore have no part in whether a
pattern is accepted.

## Main definitions

* `GroupTable.Knows` — the groups that have a text.
* `Construct.PreparesSoundly` — what is known of a construct before and after it is prepared.

## Main results

* `Pattern.ends_samples` — a run ends well without faults, and with one of the faults otherwise.
* `generate_isOk_of_isOk` — acceptance does not depend on random words.
-/

namespace PatternSampler

open Run

/-! ## Tables -/

/-- The groups `known` have a text, and no others have one. -/
def GroupTable.Knows (t : GroupTable) (known : Nat → Bool) : Prop :=
  ∀ n, (t.text? n).isSome = known n

namespace GroupTable

/-- A table knows the groups that have a text in it. -/
lemma knows_isSome (t : GroupTable) : t.Knows fun n => (t.text? n).isSome := fun _ => rfl

/-- An empty table knows no groups. -/
lemma knows_empty : empty.Knows fun _ => false := fun _ => rfl

/-- Texts do not disappear where groups are filled. -/
lemma Fills.isSome_of_isSome {S : Set Nat} {t t' : GroupTable} (h : t.Fills S t') {n : Nat}
    (hn : (t.text? n).isSome) : (t'.text? n).isSome := by
  by_cases hS : n ∈ S
  · exact h.isSome n hS
  · rwa [h.eq_of_notMem n hS]

/-- Behind an action that fills some groups these are known as well. -/
lemma Fills.knows {S : Set Nat} {t t' : GroupTable} {known opens : Nat → Bool} (h : t.Fills S t')
    (ht : t.Knows known) (hS : ∀ n, opens n ↔ n ∈ S) : t'.Knows (extended known opens) := by
  intro n
  rw [extended]
  by_cases hn : n ∈ S
  · rw [h.isSome n hn, (hS n).2 hn, Bool.or_true]
  · have hopens : opens n = false := by
      rw [← Bool.not_eq_true, hS n]
      exact hn
    rw [h.eq_of_notMem n hn, ht n, hopens, Bool.or_false]

end GroupTable

/-! ## Repetitions -/

section Instances

variable {stream : WordStream} {c : Construct}

/-- Preparing the construct ends well exactly without early faults, and so does generating it, once
it is prepared, without late ones. -/
def Construct.PreparesSoundly (stream : WordStream) (c : Construct) : Prop :=
  ∀ (p : Progress) (known : Nat → Bool), p.groups.Knows known →
    (c.prepare stream).Ends p
      (fun action q => c.earlyFaults known = [] ∧ q.groups.Knows (extended known c.earlyOpens) ∧
        ∀ (r : Progress) (known' : Nat → Bool), r.groups.Knows known' →
          action.Ends r
            (fun s _ => c.lateFaults known' = [] ∧ s.entropy.isPositive = c.isRandom)
            fun fault _ => fault ∈ c.lateFaults known')
      fun fault _ => fault ∈ c.earlyFaults known

/-- A construct that is repeated ends as its first instance does. -/
lemma Construct.PreparesSoundly.instances (h : c.PreparesSoundly stream) {S T : Set Nat}
    (hfills : c.FillsBy stream S T) (counts : List RepeatCount) {p : Progress}
    {known : Nat → Bool} (hp : p.groups.Knows known) :
    (c.instances stream counts).Ends p
      (fun samples _ => c.earlyFaults known = [] ∧
        c.lateFaults (extended known c.earlyOpens) = [] ∧
          (Sample.join samples).entropy.isPositive = c.isRandom)
      fun fault _ => fault ∈
        orLater (c.earlyFaults known) (c.lateFaults (extended known c.earlyOpens)) := by
  rw [Construct.instances]
  refine (((h p known hp).and (hfills p)).imp_right
    fun fault q hfault => mem_orLater.2 (.inl hfault.1)).bind ?_
  rintro action q ⟨⟨hearly, hq, haction⟩, _, hT⟩
  refine (((haction q _ hq).and (hT q)).imp_right
    fun fault r hfault => mem_orLater.2 (.inr ⟨hearly, hfault.1⟩)).bind ?_
  rintro first r ⟨⟨hlate, hfirst⟩, hr⟩
  -- behind the first instance no text is missing any more
  have hkeeps : action.Keeps (fun t => ∀ n, extended known c.earlyOpens n → (t.text? n).isSome)
      (fun s => s.entropy.isPositive → c.isRandom) fun _ => False := by
    intro r' hr'
    refine ((haction r' _ r'.groups.knows_isSome).and (hT r')).imp ?_ ?_
    · rintro s q' ⟨⟨_, hs⟩, hq'⟩
      exact ⟨fun n hn => hq'.isSome_of_isSome (hr' n hn), fun hpos => hs ▸ hpos⟩
    · rintro fault q' ⟨hfault, _⟩
      rw [c.lateFaults_mono hr' hlate] at hfault
      exact List.not_mem_nil hfault
  have hjoin : ∀ samples : List Sample, (∀ s ∈ samples, s.entropy.isPositive → c.isRandom) →
      (Sample.join samples).entropy.isPositive → c.isRandom := by
    intro samples hsamples hpos
    rw [isPositive_join, List.any_eq_true] at hpos
    obtain ⟨s, hs, hpos⟩ := hpos
    exact hsamples s hs hpos
  refine ((keeps_extras stream counts hjoin hkeeps r ?_).imp_right fun _ _ h => h.elim).bind ?_
  · intro n hn
    exact hr.isSome_of_isSome ((hq n).trans hn)
  · rintro added r' ⟨_, hadded⟩
    refine ⟨hearly, hlate, ?_⟩
    rw [isPositive_join, List.any_cons, hfirst]
    cases hrandom : c.isRandom with
    | true => rfl
    | false =>
      rw [Bool.false_or, List.any_eq_false]
      intro s hs hpos
      rw [hrandom] at hadded
      exact absurd (hadded s hs hpos) Bool.false_ne_true

end Instances

/-! ## Transforms -/

/-- A transform that is allowed has a result for each text. -/
lemma keeps_transformed_of_failFree {I : GroupTable → Prop} {t : Transform} {span : Span}
    (s : Sample) {F : Fault → Prop} (ht : ∀ text, ∃ out, t.apply text = .ok out) :
    (s.transformed t span).Keeps I (fun s' => s'.entropy = s.entropy) F := by
  obtain ⟨out, hout⟩ := ht s.text
  simp only [Sample.transformed, hout]
  exact keeps_pure rfl

/-- A transform that cannot fail has a result for each text. -/
lemma exists_apply_of_failFree {t : Transform} (h : Builtin.encode t ∈ Builtin.failFree)
    (text : String) : ∃ out, t.apply text = .ok out := by
  simp only [Builtin.failFree_eq, List.mem_cons, Builtin.encode.injEq, reduceCtorEq, false_or,
    or_false, List.not_mem_nil] at h
  rcases h with rfl | rfl | rfl | rfl | rfl | rfl <;> exact ⟨_, rfl⟩

/-! ## Trees -/

/-- A part that opens no groups makes no more of them known. -/
lemma extended_false (known : Nat → Bool) : extended known (fun _ => false) = known := by
  funext n
  simp [extended]

/-- A construct whose preparing always yields the same action. -/
lemma Construct.PreparesSoundly.of_pure {stream : WordStream} {c : Construct} {action : Run Sample}
    (hprepare : c.prepare stream = pure action) (hearly : ∀ known, c.earlyFaults known = [])
    (hopens : c.earlyOpens = fun _ => false)
    (haction : ∀ (p : Progress) (known : Nat → Bool), p.groups.Knows known →
      action.Ends p (fun s _ => c.lateFaults known = [] ∧ s.entropy.isPositive = c.isRandom)
        fun fault _ => fault ∈ c.lateFaults known) :
    c.PreparesSoundly stream := by
  intro p known hp
  rw [hprepare, ends_pure, hopens, extended_false]
  exact ⟨hearly known, hp, haction⟩

/-- An action without mistakes that keeps the texts of groups. -/
lemma ends_of_keeps {action : Run Sample} {P : Sample → Prop} {Q : Sample → Prop} {p : Progress}
    {faults : List Fault} (h : action.Keeps (fun _ => True) P fun _ => False)
    (hQ : ∀ s, P s → Q s) : action.Ends p (fun s _ => Q s) fun fault _ => fault ∈ faults :=
  (h p trivial).imp (fun s _ hs => hQ s hs.2) fun _ _ h => h.elim

mutual

/-- **Runs and possible faults**: a run ends well only without possible faults, and what it
generates is random if the tree says so. Otherwise it ends with one of the faults.

**Proof sketch.** By induction over the tree. Which groups have a text in front of a part is known
from the groups in front of the tree and from the numbers in it. A construct that is repeated has
all of its texts from the first instance on, so the later instances cannot fail. -/
theorem Pattern.ends_samples (stream : WordStream) {before after : Nat} :
    ∀ {t : Pattern}, t.FailFree → t.Numbered before after →
      ∀ {p : Progress} {known : Nat → Bool}, p.groups.Knows known →
        (t.samples stream).Ends p
          (fun samples _ => t.faults known = [] ∧
            (Sample.join samples).entropy.isPositive = t.isRandom)
          fun fault _ => fault ∈ t.faults known
  | .done, _, _, p, known, _ => by
    rw [Pattern.samples, ends_pure]
    exact ⟨rfl, rfl⟩
  | .stop fault, _, _, p, known, _ => by
    rw [Pattern.samples, ends_throw]
    exact List.mem_singleton_self fault
  | .seq head counts rest, hcalls, ⟨mid, hhead, hrest⟩, p, known, hp => by
    obtain ⟨S, T, hST, hfills⟩ := Construct.fills_prepare stream hhead
    have hsound := Construct.preparesSoundly stream hcalls.1 hhead
    have hinstances := hfills.instances counts p
    rw [hST] at hinstances
    rw [Pattern.samples_seq, Pattern.faults]
    refine (((hsound.instances hfills counts hp).and hinstances).imp_right
      fun fault q hfault => mem_orLater.2 (.inl hfault.1)).bind ?_
    rintro here q ⟨⟨hearly, hlate, hhere⟩, hq⟩
    have hknows := hq.knows hp (Construct.opens_iff hcalls.1 hhead hearly hlate)
    rw [hearly, hlate, orLater_nil, orLater_nil]
    apply (Pattern.ends_samples stream hcalls.2 hrest hknows).bind
    rintro later r ⟨hfaults, hlater⟩
    refine ⟨hfaults, ?_⟩
    rw [isPositive_join] at hhere hlater ⊢
    rw [List.any_append, hhere, hlater, Pattern.isRandom]

/-- Each construct without calls that can fail is prepared soundly. -/
lemma Construct.preparesSoundly (stream : WordStream) {before after : Nat} :
    ∀ {c : Construct}, c.CallsIn (· ∈ Builtin.failFree) → c.Numbered before after →
      c.PreparesSoundly stream
  | .character c, _, _ => by
    refine .of_pure (by rw [Construct.prepare]) (fun _ => rfl) rfl fun p known _ => ?_
    exact ⟨rfl, rfl⟩
  | .oneOf set, _, _ => by
    refine .of_pure (by rw [Construct.prepare]) (fun _ => rfl) rfl fun p known _ => ?_
    exact ends_of_keeps (keeps_charSet_sample stream set) fun s hs => ⟨rfl, hs⟩
  | .byte case, _, _ => by
    refine .of_pure (by rw [Construct.prepare]) (fun _ => rfl) rfl fun p known _ => ?_
    refine ends_of_keeps (keeps_sampleByte stream case) fun s hs => ⟨rfl, ?_⟩
    rw [hs]
    rfl
  | .reference span digits, _, _ => by
    intro p known hp
    rw [Construct.prepare, ends_bind, ends_get]
    have hfaults : (Construct.reference span digits).earlyFaults known = [] ↔
        ((decimal? digits).bind p.groups.text?).isSome := by
      rw [Construct.earlyFaults, faults_ite_eq_nil]
      cases decimal? digits with
      | none => simp
      | some n => simp [hp n]
    split
    · rename_i text htext
      rw [ends_pure, show (Construct.reference span digits).earlyOpens = fun _ => false from rfl,
        extended_false]
      refine ⟨hfaults.2 (by rw [htext]; rfl), hp, fun r known' _ => ?_⟩
      exact ⟨rfl, rfl⟩
    · rename_i hnone
      rw [ends_throw, Construct.earlyFaults]
      rw [Construct.earlyFaults, faults_ite_eq_nil, hnone] at hfaults
      rw [if_neg (by simpa using hfaults)]
      exact List.mem_singleton_self _
  | .group number body, hcalls, ⟨_, hbody⟩ => by
    refine .of_pure (by rw [Construct.prepare]) (fun _ => rfl) rfl fun p known hp => ?_
    simp only [ends_bind, ends_record, ends_pure]
    exact Pattern.ends_samples stream hcalls hbody hp
  | .alternation number branches, hcalls, ⟨_, hbranches⟩ => by
    refine .of_pure (by rw [Construct.prepare]) (fun _ => rfl) rfl fun p known hp => ?_
    rw [ends_bind, ends_choose]
    generalize (⟨_, _⟩ : Fin branches.length) = choice
    have hmem : ∀ fault, fault ∈ orLater (branches.othersFaults choice 0 known)
        (branches.chosenFaults choice known) →
          fault ∈ (Construct.alternation number branches).lateFaults known := fun fault hfault =>
      List.mem_flatMap.2 ⟨choice, List.mem_range.2 choice.isLt, hfault⟩
    refine ((Branches.ends_probeOthers stream hcalls hbranches choice 0
      (p := ⟨(uniform stream branches.length p.position).2, p.groups⟩) hp).imp_right
        fun fault q hfault => hmem fault (mem_orLater.2 (.inl hfault))).bind ?_
    rintro others q ⟨hothers, hq, hnone⟩
    refine ((Branches.ends_chosen stream hcalls hbranches choice (hq ▸ hp)).imp_right
      fun fault r hfault => hmem fault (mem_orLater.2 (.inr ⟨hothers, hfault⟩))).bind ?_
    rintro s r ⟨hchosen, hs⟩
    simp only [ends_bind, ends_modify, ends_record, ends_pure]
    refine ⟨Construct.lateFaults_eq_nil_of_choice choice.isLt hothers hchosen, ?_⟩
    rw [Construct.isRandom]
    cases branches with
    | one before count body =>
      have hchoice : choice.val = 0 := by
        have := choice.isLt
        simp only [Branches.length] at this
        omega
      simp [Entropy.isPositive, Entropy.anyPositive, Entropy.allPositive, Branches.length,
        hnone rfl hchoice.symm, hs rfl]
    | more before count body rest =>
      have := rest.length_pos
      have hlength : 2 ≤ rest.length + 1 := by omega
      simp [Entropy.isPositive, Entropy.anyPositive, Branches.length, Branches.isRandom, hlength]
  | .encode t argument, hcalls, hnum => by
    refine .of_pure (by rw [Construct.prepare]) (fun _ => rfl) rfl fun p known hp => ?_
    apply (Argument.ends_sample (a := argument) stream hcalls.2 hnum hp).bind
    rintro s q ⟨hfaults, hs⟩
    apply ends_of_keeps (keeps_transformed_of_failFree s (exists_apply_of_failFree hcalls.1))
    intro s' hs'
    exact ⟨hfaults, hs' ▸ hs⟩
  | .shuffle argument, hcalls, hnum => by
    refine .of_pure (by rw [Construct.prepare]) (fun _ => rfl) rfl fun p known hp => ?_
    apply (Argument.ends_sample (a := argument) stream hcalls.2 hnum hp).bind
    rintro s q ⟨hfaults, hs⟩
    apply ends_of_keeps (keeps_shuffled stream s)
    intro s' hs'
    exact ⟨hfaults, hs' ▸ hs⟩
  | .optional argument, hcalls, hnum => by
    refine .of_pure (by rw [Construct.prepare]) (fun _ => rfl) rfl fun p known hp => ?_
    apply (Argument.ends_sample (a := argument) stream hcalls.2 hnum hp).bind
    rintro s q ⟨hfaults, hs⟩
    apply ends_of_keeps (keeps_orNothing stream s)
    intro s' hs'
    exact ⟨hfaults, by rw [hs']; rfl⟩
  | .expand argument separator, hcalls, ⟨mid, hargument, hseparator⟩ => by
    intro p known hp
    rw [Construct.prepare]
    refine (((Argument.ends_literal stream .separator hcalls.2.2 hseparator hp).and
      (Argument.fills_literal stream .separator hseparator p)).imp_right
        fun fault q hfault => hfault.1).bind ?_
    rintro sep q ⟨⟨hfaults, hrandom⟩, hq⟩
    refine ⟨by simp [Construct.earlyFaults, hfaults, hrandom],
      hq.knows hp (Argument.opens_iff hcalls.2.2 hseparator hfaults), fun r known' hr => ?_⟩
    apply (Argument.ends_sample stream hcalls.2.1 hargument hr).bind
    rintro s r' ⟨hfaults', hs⟩
    apply ends_of_keeps (keeps_transformed_of_failFree s fun text => ⟨_, rfl⟩)
    intro s' hs'
    exact ⟨hfaults', hs' ▸ hs⟩
  | .words _, hcalls, _ | .date _ _ _, hcalls, _ => by
    have := hcalls.1
    simp [Builtin.failFree_eq] at this
  | .justify _ _ _ _, hcalls, _ => by
    have := hcalls.1
    simp [Builtin.failFree_eq] at this

/-- An argument ends well if it has no faults, and otherwise with one of them. -/
lemma Argument.ends_sample (stream : WordStream) {before after : Nat} :
    ∀ {a : Argument}, a.CallsIn (· ∈ Builtin.failFree) → a.Numbered before after →
      ∀ {p : Progress} {known : Nat → Bool}, p.groups.Knows known →
        (a.sample stream).Ends p
          (fun s _ => a.faults known = [] ∧ s.entropy.isPositive = a.isRandom)
          fun fault _ => fault ∈ a.faults known
  | .mk _ body, hcalls, hnum, p, known, hp => by
    rw [Argument.sample, ends_bind]
    exact Pattern.ends_samples (t := body) stream hcalls hnum hp

/-- A fixed argument ends well if it has no faults and is not random, and otherwise with one of
these. -/
lemma Argument.ends_literal (stream : WordStream) (role : LiteralArgument) {before after : Nat} :
    ∀ {a : Argument}, a.CallsIn (· ∈ Builtin.failFree) → a.Numbered before after →
      ∀ {p : Progress} {known : Nat → Bool}, p.groups.Knows known →
        (a.literal stream role).Ends p
          (fun _ _ => a.faults known = [] ∧ a.isRandom = false)
          fun fault _ => fault ∈ orLater (a.faults known)
            (if a.isRandom then [.within (.randomArgument role) a.span] else [])
  | .mk span body, hcalls, hnum, p, known, hp => by
    rw [Argument.literal]
    refine ((Pattern.ends_samples (t := body) stream hcalls hnum hp).imp_right
      fun fault q hfault => mem_orLater.2 (.inl hfault)).bind ?_
    rintro samples q ⟨hfaults, hrandom⟩
    refine ends_ite (fun hpos => ?_) fun hpos => ?_
    · refine mem_orLater.2 (.inr ⟨hfaults, ?_⟩)
      rw [if_pos (show (Argument.mk span body).isRandom = true from hrandom.symm.trans hpos)]
      exact List.mem_singleton_self _
    · exact ⟨hfaults, hrandom.symm.trans (Bool.eq_false_iff.2 hpos)⟩

/-- Probes end well if the branches have no faults, and otherwise with one of them. -/
lemma Branches.ends_probeOthers (stream : WordStream) {before after : Nat} :
    ∀ {branches : Branches}, branches.CallsIn (· ∈ Builtin.failFree) →
      branches.Numbered before after → ∀ (choice place : Nat) {p : Progress} {known : Nat → Bool},
        p.groups.Knows known →
          (branches.probeOthers stream choice place).Ends p
            (fun others q => branches.othersFaults choice place known = [] ∧ q.groups = p.groups ∧
              (branches.length = 1 → place = choice → others = []))
            fun fault _ => fault ∈ branches.othersFaults choice place known
  | .one _ _ body, hcalls, ⟨_, _, hbody⟩, choice, place, p, known, hp => by
    rw [Branches.probeOthers, Branches.othersFaults]
    split
    · exact ⟨rfl, rfl, fun _ _ => rfl⟩
    · rename_i hne
      rw [ends_bind, ends_probe]
      apply (Pattern.ends_samples stream hcalls hbody hp).imp_left
      rintro samples q ⟨hfaults, _⟩
      exact ⟨hfaults, rfl, fun _ heq => absurd heq hne⟩
  | .more front count body rest, hcalls, ⟨_, hbody, hrest⟩, choice, place, p, known, hp => by
    have hlength : ¬(Branches.more front count body rest).length = 1 := by
      have := rest.length_pos
      simp only [Branches.length]
      omega
    have hlater := @Branches.ends_probeOthers stream _ _ rest hcalls.2 hrest choice (place + 1)
    rw [Branches.probeOthers, Branches.othersFaults]
    split
    · apply (hlater hp).imp_left
      rintro others q ⟨hothers, hq, _⟩
      exact ⟨hothers, hq, fun heq => absurd heq hlength⟩
    · rw [ends_bind, ends_probe]
      refine (Pattern.ends_samples stream hcalls.1 hbody hp).imp ?_
        fun fault q hfault => mem_orLater.2 (.inl hfault)
      rintro samples q ⟨hfaults, _⟩
      rw [hfaults, orLater_nil]
      apply (hlater (p := { q with groups := p.groups }) hp).bind
      rintro others r ⟨hothers, hr, _⟩
      exact ⟨hothers, hr, fun heq => absurd heq hlength⟩

/-- The chosen branch ends well if it has no faults, and otherwise with one of them. -/
lemma Branches.ends_chosen (stream : WordStream) {before after : Nat} :
    ∀ {branches : Branches}, branches.CallsIn (· ∈ Builtin.failFree) →
      branches.Numbered before after → ∀ (choice : Nat) {p : Progress} {known : Nat → Bool},
        p.groups.Knows known →
          (branches.chosen stream choice).Ends p
            (fun s _ => branches.chosenFaults choice known = [] ∧
              (branches.length = 1 → s.entropy.isPositive = branches.isRandom))
            fun fault _ => fault ∈ branches.chosenFaults choice known
  | .one _ _ body, hcalls, ⟨_, _, hbody⟩, choice, p, known, hp => by
    rw [Branches.chosen]
    apply (Pattern.ends_samples stream hcalls hbody hp).bind
    rintro samples q ⟨hfaults, hrandom⟩
    exact ⟨hfaults, fun _ => hrandom⟩
  | .more _ _ body rest, hcalls, ⟨_, hbody, _⟩, 0, p, known, hp => by
    rw [Branches.chosen]
    apply (Pattern.ends_samples stream hcalls.1 hbody hp).bind
    rintro samples q ⟨hfaults, _⟩
    refine ⟨hfaults, fun heq => ?_⟩
    have := rest.length_pos
    simp only [Branches.length] at heq
    omega
  | .more _ _ body rest, hcalls, ⟨_, _, hrest⟩, choice + 1, p, known, hp => by
    rw [Branches.chosen]
    apply (Branches.ends_chosen stream hcalls.2 hrest choice hp).imp_left
    rintro s q ⟨hfaults, _⟩
    refine ⟨hfaults, fun heq => ?_⟩
    have := rest.length_pos
    simp only [Branches.length] at heq
    omega

end

/-! ## Whole patterns -/

/-- The possible faults of a text as a pattern, in front of which no group has a text. -/
def faultsOfText (text : List Char) : List Fault :=
  if maxPatternLength < text.length then [⟨.tooLong, none⟩]
  else (Pattern.ofText text).faults fun _ => false

/-- A run of a text ends with one of its possible faults, or well if it has none. -/
lemma ends_sampleText (stream : WordStream) {text : List Char}
    (hcalls : (Pattern.ofText text).FailFree) (position : Nat) :
    (sampleText stream text).Ends ⟨position, .empty⟩ (fun _ _ => faultsOfText text = [])
      fun fault _ => fault ∈ faultsOfText text := by
  rw [sampleText, faultsOfText]
  split
  · exact List.mem_singleton_self _
  · refine (Pattern.ends_samples stream hcalls (Pattern.numbered_ofSlice 0 _)
      (p := ⟨position, .empty⟩) GroupTable.knows_empty).bind ?_
    rintro samples q ⟨hfaults, _⟩
    exact hfaults

/-- Generating ends with one of the possible faults of the text, or well if there are none. -/
lemma generate_eq (stream : WordStream) (position : Nat) {pattern : String}
    (hcalls : (Pattern.ofText pattern.toList).FailFree) :
    match (generate stream position pattern).result with
    | .ok _ => faultsOfText pattern.toList = []
    | .error fault => fault ∈ faultsOfText pattern.toList := by
  have h := ends_sampleText stream hcalls position
  rw [generate]
  cases hrun : sampleText stream pattern.toList ⟨position, .empty⟩ with
  | ok s q => exact ends_of_eq_ok h hrun
  | error fault q => exact ends_of_eq_error h hrun

/-- Generating ends well exactly if the text has no possible faults. -/
lemma generate_isOk_iff (stream : WordStream) (position : Nat) {pattern : String}
    (hcalls : (Pattern.ofText pattern.toList).FailFree) :
    (generate stream position pattern).result.isOk ↔ faultsOfText pattern.toList = [] := by
  have h := generate_eq stream position hcalls
  cases hresult : (generate stream position pattern).result with
  | ok s =>
    rw [hresult] at h
    simpa [Except.isOk, Except.toBool] using h
  | error fault =>
    rw [hresult] at h
    simpa [Except.isOk, Except.toBool] using List.ne_nil_of_mem h

/-- **Acceptance does not depend on random words.** If a pattern calls no functions but those that
cannot fail, and text is generated from it for one stream, then text is generated from it for every
stream, from any position on. -/
theorem generate_isOk_of_isOk {pattern : String}
    (hcalls : (Pattern.ofText pattern.toList).FailFree) {stream stream' : WordStream}
    {position position' : Nat} (h : (generate stream position pattern).result.isOk) :
    (generate stream' position' pattern).result.isOk := by
  rw [generate_isOk_iff stream' position' hcalls]
  exact (generate_isOk_iff stream position hcalls).1 h

/-- A group that stands in one of two branches only can be referred to whichever is chosen. -/
theorem generate_isOk_reference :
    (generate (fun _ => 0xffffffff) 7 "(a|(b)){1,3}\\2$hex(x)").result.isOk := by
  have hcalls : (Pattern.ofText "(a|(b)){1,3}\\2$hex(x)".toList).FailFree := by
    cbv
    exact ⟨⟨.head _, trivial⟩, trivial⟩
  have hzero : (generate (fun _ => 0) 0 "(a|(b)){1,3}\\2$hex(x)").result.isOk := by cbv
  exact generate_isOk_of_isOk hcalls hzero

end PatternSampler
