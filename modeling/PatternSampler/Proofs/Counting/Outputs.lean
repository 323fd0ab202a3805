import PatternSampler.Proofs.Counting.Legible

set_option autoImplicit false

/-!
# How many texts a pattern generates

The entropy of a sample is compared with the number of texts that its pattern generates for all
streams together.

## Main definitions

* `drawsOf` — the sequences of draws that a text is generated with.

## Main results

* `ncard_outputs_eq` — without calls and alternations there are exactly as many texts as the entropy
  says, each with draws of its own.
* `two_rpow_exact_le_ncard` — with alternations there are at least as many sequences of draws.
-/

namespace PatternSampler

open Run Traced

/-- The sequences of draws outside probes with which a text as a pattern generates a word. -/
def drawsOf (text : List Char) (position : Nat) (word : List Char) : Set (List Draw) :=
  {path | ∃ (stream : WordStream) (samples : List Sample) (progress : Progress),
    (Pattern.ofText text).samples stream ⟨position, .empty⟩ = .ok samples progress ∧
      (Sample.join samples).text.toList = word ∧ draws (history stream position text) = path}

/-- A finite set is at most as many times larger than its image as there are elements for one. -/
lemma ncard_le_mul_ncard_image {α β : Type} {f : α → β} {S : Set α} (hS : S.Finite) {m : Nat}
    (hm : ∀ x ∈ S, Set.ncard {y | y ∈ S ∧ f y = f x} ≤ m) :
    S.ncard ≤ m * (Set.image f S).ncard := by
  classical
  lift S to Finset α using hS
  rw [← Finset.coe_image, Set.ncard_coe_finset, Set.ncard_coe_finset]
  refine Finset.card_le_mul_card_image S m fun y hy => ?_
  obtain ⟨x, hx, rfl⟩ := Finset.mem_image.1 hy
  rw [← Set.ncard_coe_finset, Finset.coe_filter]
  exact hm x hx

section Accepted

variable {pattern : String} {stream : WordStream} {position : Nat} {s : Sample}

/-- An accepted text is not too long, and its tree yields samples. -/
lemma exists_samples_of_generate (h : (generate stream position pattern).result = .ok s) :
    pattern.toList.length ≤ maxPatternLength ∧ ∃ samples q,
      (Pattern.ofText pattern.toList).samples stream ⟨position, .empty⟩ = .ok samples q := by
  obtain ⟨q, hrun⟩ := generate_eq_ok h
  unfold sampleText at hrun
  split at hrun
  · cases hrun
  · rename_i hlength
    simp only [bind, EStateM.bind] at hrun
    split at hrun
    · exact ⟨by omega, _, _, ‹_›⟩
    · cases hrun

/-- An accepted text without calls never fails. -/
lemma endsWell_traced (hcalls : (Pattern.ofText pattern.toList).CallFree)
    (h : (generate stream position pattern).result = .ok s) (start : Nat) (σ : WordStream) :
    ((Pattern.ofText pattern.toList).traced σ).EndsWell ⟨start, .empty⟩ := by
  have haccepted : (generate σ start pattern).result.isOk := by
    rw [generate_isOk_iff σ start hcalls.failFree,
      ← generate_isOk_iff stream position hcalls.failFree, h]
    rfl
  cases hresult : (generate σ start pattern).result with
  | error fault =>
    rw [hresult] at haccepted
    cases haccepted
  | ok s' =>
    obtain ⟨-, samples, q, hsamples⟩ := exists_samples_of_generate hresult
    exact ⟨samples, q, (Pattern.snd_traced σ _ _).trans hsamples⟩

/-- The entropy of an accepted text is its measure, if the bounds of each count are the same. -/
lemma exact_eq_measure (hcalls : (Pattern.ofText pattern.toList).CallFree)
    (hfixed : (Pattern.ofText pattern.toList).CountsIn fun count => count.low = count.high)
    (h : (generate stream position pattern).result = .ok s) :
    s.entropy.exact = (Pattern.ofText pattern.toList).measure RepeatCount.low := by
  obtain ⟨hlow, hhigh⟩ := exact_between_measures hcalls.plainNumbers h
  rw [← Pattern.measure_congr hfixed] at hhigh
  exact le_antisymm hhigh hlow

/-- A word and its draws are told by what is seen of them. -/
lemma eq_of_look {β : Type} {V : View β} {text : List Char}
    (hcalls : (Pattern.ofText text).CallFree)
    (hfixed : (Pattern.ofText text).CountsIn fun count => count.low = count.high)
    (hV : V.ShowsChoices ∨ (Pattern.ofText text).Straight) {start : Nat} {word word' : List Char}
    {path path' : List Draw} (hpath : path ∈ drawsOf text start word)
    (hpath' : path' ∈ drawsOf text start word') (hlook : V.look path word = V.look path' word') :
    path = path' ∧ word = word' := by
  obtain ⟨σ, samples, q, hrun, rfl, rfl⟩ := hpath
  obtain ⟨σ', samples', q', hrun', rfl, rfl⟩ := hpath'
  have hspell : ∀ samples : List Sample,
      (Sample.join samples).text.toList = samples.flatMap Sample.characters :=
    Sample.characters_join
  simp only [hspell] at hlook ⊢
  obtain ⟨hdraws, hword, -⟩ := Pattern.legible_traced hcalls hfixed hV _ _ _ _ _ _ rfl
    ((Pattern.snd_traced σ _ _).trans hrun) ((Pattern.snd_traced σ' _ _).trans hrun') [] []
    (by simpa only [history, List.append_nil] using hlook)
  exact ⟨hdraws, hword⟩

/-- The draws of an accepted text tell its words, and they are the paths of its tree. -/
lemma exists_text_of_draws (hcalls : (Pattern.ofText pattern.toList).CallFree)
    (hfixed : (Pattern.ofText pattern.toList).CountsIn fun count => count.low = count.high)
    (h : (generate stream position pattern).result = .ok s) (start : Nat) :
    ∃ f : List Draw → List Char,
      outputs pattern.toList start = Set.image f (Pattern.ofText pattern.toList).paths ∧
        ∀ word, drawsOf pattern.toList start word =
          {path | path ∈ (Pattern.ofText pattern.toList).paths ∧ f path = word} := by
  have hlimit : pattern.toList.length < sizeLimit :=
    Nat.lt_of_le_of_lt (exists_samples_of_generate h).1 (by decide)
  have htakes := Pattern.takes_traced hcalls (Pattern.drawable_ofSlice 0 (.whole _) hlimit) hfixed
  have hpaths : ∀ word, ∀ path ∈ drawsOf pattern.toList start word,
      path ∈ (Pattern.ofText pattern.toList).paths := by
    rintro word _ ⟨σ, samples, q, hrun, -, rfl⟩
    exact (htakes.sound σ _ samples q ((Pattern.snd_traced σ _ _).trans hrun)).1
  have hword : ∀ path ∈ (Pattern.ofText pattern.toList).paths,
      ∃ word, path ∈ drawsOf pattern.toList start word := by
    intro path hpath
    obtain ⟨σ, samples, q, hrun, hdraws⟩ :=
      htakes.complete _ (endsWell_traced hcalls h start) path hpath
    exact ⟨_, σ, samples, q, (Pattern.snd_traced σ _ _).symm.trans hrun, rfl, hdraws⟩
  choose! f hf using hword
  have hsame : ∀ word, ∀ path ∈ drawsOf pattern.toList start word, f path = word :=
    fun word path hpath => (eq_of_look hcalls hfixed (.inl View.showsChoices_draws)
      (hf path (hpaths word path hpath)) hpath rfl).2
  refine ⟨f, ?_, fun word => ?_⟩
  · ext word
    constructor
    · rintro ⟨σ, samples, q, hrun, hspell⟩
      have hpath : draws (history σ start pattern.toList) ∈ drawsOf pattern.toList start word :=
        ⟨σ, samples, q, hrun, hspell, rfl⟩
      exact ⟨_, hpaths word _ hpath, hsame word _ hpath⟩
    · rintro ⟨path, hpath, rfl⟩
      obtain ⟨σ, samples, q, hrun, hspell, -⟩ := hf path hpath
      exact ⟨σ, samples, q, hrun, hspell⟩
  · ext path
    constructor
    · exact fun hpath => ⟨hpaths word path hpath, hsame word path hpath⟩
    · rintro ⟨hpath, rfl⟩
      exact hf path hpath

/-- **The entropy counts the outputs**: for an accepted text without calls and alternations, where
the bounds of each count are the same, there are exactly as many outputs as its entropy says. Each
of them is generated with one sequence of draws only.

**Proof sketch.** The draws of a run decide its text, and the text decides the draws, since each
draw of a member leaves a character of its own at a place that only earlier draws decide. So there
are as many texts as paths, and the number of paths is the measure of the tree. -/
theorem ncard_outputs_eq (hstraight : (Pattern.ofText pattern.toList).Straight)
    (hfixed : (Pattern.ofText pattern.toList).CountsIn fun count => count.low = count.high)
    (h : (generate stream position pattern).result = .ok s) (start : Nat) :
    (Set.ncard (outputs pattern.toList start) : ℝ) = 2 ^ s.entropy.exact ∧
      ∀ word ∈ outputs pattern.toList start, ∃! path, path ∈ drawsOf pattern.toList start word := by
  have hcalls := hstraight.callFree
  obtain ⟨f, houtputs, hdraws⟩ := exists_text_of_draws hcalls hfixed h start
  have htext : ∀ {path}, path ∈ (Pattern.ofText pattern.toList).paths →
      path ∈ drawsOf pattern.toList start (f path) := fun hpath => by
    rw [hdraws]
    exact ⟨hpath, rfl⟩
  have hinj : Set.InjOn f (Pattern.ofText pattern.toList).paths := by
    intro path hpath path' hpath' heq
    exact (eq_of_look hcalls hfixed (V := .text) (.inr hstraight) (htext hpath) (htext hpath')
      heq).1
  have hweighs := Pattern.weighs_paths hcalls (Pattern.countsIn_ofSlice 0 (.whole pattern.toList))
  refine ⟨?_, ?_⟩
  · rw [exact_eq_measure hcalls hfixed h, houtputs, hinj.ncard_image]
    exact hweighs.ncard_eq hstraight
  · intro word hword
    rw [houtputs] at hword
    obtain ⟨path, hpath, rfl⟩ := hword
    refine ⟨path, htext hpath, fun path' hpath' => ?_⟩
    rw [hdraws] at hpath'
    exact hinj hpath'.1 hpath hpath'.2

/-- A group with a digit, which is repeated and referred to, has as many outputs as there are pairs
of digits. -/
theorem ncard_outputs_two_digits :
    Set.ncard (outputs "(x\\d{1,1}){2}\\1".toList 0) = 100 ∧
      ∀ word ∈ outputs "(x\\d{1,1}){2}\\1".toList 0,
        ∃! path, path ∈ drawsOf "(x\\d{1,1}){2}\\1".toList 0 word := by
  have hstraight : (Pattern.ofText "(x\\d{1,1}){2}\\1".toList).Straight := by
    cbv
  have hfixed : (Pattern.ofText "(x\\d{1,1}){2}\\1".toList).CountsIn
      fun count => count.low = count.high := by
    cbv
    exact ⟨⟨List.forall_mem_nil _, List.forall_mem_singleton.2 rfl, trivial⟩,
      List.forall_mem_singleton.2 rfl, List.forall_mem_nil _, trivial⟩
  have hrun : (generate (fun _ => 0) 0 "(x\\d{1,1}){2}\\1").result =
      .ok ⟨"x0x0x0", .sum [.sum [.zero, .choice 10, .zero],
        .sum [.sum [.zero, .choice 10, .zero]], .zero]⟩ := by
    cbv
  obtain ⟨hncard, hunique⟩ := ncard_outputs_eq hstraight hfixed hrun 0
  refine ⟨?_, hunique⟩
  simp only [Entropy.exact, Entropy.exactSum, Entropy.exact_zero, zero_add, add_zero,
    Real.rpow_add two_pos, Entropy.two_rpow_choiceBits (Nat.succ_pos 9)] at hncard
  exact_mod_cast hncard

/-- **The entropy bounds the draws**: for an accepted text without calls, where the bounds of each
count are the same, there are at least as many sequences of draws as its entropy says. If no output
is generated with more than `m` of them, `m` times as many outputs are enough.

**Proof sketch.** The sequences of draws are the paths of the tree. An alternation has the paths of
all its branches, and each branch has at least as many as the branch with the fewest bits. Equal
texts of different branches are not told apart, so that the outputs may be fewer. -/
theorem two_rpow_exact_le_ncard (hcalls : (Pattern.ofText pattern.toList).CallFree)
    (hfixed : (Pattern.ofText pattern.toList).CountsIn fun count => count.low = count.high)
    (h : (generate stream position pattern).result = .ok s) (start : Nat) :
    (2 : ℝ) ^ s.entropy.exact ≤
        Set.ncard {path | ∃ word, path ∈ drawsOf pattern.toList start word} ∧
      ∀ m : Nat, (∀ word ∈ outputs pattern.toList start,
          Set.ncard (drawsOf pattern.toList start word) ≤ m) →
        (2 : ℝ) ^ s.entropy.exact ≤ m * Set.ncard (outputs pattern.toList start) := by
  obtain ⟨f, houtputs, hdraws⟩ := exists_text_of_draws hcalls hfixed h start
  have hall : {path | ∃ word, path ∈ drawsOf pattern.toList start word} =
      (Pattern.ofText pattern.toList).paths := by
    ext path
    simp only [hdraws]
    exact ⟨fun ⟨_, hpath, _⟩ => hpath, fun hpath => ⟨_, hpath, rfl⟩⟩
  have hweighs := Pattern.weighs_paths hcalls (Pattern.countsIn_ofSlice 0 (.whole pattern.toList))
  have hle : (2 : ℝ) ^ s.entropy.exact ≤ Set.ncard (Pattern.ofText pattern.toList).paths := by
    rw [exact_eq_measure hcalls hfixed h]
    exact hweighs.le_ncard
  refine ⟨hall ▸ hle, fun m hm => hle.trans ?_⟩
  rw [houtputs] at hm ⊢
  exact_mod_cast ncard_le_mul_ncard_image hweighs.finite fun path hpath =>
    hdraws (f path) ▸ hm _ (Set.mem_image_of_mem f hpath)

/-- Equal branches have two sequences of draws, as their entropy says, but only one output. -/
theorem two_rpow_exact_le_ncard_of_equal_branches :
    ∃ s, (generate (fun _ => 0) 0 "(a|a)").result = .ok s ∧ (2 : ℝ) ^ s.entropy.exact = 2 ∧
      outputs "(a|a)".toList 0 = {['a']} ∧
        2 ≤ Set.ncard (drawsOf "(a|a)".toList 0 ['a']) := by
  have hrun : (generate (fun _ => 0) 0 "(a|a)").result =
      .ok ⟨"a", .sum [.sum [.choice 2, .least (.sum [.zero]) [.sum [.zero]]]]⟩ := by
    cbv
  have hcalls : (Pattern.ofText "(a|a)".toList).CallFree := by
    cbv
  have hfixed : (Pattern.ofText "(a|a)".toList).CountsIn fun count => count.low = count.high := by
    cbv
    exact ⟨⟨⟨List.forall_mem_nil _, trivial⟩, List.forall_mem_nil _, trivial⟩,
      List.forall_mem_nil _, trivial⟩
  have htree : Pattern.ofText "(a|a)".toList = .seq (.alternation 1
      (.more 1 0 (.seq (.character 'a') [] .done) (.one 1 0 (.seq (.character 'a') [] .done))))
      [] .done := by
    cbv
  have houtputs : outputs "(a|a)".toList 0 = {['a']} := by
    have hplain : (Pattern.ofText "(a|a)".toList).Plain := by
      cbv
    have hrow : ∀ L : Language Char, repeatedBy [] L * 1 = L := fun L => mul_one L
    rw [outputs_eq_language (by decide) hplain, htree]
    simp only [Pattern.language, Construct.language, Branches.language, hrow, add_idem]
  have hbits : (2 : ℝ) ^ Entropy.exact
      (.sum [.sum [.choice 2, .least (.sum [.zero]) [.sum [.zero]]]]) = 2 := by
    simp only [Entropy.exact, Entropy.exactSum, Entropy.exactLeast, Entropy.exact_zero, add_zero,
      min_self]
    exact Entropy.two_rpow_choiceBits two_pos
  refine ⟨_, hrun, hbits, houtputs, ?_⟩
  have hall : ∀ word ∈ outputs "(a|a)".toList 0, Set.ncard (drawsOf "(a|a)".toList 0 word) ≤
      Set.ncard (drawsOf "(a|a)".toList 0 ['a']) := by
    rw [houtputs]
    rintro _ rfl
    exact le_rfl
  have hle := (two_rpow_exact_le_ncard hcalls hfixed hrun 0).2 _ hall
  have hone : Set.ncard ({['a']} : Language Char) = 1 := Set.ncard_singleton _
  rw [hbits, houtputs, hone, Nat.cast_one, mul_one] at hle
  exact_mod_cast hle

end Accepted

end PatternSampler
