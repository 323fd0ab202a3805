import PatternSampler.Proofs.CharSet.Members
import PatternSampler.Proofs.Faults.Sound
import PatternSampler.Proofs.Language.Tree

set_option autoImplicit false

/-!
# What patterns generate

The texts that a pattern without calls and references generates for all streams together are the
words of the language that it denotes as a regular expression.

## Main definitions

* `Run.Yields` — the results of an action spell the words of a language.
* `outputs` — the texts that a text as a pattern generates.

## Main results

* `Pattern.yields_samples` — a plain pattern yields the words of its tree.
* `denotesRow_iff_eq_outputs` — an accepted text generates the language that it denotes, and no
  other.
-/

namespace PatternSampler

open Run

namespace Run

variable {α β : Type}

/-- The action always ends well and spells a word of the language, and from any progress on it
spells each of its words for some stream. -/
structure Yields (a : WordStream → Run α) (spell : α → List Char) (L : Language Char) : Prop where
  isLocal : Local a
  sound : ∀ σ p, (a σ).Ends p (fun x _ => spell x ∈ L) fun _ _ => False
  complete : ∀ p, ∀ word ∈ L, Can a p fun x _ => spell x = word

namespace Yields

variable {a : WordStream → Run α} {f : WordStream → α → Run β} {spell : α → List Char}
  {spell' : β → List Char} {L M N : Language Char}

/-- An action without mistakes that always spells the same word. -/
lemma fixed {word : List Char} (ha : Local a)
    (hends : ∀ σ p, (a σ).Ends p (fun x _ => spell x = word) fun _ _ => False) :
    Yields a spell {word} where
  isLocal := ha
  sound := hends
  complete := by
    rintro p _ rfl
    exact can_of_ends fun σ => hends σ p

/-- An action that draws nothing spells one word. -/
protected lemma pure (x : α) : Yields (fun _ => pure x) spell {spell x} :=
  fixed (local_pure x) fun _ _ => rfl

/-- A probe spells nothing. -/
lemma probe (ha : Yields a spell L) : Yields (fun σ => Run.probe (a σ)) (fun _ => []) 1 := by
  apply fixed ha.isLocal.probe
  intro σ p
  rw [ends_probe]
  exact (ha.sound σ p).imp_left fun _ _ _ => rfl

/-- An action and one that follows it. What the second one spells depends on what the first one
has spelled. -/
lemma bind {K : List Char → Language Char} (ha : Yields a spell L)
    (hf : ∀ x, Yields (fun σ => f σ x) spell' (K (spell x)))
    (hN : ∀ word, word ∈ N ↔ ∃ front ∈ L, word ∈ K front) :
    Yields (fun σ => a σ >>= f σ) spell' N where
  isLocal := ha.isLocal.bind fun x => (hf x).isLocal
  sound := by
    intro σ p
    apply (ha.sound σ p).bind
    intro x q hx
    exact ((hf x).sound σ q).imp_left fun y _ hy => (hN _).2 ⟨_, hx, hy⟩
  complete := by
    intro p word hword
    obtain ⟨front, hfront, hword⟩ := (hN word).1 hword
    refine Can.bind ha.isLocal (fun x => (hf x).isLocal) ?_
    apply (ha.complete p front hfront).imp
    intro x q hx
    exact (hf x).complete q word (hx ▸ hword)

/-- An action behind which nothing more is spelled. -/
lemma bind_left (ha : Yields a spell L) (hf : ∀ x, Yields (fun σ => f σ x) spell' {spell x}) :
    Yields (fun σ => a σ >>= f σ) spell' L := by
  apply ha.bind (K := fun front => {front}) hf
  intro word
  show word ∈ L ↔ ∃ front ∈ L, word = front
  simp

/-- An action in front of which nothing is spelled. -/
lemma bind_right (ha : Yields a (fun _ => []) 1) (hf : ∀ x, Yields (fun σ => f σ x) spell' M) :
    Yields (fun σ => a σ >>= f σ) spell' M := by
  apply ha.bind (K := fun _ => M) hf
  intro word
  simp [Language.mem_one]

/-- A result is turned into another one that spells the same. -/
lemma map {g : α → β} (ha : Yields a spell L) (hg : ∀ x, spell' (g x) = spell x) :
    Yields (fun σ => do return g (← a σ)) spell' L :=
  ha.bind_left fun x => hg x ▸ .pure (g x)

/-- Two actions, and a result that spells both words one behind the other. -/
lemma mul {γ : Type} {b : WordStream → Run β} {g : α → β → γ} {spell'' : γ → List Char}
    (ha : Yields a spell L) (hb : Yields b spell' M)
    (hg : ∀ x y, spell'' (g x y) = spell x ++ spell' y) :
    Yields (fun σ => do
      let x ← a σ
      let y ← b σ
      return g x y) spell'' (L * M) := by
  refine ha.bind (K := fun front => {word | ∃ back ∈ M, front ++ back = word}) (fun x => ?_)
    fun word => Language.mem_mul
  apply hb.bind (K := fun back => {spell x ++ back}) (fun y => hg x y ▸ .pure (g x y))
  intro word
  show (∃ back ∈ M, spell x ++ back = word) ↔ ∃ back ∈ M, word = spell x ++ back
  simp only [eq_comm]

/-- An action behind a choice. -/
lemma choose {n : Nat} {f : WordStream → Fin n → Run β} (hn : n < sizeLimit) (hpos : 0 < n)
    {K : Fin n → Language Char} (hf : ∀ i, Yields (fun σ => f σ i) spell' (K i))
    (hN : ∀ word, word ∈ N ↔ ∃ i, word ∈ K i) :
    Yields (fun σ => Run.choose σ n hpos >>= f σ) spell' N where
  isLocal := (local_choose hpos).bind fun i => (hf i).isLocal
  sound := by
    intro σ p
    rw [ends_bind, ends_choose]
    exact ((hf _).sound σ _).imp_left fun _ _ hy => (hN _).2 ⟨_, hy⟩
  complete := by
    intro p word hword
    obtain ⟨i, hi⟩ := (hN word).1 hword
    refine Can.bind (local_choose hpos) (fun i => (hf i).isLocal) ?_
    exact can_choose hn i hpos fun position => (hf i).complete _ word hi

/-- An action several times over spells as many words. -/
lemma replay (ha : Yields a spell L) (count : Nat) :
    Yields (fun σ => Run.replay count (a σ)) (fun xs => xs.flatMap spell) (L ^ count) := by
  induction count with
  | zero => exact .pure []
  | succ count ih =>
    simp only [replay_succ]
    rw [pow_succ']
    exact ha.mul ih fun x xs => List.flatMap_cons

end Yields

end Run

/-! ## Repetition -/

/-- The characters of a sample. -/
def Sample.characters (s : Sample) : List Char := s.text.toList

/-- The characters of samples one after the other. -/
lemma Sample.characters_join (samples : List Sample) :
    (Sample.join samples).characters = samples.flatMap Sample.characters := by
  rw [Sample.join, Sample.characters, String.toList_join, List.flatMap_map]
  rfl

/-- What several repeat counts add behind the first instance of a construct. -/
def addedWords : List RepeatCount → Language Char → Language Char
  | [], _ => 1
  | count :: later, L =>
    {word | ∃ n, count.low ≤ n ∧ n ≤ count.high ∧
      word ∈ L ^ (n - 1) * addedWords later (count.language L)}

/-- The first instance and what the counts add make up the whole repetition. -/
lemma mul_addedWords {counts : List RepeatCount} (h : ∀ count ∈ counts, count.Valid)
    (L : Language Char) : L * addedWords counts L = repeatedBy counts L := by
  induction counts generalizing L with
  | nil => exact mul_one L
  | cons count later ih =>
    obtain ⟨hcount, hlater⟩ := List.forall_mem_cons.1 h
    have hpow : ∀ n, count.low ≤ n → L * L ^ (n - 1) = L ^ n := by
      intro n hn
      have := hcount.low_pos
      rw [← pow_succ', Nat.sub_add_cancel (by omega)]
    calc L * addedWords (count :: later) L
        = count.language L * addedWords later (count.language L) := by
          ext word
          simp only [Language.mem_mul]
          constructor
          · rintro ⟨x, hx, y, ⟨n, hlow, hhigh, hy⟩, rfl⟩
            obtain ⟨u, hu, v, hv, rfl⟩ := Language.mem_mul.1 hy
            refine ⟨x ++ u, ⟨n, hlow, hhigh, ?_⟩, v, hv, List.append_assoc _ _ _⟩
            rw [← hpow n hlow]
            exact Language.mem_mul.2 ⟨x, hx, u, hu, rfl⟩
          · rintro ⟨w, ⟨n, hlow, hhigh, hw⟩, v, hv, rfl⟩
            rw [← hpow n hlow] at hw
            obtain ⟨x, hx, u, hu, rfl⟩ := Language.mem_mul.1 hw
            refine ⟨x, hx, u ++ v, ⟨n, hlow, hhigh, ?_⟩, (List.append_assoc _ _ _).symm⟩
            exact Language.mem_mul.2 ⟨u, hu, v, hv, rfl⟩
      _ = repeatedBy later (count.language L) := ih hlater _

section Repetition

variable {β : Type} {spell : β → List Char}

/-- An action behind the draw of a repeat count. -/
lemma yields_draw {count : RepeatCount} (hvalid : count.Valid) {f : WordStream → Nat → Run β}
    {K : Nat → Language Char} {N : Language Char} (hf : ∀ n, Yields (fun σ => f σ n) spell (K n))
    (hN : ∀ word, word ∈ N ↔ ∃ n, count.low ≤ n ∧ n ≤ count.high ∧ word ∈ K n) :
    Yields (fun σ => count.draw σ >>= f σ) spell N := by
  obtain ⟨-, hle, hhigh⟩ := hvalid
  cases count with
  | exactly n =>
    have hNK : N = K n := by
      ext word
      rw [hN]
      constructor
      · rintro ⟨m, hlow, hhigh, hword⟩
        obtain rfl : m = n := Nat.le_antisymm hhigh hlow
        exact hword
      · exact fun hword => ⟨n, Nat.le_refl n, Nat.le_refl n, hword⟩
    simp only [RepeatCount.draw, pure_bind, hNK]
    exact hf n
  | between low high =>
    simp only [RepeatCount.low, RepeatCount.high] at hle hhigh hN
    simp only [RepeatCount.draw, bind_assoc, pure_bind]
    have hlimit : high - low + 1 < sizeLimit := by
      have : maxRepeat + 1 < sizeLimit := by decide
      omega
    refine .choose hlimit (Nat.succ_pos _) (fun i => hf (low + i)) fun word => ?_
    rw [hN]
    constructor
    · rintro ⟨n, hlow, hn, hword⟩
      refine ⟨⟨n - low, by omega⟩, ?_⟩
      show word ∈ K (low + (n - low))
      rwa [Nat.add_sub_cancel' hlow]
    · rintro ⟨i, hword⟩
      have := i.isLt
      exact ⟨low + i, by omega, by omega, hword⟩

variable {action : WordStream → Run Sample} {L : Language Char}

/-- A construct with a repeat count yields as many of its words as the count allows. -/
lemma yields_repeated {count : RepeatCount} (hvalid : count.Valid)
    (h : Yields action Sample.characters L) :
    Yields (fun σ => repeated σ count (action σ)) Sample.characters (count.language L) :=
  yields_draw hvalid (fun n => (h.replay n).map Sample.characters_join) fun _ => Iff.rfl

/-- The instances that repeat counts add spell what the counts add to the first word. -/
lemma yields_extras {counts : List RepeatCount} (hvalid : ∀ count ∈ counts, count.Valid)
    (h : Yields action Sample.characters L) :
    Yields (fun σ => extras σ counts (action σ)) (fun added => added.flatMap Sample.characters)
      (addedWords counts L) := by
  induction counts generalizing action L with
  | nil => exact .pure []
  | cons count later ih =>
    obtain ⟨hcount, hlater⟩ := List.forall_mem_cons.1 hvalid
    refine yields_draw hcount (fun n => ?_) fun _ => Iff.rfl
    apply (h.replay (n - 1)).mul (ih hlater (yields_repeated hcount h))
    intro samples more
    rw [List.flatMap_cons, Sample.characters_join]

/-- A construct that is prepared for nothing but itself, with its repetitions. -/
lemma Construct.yields_instances {c : Construct} {counts : List RepeatCount}
    (hprepare : ∀ σ, c.prepare σ = pure (action σ)) (hvalid : ∀ count ∈ counts, count.Valid)
    (h : Yields action Sample.characters L) :
    Yields (fun σ => c.instances σ counts) (fun samples => samples.flatMap Sample.characters)
      (repeatedBy counts L) := by
  simp only [Construct.instances, hprepare, pure_bind, ← mul_addedWords hvalid]
  exact h.mul (yields_extras hvalid h) fun _ _ => List.flatMap_cons

end Repetition

/-! ## Trees -/

/-- A sample of a set yields its members. -/
lemma yields_charSet_sample (set : CharSet) :
    Yields (fun σ => set.sample σ) Sample.characters set.language := by
  unfold CharSet.sample
  by_cases hsize : 0 < set.size
  · have hempty : ¬set.isEmpty = true := by
      rw [CharSet.isEmpty_iff]
      omega
    have hlimit : set.size < sizeLimit := Nat.lt_of_le_of_lt set.size_le (by decide)
    simp only [dif_pos hsize]
    refine .choose hlimit hsize (K := fun i => {[set.get i]}) (fun i => ?_) fun word => ?_
    · have hcharacters : Sample.characters ⟨(set.get i).toString, .choice set.size⟩ =
          [set.get i] := by simp [Sample.characters]
      exact hcharacters ▸ .pure _
    · constructor
      · rintro (⟨hnone, -⟩ | ⟨c, hc, rfl⟩)
        · exact absurd hnone hempty
        · obtain ⟨i, rfl⟩ := CharSet.contains_iff.1 hc
          exact ⟨i, rfl⟩
      · rintro ⟨i, hword⟩
        exact .inr ⟨set.get i, CharSet.contains_iff.2 ⟨i, rfl⟩, hword⟩
  · have hempty : set.isEmpty = true := CharSet.isEmpty_iff.2 (by omega)
    have hlanguage : set.language = {(Sample.fixed "").characters} := by
      ext word
      constructor
      · rintro (⟨-, rfl⟩ | ⟨c, hc, -⟩)
        · rfl
        · obtain ⟨i, -⟩ := CharSet.contains_iff.1 hc
          exact absurd (Nat.lt_of_le_of_lt (Nat.zero_le _) i.isLt) hsize
      · exact fun hword => .inl ⟨hempty, hword⟩
    simp only [dif_neg hsize, hlanguage]
    exact .pure _

/-- The words of the branch at a place, or of the last branch behind all places. -/
def Branches.chosenLanguage : Branches → (choice : Nat) → Language Char
  | .one _ _ body, _ => body.language
  | .more _ _ body _, 0 => body.language
  | .more _ _ _ rest, choice + 1 => rest.chosenLanguage choice

/-- A word of several branches is a word of the branch that is chosen for it. -/
lemma Branches.mem_language {word : List Char} {branches : Branches} :
    word ∈ branches.language ↔
      ∃ choice : Fin branches.length, word ∈ branches.chosenLanguage choice := by
  fun_induction Branches.length branches with
  | case1 before count body =>
    simp only [Branches.language, Branches.chosenLanguage]
    constructor
    · exact fun h => ⟨⟨0, Nat.one_pos⟩, h⟩
    · rintro ⟨_, h⟩
      exact h
  | case2 before count body rest ih =>
    simp only [Branches.language, Language.mem_add, ih]
    constructor
    · rintro (h | ⟨choice, h⟩)
      · exact ⟨⟨0, Nat.succ_pos _⟩, h⟩
      · exact ⟨⟨choice + 1, Nat.succ_lt_succ choice.isLt⟩, h⟩
    · rintro ⟨⟨_ | choice, hchoice⟩, h⟩
      · exact .inl h
      · exact .inr ⟨⟨choice, Nat.lt_of_succ_lt_succ hchoice⟩, h⟩

mutual

/-- **A plain pattern yields its words**: the texts that it generates for all streams are the words
of its tree.

**Proof sketch.** By induction over the tree. The branches that are not chosen take words from the
stream, but they never fail, and nothing of them is spelled. -/
theorem Pattern.yields_samples : ∀ {t : Pattern}, t.Plain → t.Drawable →
    Yields (fun σ => t.samples σ) (fun samples => samples.flatMap Sample.characters) t.language
  | .done, _, _ => by
    simp only [Pattern.samples, Pattern.language]
    exact .pure []
  | .seq head counts rest, ⟨hhead, hrest⟩, ⟨hdrawHead, hvalid, hdrawRest⟩ => by
    obtain ⟨action, hprepare, hyields⟩ := Construct.yields_prepare hhead hdrawHead
    simp only [Pattern.samples_seq, Pattern.language]
    exact (Construct.yields_instances hprepare hvalid hyields).mul
      (Pattern.yields_samples hrest hdrawRest) fun _ _ => List.flatMap_append

/-- Preparing a plain construct does not depend on the stream, and the action it yields spells the
words of the construct. -/
lemma Construct.yields_prepare : ∀ {c : Construct}, c.Plain → c.Drawable →
    ∃ action, (∀ σ, c.prepare σ = pure (action σ)) ∧
      Yields action Sample.characters c.language
  | .character c, _, _ => by
    refine ⟨fun _ => pure (.fixed c.toString), fun σ => by rw [Construct.prepare], ?_⟩
    have hcharacters : (Sample.fixed c.toString).characters = [c] := by
      simp [Sample.fixed, Sample.characters]
    rw [Construct.language, ← hcharacters]
    exact .pure _
  | .oneOf set, _, _ => by
    refine ⟨fun σ => set.sample σ, fun σ => by rw [Construct.prepare], ?_⟩
    rw [Construct.language]
    exact yields_charSet_sample set
  | .group number body, hplain, hdraw => by
    refine ⟨fun σ => do
      let s := .join (← body.samples σ)
      record number s.text
      return s, fun σ => by rw [Construct.prepare], ?_⟩
    rw [Construct.language]
    apply (Pattern.yields_samples hplain hdraw).bind_left
    intro samples
    refine .fixed ((local_record number _).bind fun _ => local_pure _) fun σ p => ?_
    simp only [ends_bind, ends_record, ends_pure]
    exact Sample.characters_join samples
  | .alternation number branches, hplain, ⟨hlength, hdraw⟩ => by
    refine ⟨fun σ => choose σ branches.length branches.length_pos >>= branches.runChoice σ number,
      fun σ => Construct.prepare_alternation σ number branches, ?_⟩
    rw [Construct.language]
    refine .choose hlength branches.length_pos (fun choice => ?_) fun word =>
      Branches.mem_language
    simp only [Branches.runChoice]
    apply (Branches.yields_probeOthers hplain hdraw choice 0).bind_right
    intro others
    apply (Branches.yields_chosen hplain hdraw choice).bind_left
    intro s
    refine .fixed ((local_modify _).bind fun _ => (local_record number _).bind fun _ =>
      local_pure _) fun σ p => ?_
    simp only [ends_bind, ends_modify, ends_record, ends_pure]
    rfl

/-- Probing the branches that are not chosen adds nothing to the words. -/
lemma Branches.yields_probeOthers : ∀ {branches : Branches}, branches.Plain → branches.Drawable →
    ∀ choice place : Nat,
      Yields (fun σ => branches.probeOthers σ choice place) (fun _ => []) 1
  | .one _ _ body, hplain, hdraw, choice, place => by
    simp only [Branches.probeOthers]
    by_cases hchoice : place = choice
    · simp only [if_pos hchoice]
      exact .pure []
    · simp only [if_neg hchoice]
      exact (Pattern.yields_samples hplain hdraw).probe.map fun _ => rfl
  | .more _ _ body rest, ⟨hplain, hplainRest⟩, ⟨hdraw, hdrawRest⟩, choice, place => by
    have hrest := Branches.yields_probeOthers hplainRest hdrawRest choice (place + 1)
    simp only [Branches.probeOthers]
    by_cases hchoice : place = choice
    · simp only [if_pos hchoice]
      exact hrest
    · simp only [if_neg hchoice]
      exact (Pattern.yields_samples hplain hdraw).probe.bind_right fun _ =>
        hrest.map fun _ => rfl

/-- The chosen branch yields its own words. -/
lemma Branches.yields_chosen : ∀ {branches : Branches}, branches.Plain → branches.Drawable →
    ∀ choice : Nat, Yields (fun σ => branches.chosen σ choice) Sample.characters
      (branches.chosenLanguage choice)
  | .one _ _ body, hplain, hdraw, _ => by
    simp only [Branches.chosen, Branches.chosenLanguage]
    exact (Pattern.yields_samples hplain hdraw).map Sample.characters_join
  | .more _ _ body _, ⟨hplain, _⟩, ⟨hdraw, _⟩, 0 => by
    simp only [Branches.chosen, Branches.chosenLanguage]
    exact (Pattern.yields_samples hplain hdraw).map Sample.characters_join
  | .more _ _ _ rest, ⟨_, hplain⟩, ⟨_, hdraw⟩, choice + 1 => by
    simp only [Branches.chosen, Branches.chosenLanguage]
    exact Branches.yields_chosen hplain hdraw choice

end

/-! ## Whole texts -/

/-- The texts that a text as a pattern generates, in front of which no group has a text, for all
streams from a position on. -/
def outputs (text : List Char) (position : Nat) : Language Char :=
  {word | ∃ (stream : WordStream) (samples : List Sample) (progress : Progress),
    (Pattern.ofText text).samples stream ⟨position, .empty⟩ = .ok samples progress ∧
      (Sample.join samples).text.toList = word}

/-- The outputs of a text whose tree is plain are the words of the tree. -/
lemma outputs_eq_language {text : List Char} (hlimit : text.length < sizeLimit)
    (hplain : (Pattern.ofText text).Plain) (position : Nat) :
    outputs text position = (Pattern.ofText text).language := by
  have hyields := Pattern.yields_samples hplain (Pattern.drawable_ofSlice 0 (.whole text) hlimit)
  ext word
  constructor
  · rintro ⟨stream, samples, progress, hrun, rfl⟩
    have hword := ends_of_eq_ok (hyields.sound stream ⟨position, .empty⟩) hrun
    rwa [← Sample.characters_join] at hword
  · intro hword
    obtain ⟨stream, samples, progress, hrun, hspell⟩ :=
      hyields.complete ⟨position, .empty⟩ word hword
    rw [← Sample.characters_join] at hspell
    exact ⟨stream, samples, progress, hrun, hspell⟩

/-- **Generated languages**: if a text without calls and references is accepted for some stream,
then it denotes exactly one language as a regular expression, and this is the language of the
texts that it generates for all streams. -/
theorem denotesRow_iff_eq_outputs {text : List Char} (hlimit : text.length < sizeLimit)
    (hregular : (Pattern.ofText text).Regular) {stream : WordStream} {start : Nat}
    {samples : List Sample} {progress : Progress}
    (haccepted : (Pattern.ofText text).samples stream ⟨start, .empty⟩ = .ok samples progress)
    (position : Nat) (L : Language Char) :
    DenotesRow false text L ↔ L = outputs text position := by
  have hends := Pattern.ends_samples stream hregular.callFree.failFree
    (Pattern.numbered_ofSlice 0 (.whole text)) (p := ⟨start, .empty⟩) GroupTable.knows_empty
  have hplain : (Pattern.ofText text).Plain := hregular.plain (ends_of_eq_ok hends haccepted).1
  have hdenotes : DenotesRow false text (Pattern.ofText text).language :=
    Pattern.denotesRow_ofSlice 0 (.whole text) false hplain (by simp)
  rw [outputs_eq_language hlimit hplain]
  constructor
  · intro hL
    exact (DenotesRow.unique hL hdenotes (endsRow_nil false) (endsRow_nil false) rfl).2
  · rintro rfl
    exact hdenotes

/-- Two branches generate the words of both. -/
theorem outputs_two_branches : outputs "(a|b)".toList 0 = {['a']} + {['b']} := by
  have hletter : ∀ c, isStructural c = false → c ≠ '|' → DenotesRow true [c] {[c]} := by
    intro c hc hbar
    have hrow := DenotesRow.cons (.literal hc fun _ => hbar) .nil (.nil true)
    rwa [show repeatedBy [] {[c]} * 1 = {[c]} from mul_one _] at hrow
  have hdenotes : DenotesRow false "(a|b)".toList ({['a']} + {['b']}) := by
    have hgroup := DenotesRow.cons (.group (.more (hletter 'a' rfl (by decide))
      (.one (hletter 'b' rfl (by decide))))) .nil (.nil false)
    rwa [show repeatedBy [] ({['a']} + {['b']}) * 1 = {['a']} + {['b']} from mul_one _] at hgroup
  have hregular : (Pattern.ofText "(a|b)".toList).Regular := by
    cbv
  have haccepted : (Pattern.ofText "(a|b)".toList).samples (fun _ => 0) ⟨0, .empty⟩ =
      .ok [⟨"a", .sum [.choice 2, .least (.sum [.zero]) [.sum [.zero]]]⟩] ⟨1, ⟨[(1, "a")]⟩⟩ := by
    cbv
  exact ((denotesRow_iff_eq_outputs (by decide) hregular haccepted 0 _).1 hdenotes).symm

end PatternSampler
