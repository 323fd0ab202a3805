import PatternSampler.Proofs.Entropy.Exact
import PatternSampler.Proofs.Entropy.Metered

set_option autoImplicit false

/-!
# Entropy is paid for by draws

The entropy of a sample is never larger than the draws allow that led to its text. Each action has
to pay for the bits of its result with the values of its own draws.

## Main definitions

* `Metered.Pays` — the draws of an action have enough values for the bits of its result.

## Main results

* `Metered.Pays.bind` — what follows an action only pays for the bits that are left.
* `Pattern.pays_metered` — a run of a pattern pays for the entropy of its samples.
* `two_rpow_exact_le_draws` — the same for texts.

## Implementation notes

An alternation pays for the choice by a draw, and for the least of its branches by the draws of the
branch that is chosen. The entropy of an argument that must not be random is not part of any result,
so its draws are given away.
-/

namespace PatternSampler

open Run

namespace Metered

variable {α β : Type} {P P' : α → Prop} {bits bits' : α → ℝ} {m : Metered α}

/-- Where the action ends well, its result satisfies `P`, and the draws have enough values for the
bits of the result. -/
def Pays (m : Metered α) (P : α → Prop) (bits : α → ℝ) : Prop :=
  m.run.Keeps (fun _ => True)
    (fun r => P r.1 ∧ 0 < r.2.prod ∧ bits r.1 ≤ Entropy.choiceBits r.2.prod) fun _ => True

/-- Less can be paid for, too. -/
lemma Pays.imp (hm : m.Pays P bits) (h : ∀ x, P x → P' x ∧ bits' x ≤ bits x) : m.Pays P' bits' :=
  Keeps.imp hm fun r hr => ⟨(h r.1 hr.1).1, hr.2.1, (h r.1 hr.1).2.trans hr.2.2⟩

/-- Without a draw nothing is paid for. -/
lemma pays_pure {x : α} (hP : P x) (hbits : bits x ≤ 0) : (pure x : Metered α).Pays P bits :=
  keeps_pure ⟨hP, one_pos, by simpa using hbits⟩

/-- An action without draws pays for results without bits. -/
lemma pays_lift {a : Run α} {Q : α → Prop} (h : a.Keeps (fun _ => True) Q fun _ => True)
    (hbits : ∀ x, Q x → P x ∧ bits x ≤ 0) : (liftM a : Metered α).Pays P bits :=
  h.bind fun x hx => keeps_pure ⟨(hbits x hx).1, one_pos, by simpa using (hbits x hx).2⟩

/-- What is not listed pays for nothing. -/
lemma pays_unlisted (a : Run α) : (liftM a : Metered α).Pays (fun _ => True) fun _ => 0 :=
  pays_lift (keeps_trivial a) fun _ _ => ⟨trivial, le_rfl⟩

/-- A failed action owes nothing. -/
lemma pays_throw (fault : Fault) : (liftM (throw fault : Run α) : Metered α).Pays P bits :=
  fun _ _ => trivial

/-- What follows an action only pays for the bits that are left. -/
lemma Pays.bind {f : α → Metered β} {Q : β → Prop} {left : β → ℝ} (hm : m.Pays P bits)
    (hf : ∀ x, P x → (f x).Pays Q fun y => left y - bits x) : (m >>= f).Pays Q left := by
  refine Keeps.bind hm fun r hr => Keeps.bind (hf r.1 hr.1) fun r' hr' => ?_
  have hprod : (r.2 ++ r'.2).prod = r.2.prod * r'.2.prod := List.prod_append
  refine keeps_pure ⟨hr'.1, hprod ▸ Nat.mul_pos hr.2.1 hr'.2.1, ?_⟩
  calc left r'.1 = bits r.1 + (left r'.1 - bits r.1) := by ring
    _ ≤ Entropy.choiceBits r.2.prod + Entropy.choiceBits r'.2.prod := add_le_add hr.2.2 hr'.2.2
    _ = Entropy.choiceBits (r.2 ++ r'.2).prod := by
        rw [hprod, Entropy.choiceBits_mul hr.2.1 hr'.2.1]

/-- Both sides of a condition have to pay. -/
lemma pays_ite {c : Prop} [Decidable c] {m' : Metered α} (hthen : c → m.Pays P bits)
    (helse : ¬c → m'.Pays P bits) : (if c then m else m').Pays P bits := by
  split
  · exact hthen ‹_›
  · exact helse ‹_›

/-- A draw pays for the bits of its choice. -/
lemma pays_choose (stream : WordStream) {n : Nat} (h : 0 < n) :
    (choose stream n h).Pays (fun _ => True) fun _ => Entropy.choiceBits n := by
  have hrun : (choose stream n h).run = do return (← Run.choose stream n h, [n]) := rfl
  rw [Pays, hrun]
  exact (keeps_choose stream h).bind fun x _ => keeps_pure ⟨trivial, by simpa using h, by simp⟩

/-- An action several times over pays for all its results together. -/
lemma Pays.replay (hm : m.Pays P bits) (count : Nat) :
    (replay count m).Pays (fun _ => True) fun xs => (xs.map bits).sum := by
  induction count with
  | zero => exact pays_pure trivial (by simp)
  | succ count ih =>
    exact hm.bind fun x _ => ih.bind fun xs _ => pays_pure trivial (by simp)

end Metered

open Metered

variable {stream : WordStream}

/-- The action pays for the entropy of its sample. -/
abbrev Metered.PaysSample (m : Metered Sample) : Prop :=
  m.Pays (fun _ => True) fun s => s.entropy.exact

/-- The action pays for the entropy of its samples together. -/
abbrev Metered.PaysSamples (m : Metered (List Sample)) : Prop :=
  m.Pays (fun _ => True) fun samples => (Sample.join samples).entropy.exact

/-- Nothing has to be paid for. -/
lemma Metered.Pays.free {α : Type} {m : Metered α} {P : α → Prop} {bits : α → ℝ}
    (h : m.Pays P bits) (hbits : ∀ x, 0 ≤ bits x) : m.Pays P fun _ => 0 :=
  h.imp fun x hx => ⟨hx, hbits x⟩

/-! ## Random parts -/

/-- The draw for a number of instances pays for more than is owed, since it adds no bits. -/
lemma pays_draw (count : RepeatCount) :
    (count.metered stream).Pays (fun _ => True) fun _ => 0 := by
  cases count with
  | exactly => exact pays_pure trivial le_rfl
  | between low high =>
    refine (pays_choose stream _).bind fun _ _ => pays_pure trivial ?_
    linarith [Entropy.choiceBits_nonneg (high - low + 1)]

/-- A member is paid by its draw. -/
lemma pays_charSet (set : CharSet) : (set.metered stream).PaysSample := by
  unfold CharSet.metered
  split
  · exact (pays_choose stream _).bind fun _ _ => pays_pure trivial (by simp [Entropy.exact])
  · exact pays_pure trivial (by simp [Sample.fixed])

/-- A byte is paid by its draw. -/
lemma pays_byte (case : LetterCase) : (meteredByte stream case).PaysSample :=
  (pays_choose stream _).bind fun _ _ => pays_pure trivial (by simp [Entropy.exact])

/-- Words are paid by their draws. -/
lemma pays_words (count : Nat) : (meteredWords stream count).PaysSample := by
  have hword : (meteredWord stream).PaysSample :=
    (pays_choose stream _).bind fun _ _ => pays_pure trivial
      (by simp [Entropy.exact, Mnemonic.length_wordList])
  refine (hword.replay count).bind fun words _ => pays_pure trivial ?_
  have hjoin := exact_join words
  rw [Sample.join] at hjoin
  simp [hjoin]

/-- A day is paid by its draw. -/
lemma pays_day (first : Int) (days : Nat) (separator : String) :
    (meteredDay stream first days separator).PaysSample :=
  (pays_choose stream _).bind fun _ _ => pays_ite
    (fun _ => pays_throw _)
    fun _ => pays_pure trivial (by simp [Entropy.exact])

/-- The choice between a sample and nothing is paid by its draw. -/
lemma pays_orNothing (s : Sample) : (s.meteredOrNothing stream).PaysSample :=
  (pays_choose stream _).bind fun _ _ => pays_pure trivial (by simp [Entropy.exact])

/-! ## Repetition -/

/-- A repeated construct pays for its instances. -/
lemma pays_repeated {action : Metered Sample} (h : action.PaysSample) (count : RepeatCount) :
    (meteredRepeated stream count action).PaysSample :=
  (pays_draw count).bind fun n _ => (h.replay n).bind fun samples _ =>
    pays_pure trivial (by simp [exact_join])

/-- What counts add is paid. -/
lemma pays_extras {action : Metered Sample} (h : action.PaysSample) (counts : List RepeatCount) :
    (meteredExtras stream counts action).PaysSamples := by
  induction counts generalizing action with
  | nil => exact pays_pure trivial (by simp [exact_join])
  | cons count later ih =>
    exact (pays_draw count).bind fun n _ => (h.replay (n - 1)).bind fun samples _ =>
      (ih (pays_repeated h count)).bind fun more _ => pays_pure trivial (by simp [exact_join])

/-! ## Trees -/

variable (stream)

mutual

/-- A run of a pattern pays for the entropy of its samples.

**Proof sketch.** By induction over the tree. -/
theorem Pattern.pays_metered : ∀ t : Pattern, (t.metered stream).PaysSamples
  | .done => by
    rw [Pattern.metered]
    exact pays_pure trivial (by simp [exact_join])
  | .stop fault => by
    rw [Pattern.metered]
    exact pays_throw fault
  | .seq head counts rest => by
    rw [Pattern.metered]
    exact (Construct.pays_meteredPrepare head).bind fun action haction => haction.bind
      fun first _ => (pays_extras haction counts).bind fun added _ =>
        (Pattern.pays_metered rest).bind fun later _ =>
          pays_pure trivial (by simp [exact_join])

/-- Whatever is settled for a construct, the action that generates it pays. -/
lemma Construct.pays_meteredPrepare :
    ∀ c : Construct, (c.meteredPrepare stream).Pays Metered.PaysSample fun _ => 0
  | .character c => by
    rw [Construct.meteredPrepare]
    exact pays_pure (pays_pure trivial (by simp [Sample.fixed])) le_rfl
  | .oneOf set => by
    rw [Construct.meteredPrepare]
    exact pays_pure (pays_charSet set) le_rfl
  | .reference span digits => by
    rw [Construct.meteredPrepare]
    exact (pays_unlisted _).bind fun text _ =>
      pays_pure (pays_pure trivial (by simp [Sample.fixed])) (by simp)
  | .group number body => by
    rw [Construct.meteredPrepare]
    exact pays_pure ((Pattern.pays_metered body).bind fun samples _ =>
      (pays_unlisted _).bind fun _ _ =>
        pays_pure trivial (by simp)) le_rfl
  | .alternation number branches => by
    rw [Construct.meteredPrepare]
    refine pays_pure ((pays_choose stream _).bind fun choice _ =>
      (pays_unlisted _).bind fun others _ =>
        (Branches.pays_meteredChosen branches choice).bind fun s _ =>
          (pays_unlisted _).bind fun _ _ =>
            (pays_unlisted _).bind fun _ _ =>
              pays_pure trivial ?_) le_rfl
    have hleast := (Entropy.exactLeast_le s.entropy.exact others).1
    simp only [Entropy.exact, Entropy.exactSum]
    linarith
  | .encode t argument => by
    rw [Construct.meteredPrepare]
    exact pays_pure ((Argument.pays_metered argument).bind fun s _ =>
      pays_lift (keeps_transformed t s fun _ _ => trivial) fun s' hs' =>
        ⟨trivial, by simp [hs']⟩) le_rfl
  | .expand argument separator => by
    rw [Construct.meteredPrepare]
    exact (Argument.pays_meteredLiteral .separator separator).bind fun sep _ =>
      pays_pure ((Argument.pays_metered argument).bind fun s _ =>
        pays_lift (keeps_transformed _ s fun _ _ => trivial) fun s' hs' =>
        ⟨trivial, by simp [hs']⟩) (by simp)
  | .byte case => by
    rw [Construct.meteredPrepare]
    exact pays_pure (pays_byte case) le_rfl
  | .words count => by
    rw [Construct.meteredPrepare]
    exact (Argument.pays_meteredLiteral .wordCount count).bind fun text _ =>
      (pays_unlisted _).bind fun number _ =>
        pays_pure (pays_words number) (by simp)
  | .date first last separator => by
    rw [Construct.meteredPrepare]
    exact (Argument.pays_meteredLiteral .year first).bind fun firstText _ =>
      (pays_unlisted _).bind fun firstYear _ =>
        (Argument.pays_meteredLiteral .year last).bind fun lastText _ =>
          (pays_unlisted _).bind fun lastYear _ =>
            (pays_unlisted _).bind fun days _ =>
              (Argument.pays_meteredLiteral .separator separator).bind fun sep _ =>
                pays_pure (pays_day firstYear days sep) (by simp)
  | .shuffle argument => by
    rw [Construct.meteredPrepare]
    exact pays_pure ((Argument.pays_metered argument).bind fun s _ =>
      pays_lift (keeps_shuffled stream s) fun s' hs' =>
        ⟨trivial, by simp [hs']⟩) le_rfl
  | .optional argument => by
    rw [Construct.meteredPrepare]
    exact pays_pure (((Argument.pays_metered argument).free fun s => s.entropy.exact_nonneg).bind
      fun s _ => (pays_orNothing s).imp fun _ _ => ⟨trivial, by simp⟩) le_rfl
  | .justify alignment argument width fill => by
    rw [Construct.meteredPrepare]
    exact (Argument.pays_meteredLiteral .width width).bind fun widthText _ =>
      (pays_unlisted _).bind fun columns _ =>
        (Argument.pays_meteredLiteral .fill fill).bind fun fillText _ =>
          (pays_unlisted _).bind fun filling _ =>
            pays_ite (fun _ => pays_throw _) fun _ =>
              pays_pure ((Argument.pays_metered argument).bind fun s _ =>
                pays_pure trivial (by simp [Sample.justified])) (by simp)

/-- The sample of an argument is paid. -/
lemma Argument.pays_metered : ∀ a : Argument, (a.metered stream).PaysSample
  | .mk _ body => by
    rw [Argument.metered]
    exact (Pattern.pays_metered body).bind fun _ _ => pays_pure trivial (by simp)

/-- A fixed argument owes nothing. -/
lemma Argument.pays_meteredLiteral (role : LiteralArgument) :
    ∀ a : Argument, (a.meteredLiteral stream role).Pays (fun _ => True) fun _ => 0
  | .mk span body => by
    rw [Argument.meteredLiteral]
    exact ((Pattern.pays_metered body).free fun _ => Entropy.exact_nonneg _).bind fun _ _ =>
      pays_ite (fun _ => pays_throw _) fun _ =>
        pays_pure trivial (by simp)

/-- The chosen branch pays for its sample. -/
lemma Branches.pays_meteredChosen :
    ∀ (b : Branches) (choice : Nat), (b.meteredChosen stream choice).PaysSample
  | .one _ _ body, _ => by
    rw [Branches.meteredChosen]
    exact (Pattern.pays_metered body).bind fun _ _ => pays_pure trivial (by simp)
  | .more _ _ body _, 0 => by
    rw [Branches.meteredChosen]
    exact (Pattern.pays_metered body).bind fun _ _ => pays_pure trivial (by simp)
  | .more _ _ _ rest, choice + 1 => by
    rw [Branches.meteredChosen]
    exact Branches.pays_meteredChosen rest choice

end

/-! ## Whole patterns -/

/-- A whole text pays for its sample. -/
lemma pays_meteredText (text : List Char) : (meteredText stream text).PaysSample :=
  pays_ite (fun _ => pays_throw _) fun _ =>
    (Pattern.pays_metered stream (Pattern.ofText text)).bind fun _ _ =>
      pays_pure trivial (by simp)

/-- **Entropy is never over-accounted**: a sample is generated along a path with some draws. Its
entropy is not negative, and it is at most the logarithm of the product of the numbers of values of
these draws. -/
theorem two_rpow_exact_le_draws {stream : WordStream} {position : Nat} {pattern : String}
    {s : Sample} (h : (generate stream position pattern).result = .ok s) :
    ∃ draws, generateMetered stream position pattern = some (s, draws) ∧ 0 ≤ s.entropy.exact ∧
      (2 : ℝ) ^ s.entropy.exact ≤ (draws.prod : ℝ) := by
  obtain ⟨draws, hdraws⟩ := exists_generateMetered_iff.2 h
  refine ⟨draws, hdraws, s.entropy.exact_nonneg, ?_⟩
  unfold generateMetered at hdraws
  split at hdraws <;> cases hdraws
  rename_i hrun
  obtain ⟨-, -, hpos, hbits⟩ := ends_of_eq_ok
    (pays_meteredText stream pattern.toList ⟨position, .empty⟩ trivial) hrun
  exact (Entropy.le_choiceBits_iff hpos).1 hbits

/-- Two choices between a letter that may be left out and a fixed one. The draws that lead to the
text are those of the first choice, of its letter, of the count and of the second choice. What is
drawn for the letter in the second choice is not among them. -/
theorem two_rpow_exact_le_draws_of_choices :
    ∃ s, (generate (fun i => if i = 0 then 0 else 0xffffffff) 0 "($?(a)|c){1,2}").result = .ok s ∧
      s.text = "ac" ∧ (2 : ℝ) ^ s.entropy.exact ≤ ([2, 2, 2, 2] : List Nat).prod := by
  have hrun : (generate (fun i => if i = 0 then 0 else 0xffffffff) 0 "($?(a)|c){1,2}").result =
      .ok ⟨"ac", .sum [.sum [.choice 2, .least (.sum [.choice 2]) [.sum [.zero]]],
        .sum [.sum [.choice 2, .least (.sum [.zero]) [.sum [.choice 2]]]]]⟩ := by
    cbv
  have hmetered :
      (generateMetered (fun i => if i = 0 then 0 else 0xffffffff) 0 "($?(a)|c){1,2}").map Prod.snd =
        some [2, 2, 2, 2] := by
    cbv
  obtain ⟨draws, hdraws, -, hle⟩ := two_rpow_exact_le_draws hrun
  rw [hdraws, Option.map_some, Option.some.injEq] at hmetered
  exact ⟨_, hrun, rfl, hmetered ▸ hle⟩

end PatternSampler
