import Mathlib
import PatternSampler.Proofs.Run.Ends

set_option autoImplicit false

/-!
# Metered runs

A metered run does what a run does, and lists the numbers of values of its draws on the way. What is
drawn inside a probe is not listed, since it has no part in the text, and neither is what puts
characters into random order.

## Main definitions

* `Metered` — an action that lists its draws.
* `Metered.forget` — the action without the list.
* `Pattern.metered` — the metered run of a pattern.
* `generateMetered` — a sample with the draws on the path that leads to it.

## Main results

* `Pattern.forget_metered` — a metered run is a run, but for the list.
* `exists_generateMetered_iff` — a metered run yields what is generated.
-/

namespace PatternSampler

/-- An action that lists the numbers of values of its draws. -/
abbrev Metered (α : Type) : Type := WriterT (List Nat) Run α

/-- A failed action yields nothing that could be changed. -/
@[simp] lemma Run.map_throw {α β : Type} (f : α → β) (fault : Fault) :
    f <$> (throw fault : Run α) = throw fault := rfl

namespace Metered

variable {α β : Type}

/-- A uniform choice that is listed. -/
def choose (stream : WordStream) (n : Nat) (h : 0 < n) : Metered (Fin n) := do
  tell [n]
  Run.choose stream n h

/-- The results of an action `count` times over. -/
def replay (count : Nat) (action : Metered α) : Metered (List α) :=
  match count with
  | 0 => return []
  | count + 1 => do
    let result ← action
    let results ← replay count action
    return result :: results

/-- The action without the list. -/
def forget (m : Metered α) : Run α := do
  let (result, _) ← m.run
  return result

/-- A result without draws is the result. -/
@[simp] lemma forget_pure (x : α) : (pure x : Metered α).forget = pure x := rfl

/-- Listing draws does not change what follows on what. -/
@[simp] lemma forget_bind (m : Metered α) (f : α → Metered β) :
    (m >>= f).forget = m.forget >>= fun x => (f x).forget := by
  show (m.run >>= fun r => (fun r' => (r'.1, r.2 ++ r'.2)) <$> (f r.1).run) >>= (fun r => pure r.1)
    = (m.run >>= fun r => pure r.1) >>= fun x => (f x).run >>= fun r => pure r.1
  simp only [bind_assoc, bind_map_left, pure_bind]

/-- An action that is not listed is the action. -/
@[simp] lemma forget_lift (a : Run α) : (liftM a : Metered α).forget = a := by
  show ((fun x => (x, [])) <$> a) >>= (fun r => pure r.1) = a
  simp only [bind_map_left, bind_pure]

/-- Changing the state is not listed. -/
@[simp] lemma forget_modify (g : Progress → Progress) :
    (modify g : Metered PUnit).forget = modify g := rfl

/-- The condition of an action does not depend on the list. -/
@[simp] lemma forget_ite {c : Prop} [Decidable c] (a b : Metered α) :
    (if c then a else b).forget = if c then a.forget else b.forget := by
  split <;> rfl

/-- A choice that is listed is the choice. -/
@[simp] lemma forget_choose (stream : WordStream) {n : Nat} (h : 0 < n) :
    (choose stream n h).forget = Run.choose stream n h := by
  rw [choose, forget_bind, forget_lift]
  rfl

/-- An action several times over does the same with the list and without it. -/
@[simp] lemma forget_replay (count : Nat) (m : Metered α) :
    (replay count m).forget = Run.replay count m.forget := by
  induction count with
  | zero => rfl
  | succ count ih => simp only [replay, Run.replay_succ, forget_bind, forget_pure, ih]

end Metered

/-- A metered action ends well exactly where the action does. -/
lemma Metered.forget_eq_ok {α : Type} {m : Metered α} {p q : Progress} {x : α} :
    m.forget p = .ok x q ↔ ∃ draws, m.run p = .ok (x, draws) q := by
  simp only [forget, bind, EStateM.bind]
  cases m.run p with
  | ok r q' =>
    constructor
    · rintro ⟨⟩
      exact ⟨r.2, rfl⟩
    · rintro ⟨draws, h⟩
      cases h
      rfl
  | error fault q' => simp

/-! ## Random parts -/

/-- There are values of a byte. -/
lemma byteValues_pos : 0 < 256 := by
  decide

/-- There are words to choose among. -/
lemma Mnemonic.length_wordList_pos : 0 < wordList.length := by
  rw [length_wordList]
  decide

/-- `RepeatCount.draw`, metered. -/
def RepeatCount.metered (stream : WordStream) : RepeatCount → Metered Nat
  | exactly count => return count
  | between low high => do
    let more := high - low
    return low + (← Metered.choose stream (more + 1) (Nat.succ_pos more))

/-- `CharSet.sample`, metered. -/
def CharSet.metered (stream : WordStream) (set : CharSet) : Metered Sample :=
  if h : 0 < set.size then do
    let place ← Metered.choose stream set.size h
    return ⟨(set.get place).toString, .choice set.size⟩
  else return .fixed ""

/-- `sampleByte`, metered. -/
def meteredByte (stream : WordStream) (case : LetterCase) : Metered Sample := do
  let byte ← Metered.choose stream 256 byteValues_pos
  return ⟨String.ofList (Hex.encodeByte case (UInt8.ofNat byte)), .choice 256⟩

/-- `sampleWord`, metered. -/
def meteredWord (stream : WordStream) : Metered Sample := do
  let place ← Metered.choose stream Mnemonic.wordList.length Mnemonic.length_wordList_pos
  return ⟨Mnemonic.wordList.get place, .choice 2048⟩

/-- `sampleWords`, metered. -/
def meteredWords (stream : WordStream) (count : Nat) : Metered Sample := do
  let words ← Metered.replay count (meteredWord stream)
  return ⟨" ".intercalate (words.map Sample.text), .sum (words.map Sample.entropy)⟩

/-- `sampleDay`, metered. -/
def meteredDay (stream : WordStream) (first : Int) (days : Nat) (separator : String) :
    Metered Sample := do
  let day ← Metered.choose stream (days + 1) (Nat.succ_pos _)
  let date := Date.ofDayNumber (daysBefore first + day)
  if Date.lastYear < date.year then (throw ⟨.dateOutOfRange, none⟩ : Run Sample)
  else return ⟨date.render separator, .choice (days + 1)⟩

/-- `Sample.orNothing`, metered. -/
def Sample.meteredOrNothing (stream : WordStream) (s : Sample) : Metered Sample := do
  let keep ← Metered.choose stream 2 Nat.two_pos
  return ⟨if keep.val = 1 then s.text else "", .choice 2⟩

/-! ## Repetition -/

/-- `repeated`, metered. -/
def meteredRepeated (stream : WordStream) (count : RepeatCount) (action : Metered Sample) :
    Metered Sample := do
  let instances ← count.metered stream
  return .join (← Metered.replay instances action)

/-- `extras`, metered. -/
def meteredExtras (stream : WordStream) :
    List RepeatCount → Metered Sample → Metered (List Sample)
  | [], _ => return []
  | count :: later, action => do
    let instances ← count.metered stream
    let added ← Metered.replay (instances - 1) action
    let more ← meteredExtras stream later (meteredRepeated stream count action)
    return .join added :: more

/-! ## Patterns -/

mutual

/-- `Pattern.samples`, metered. -/
def Pattern.metered (stream : WordStream) : Pattern → Metered (List Sample)
  | .done => return []
  | .stop fault => (throw fault : Run (List Sample))
  | .seq head counts rest => do
    let action ← head.meteredPrepare stream
    let first ← action
    let added ← meteredExtras stream counts action
    let later ← rest.metered stream
    return first :: (added ++ later)

/-- `Construct.prepare`, metered. -/
def Construct.meteredPrepare (stream : WordStream) : Construct → Metered (Metered Sample)
  | .character c => return return .fixed c.toString
  | .oneOf set => return set.metered stream
  | .reference span digits => do
    let text ← Construct.runReference span digits
    return return .fixed text
  | .group number body =>
    return do
      let s := .join (← body.metered stream)
      Run.record number s.text
      return s
  | .alternation number branches =>
    return do
      let choice ← Metered.choose stream branches.length branches.length_pos
      -- what is drawn for the other branches is not listed
      let others ← branches.probeOthers stream choice 0
      let s ← branches.meteredChosen stream choice
      (modify fun progress =>
        { progress with groups := branches.clearOthers choice progress.groups } : Run PUnit)
      Run.record number s.text
      return ⟨s.text, .sum [.choice branches.length, .least s.entropy others]⟩
  | .encode t argument =>
    return do (← argument.metered stream).transformed t argument.span
  | .expand argument separator => do
    let separator ← separator.meteredLiteral stream .separator
    return do (← argument.metered stream).transformed (.expand separator) argument.span
  | .byte case => return meteredByte stream case
  | .words count => do
    let number ← wordCountOf count.span (← count.meteredLiteral stream .wordCount)
    return meteredWords stream number
  | .date first last separator => do
    let firstText ← first.meteredLiteral stream .year
    let firstYear ← (numberOf signed? first.span firstText : Run Int)
    let lastText ← last.meteredLiteral stream .year
    let lastYear ← (numberOf signed? last.span lastText : Run Int)
    let days ← daysOf (first.span.upTo last.span) firstYear lastYear
    let separator ← separator.meteredLiteral stream .separator
    return meteredDay stream firstYear days separator
  | .shuffle argument =>
    -- neither are the draws that put characters into order
    return do (← argument.metered stream).shuffled stream
  | .optional argument => return do (← argument.metered stream).meteredOrNothing stream
  | .justify alignment argument width fill => do
    let widthText ← width.meteredLiteral stream .width
    let columns ← (numberOf unsigned? width.span widthText : Run Nat)
    let filling ← fillOf fill.span (← fill.meteredLiteral stream .fill)
    if maxRepeat < columns then
      (throw (.within .widthTooLarge width.span) : Run (Metered Sample))
    else return do return (← argument.metered stream).justified alignment columns filling

/-- `Argument.sample`, metered. -/
def Argument.metered (stream : WordStream) : Argument → Metered Sample
  | .mk _ body => do return .join (← body.metered stream)

/-- `Argument.literal`, metered. -/
def Argument.meteredLiteral (stream : WordStream) (role : LiteralArgument) :
    Argument → Metered String
  | .mk span body => do
    let s := Sample.join (← body.metered stream)
    if s.entropy.isPositive then (throw (.within (.randomArgument role) span) : Run String)
    else return s.text

/-- `Branches.chosen`, metered. -/
def Branches.meteredChosen (stream : WordStream) : (choice : Nat) → Branches → Metered Sample
  | _, .one _ _ body => do return .join (← body.metered stream)
  | 0, .more _ _ body _ => do return .join (← body.metered stream)
  | choice + 1, .more _ _ _ rest => rest.meteredChosen stream choice

end

/-! ## Forgetting the list -/

section Forget

variable (stream : WordStream)

/-- Drawing a number of instances does the same with the list and without it. -/
@[simp] lemma RepeatCount.forget_metered (count : RepeatCount) :
    (count.metered stream).forget = count.draw stream := by
  cases count <;> simp [RepeatCount.metered, RepeatCount.draw]

/-- Choosing a member does the same with the list and without it. -/
@[simp] lemma CharSet.forget_metered (set : CharSet) :
    (set.metered stream).forget = set.sample stream := by
  unfold CharSet.metered CharSet.sample
  split <;> simp

/-- Choosing a byte does the same with the list and without it. -/
@[simp] lemma forget_meteredByte (case : LetterCase) :
    (meteredByte stream case).forget = sampleByte stream case := by
  simp [meteredByte, sampleByte]

/-- Choosing words does the same with the list and without it. -/
@[simp] lemma forget_meteredWords (count : Nat) :
    (meteredWords stream count).forget = sampleWords stream count := by
  simp [meteredWords, sampleWords, meteredWord, sampleWord]

/-- Choosing a day does the same with the list and without it. -/
@[simp] lemma forget_meteredDay (first : Int) (days : Nat) (separator : String) :
    (meteredDay stream first days separator).forget = sampleDay stream first days separator := by
  simp [meteredDay, sampleDay]

/-- Leaving out a sample does the same with the list and without it. -/
@[simp] lemma Sample.forget_meteredOrNothing (s : Sample) :
    (s.meteredOrNothing stream).forget = s.orNothing stream := by
  simp [Sample.meteredOrNothing, Sample.orNothing]

/-- Repeating a construct does the same with the list and without it. -/
@[simp] lemma forget_meteredRepeated (count : RepeatCount) (action : Metered Sample) :
    (meteredRepeated stream count action).forget = repeated stream count action.forget := by
  simp [meteredRepeated, repeated]

/-- What counts add is the same with the list and without it. -/
@[simp] lemma forget_meteredExtras (counts : List RepeatCount) (action : Metered Sample) :
    (meteredExtras stream counts action).forget = extras stream counts action.forget := by
  induction counts generalizing action with
  | nil => rfl
  | cons count later ih => simp [meteredExtras, extras, ih]

mutual

/-- A metered run is a run, but for the list. -/
theorem Pattern.forget_metered : ∀ t : Pattern, (t.metered stream).forget = t.samples stream
  | .done => by rw [Pattern.metered, Pattern.samples, Metered.forget_pure]
  | .stop fault => by rw [Pattern.metered, Pattern.samples, Metered.forget_lift]
  | .seq head counts rest => by
    rw [Pattern.metered, Pattern.samples, ← Construct.forget_meteredPrepare head]
    simp [Pattern.forget_metered rest]

/-- A construct is prepared with the list as it is without it. -/
lemma Construct.forget_meteredPrepare :
    ∀ c : Construct, Metered.forget <$> (c.meteredPrepare stream).forget = c.prepare stream
  | .character c => by simp [Construct.meteredPrepare, Construct.prepare]
  | .oneOf set => by simp [Construct.meteredPrepare, Construct.prepare]
  | .reference span digits => by
    simp [Construct.meteredPrepare, Construct.prepare_reference]
  | .group number body => by
    simp [Construct.meteredPrepare, Construct.prepare, Pattern.forget_metered body]
  | .alternation number branches => by
    simp [Construct.meteredPrepare, Construct.prepare, Branches.forget_meteredChosen]
  | .encode t argument => by
    simp [Construct.meteredPrepare, Construct.prepare, Argument.forget_metered argument]
  | .expand argument separator => by
    simp [Construct.meteredPrepare, Construct.prepare, Argument.forget_metered argument,
      Argument.forget_meteredLiteral]
  | .byte case => by simp [Construct.meteredPrepare, Construct.prepare]
  | .words count => by
    simp [Construct.meteredPrepare, Construct.prepare, Argument.forget_meteredLiteral]
  | .date first last separator => by
    simp [Construct.meteredPrepare, Construct.prepare, Argument.forget_meteredLiteral]
  | .shuffle argument => by
    simp [Construct.meteredPrepare, Construct.prepare, Argument.forget_metered argument]
  | .optional argument => by
    simp [Construct.meteredPrepare, Construct.prepare, Argument.forget_metered argument]
  | .justify alignment argument width fill => by
    simp [Construct.meteredPrepare, Construct.prepare, Argument.forget_metered argument,
      Argument.forget_meteredLiteral, apply_ite (Functor.map Metered.forget)]

/-- The sample of an argument is the same with the list and without it. -/
lemma Argument.forget_metered : ∀ a : Argument, (a.metered stream).forget = a.sample stream
  | .mk _ body => by simp [Argument.metered, Argument.sample, Pattern.forget_metered body]

/-- The text of a fixed argument is the same with the list and without it. -/
lemma Argument.forget_meteredLiteral (role : LiteralArgument) :
    ∀ a : Argument, (a.meteredLiteral stream role).forget = a.literal stream role
  | .mk span body => by
    simp [Argument.meteredLiteral, Argument.literal, Pattern.forget_metered body]

/-- The chosen branch is the same with the list and without it. -/
lemma Branches.forget_meteredChosen :
    ∀ (b : Branches) (choice : Nat),
      (b.meteredChosen stream choice).forget = b.chosen stream choice
  | .one _ _ body, _ => by
    simp [Branches.meteredChosen, Branches.chosen, Pattern.forget_metered body]
  | .more _ _ body _, 0 => by
    simp [Branches.meteredChosen, Branches.chosen, Pattern.forget_metered body]
  | .more _ _ _ rest, choice + 1 => by
    rw [Branches.meteredChosen, Branches.chosen, Branches.forget_meteredChosen rest choice]

end

end Forget

/-! ## Whole patterns -/

/-- `sampleText`, metered. -/
def meteredText (stream : WordStream) (text : List Char) : Metered Sample :=
  if maxPatternLength < text.length then (throw ⟨.tooLong, none⟩ : Run Sample)
  else do return .join (← (Pattern.ofText text).metered stream)

/-- A whole text is generated with the list as it is without it. -/
lemma forget_meteredText (stream : WordStream) (text : List Char) :
    (meteredText stream text).forget = sampleText stream text := by
  simp [meteredText, sampleText, Pattern.forget_metered]

/-- `generate`, metered: a sample with the numbers of values of the draws that lead to it. -/
def generateMetered (stream : WordStream) (position : Nat) (pattern : String) :
    Option (Sample × List Nat) :=
  match (meteredText stream pattern.toList).run ⟨position, .empty⟩ with
  | .ok metered _ => some metered
  | .error _ _ => none

/-- A sample is generated exactly where it is generated with its draws. -/
theorem exists_generateMetered_iff {stream : WordStream} {position : Nat} {pattern : String}
    {s : Sample} :
    (∃ draws, generateMetered stream position pattern = some (s, draws)) ↔
      (generate stream position pattern).result = .ok s := by
  constructor
  · rintro ⟨draws, h⟩
    unfold generateMetered at h
    split at h <;> cases h
    rename_i hrun
    have hok := Metered.forget_eq_ok.2 ⟨draws, hrun⟩
    rw [forget_meteredText] at hok
    rw [generate, hok]
  · intro h
    obtain ⟨q, hok⟩ := generate_eq_ok h
    rw [← forget_meteredText] at hok
    obtain ⟨draws, hrun⟩ := Metered.forget_eq_ok.1 hok
    exact ⟨draws, by rw [generateMetered, hrun]⟩

end PatternSampler
