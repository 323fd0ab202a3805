import PatternSampler.Proofs.Entropy.Metered

set_option autoImplicit false

/-!
# Runs with their history

A traced run does what a run does, and notes on the way what it draws, which texts of groups it
changes, and what references are resolved to. What happens inside a probe is noted apart, since a
probe takes its changes back.

## Main definitions

* `Event` — what is noted.
* `Traced` — an action with its history.
* `Traced.forget` — the action without its history.
* `Pattern.traced` — the traced run of a pattern.
* `history` — the history of a text as a pattern.

## Main results

* `Pattern.forget_traced` — a traced run is a run, but for its history.

## Implementation notes

An action that fails has a history as well, so this is no writer on top of `Run`. The draws that put
characters into random order are not noted.
-/

namespace PatternSampler

/-- What is noted of a run. -/
inductive Event
  /-- One of `bound` values has been drawn. -/
  | drew (bound value : Nat)
  /-- A group has been generated, and its text is kept under its number. -/
  | kept (number : Nat) (text : String)
  /-- An alternation has been generated without one of its branches. The texts of the `count` groups
  in that branch, behind the group `before`, are empty from now on. -/
  | emptied (before count : Nat)
  /-- A reference to a group has been resolved to a text. -/
  | resolved (number : Nat) (text : String)
  /-- A branch has been probed. -/
  | probed (inside : List Event)
deriving Inhabited

/-- An action with its history. -/
def Traced (α : Type) : Type := Progress → List Event × EStateM.Result Fault Progress α

namespace Traced

variable {α β : Type}

/-- The histories of actions in a row are put one behind the other. A failed action has the history
up to its end. -/
instance : Monad Traced where
  pure x p := ([], .ok x p)
  bind m f p := match m p with
    | (front, .ok x q) => (front ++ (f x q).1, (f x q).2)
    | (front, .error fault q) => (front, .error fault q)

/-- A second action runs behind a good run of the first one, with its history behind. -/
lemma bind_apply (m : Traced α) (f : α → Traced β) (p : Progress) :
    (m >>= f) p = match m p with
      | (front, .ok x q) => (front ++ (f x q).1, (f x q).2)
      | (front, .error fault q) => (front, .error fault q) := rfl

/-- A second action behind a good run of the first one. -/
lemma bind_of_eq_ok {m : Traced α} {f : α → Traced β} {p q : Progress} {x : α}
    {front : List Event} (h : m p = (front, .ok x q)) :
    (m >>= f) p = (front ++ (f x q).1, (f x q).2) := by
  rw [bind_apply, h]

/-- An action and what follows it end well only if both do. -/
lemma exists_of_bind {m : Traced α} {f : α → Traced β} {p r : Progress} {y : β}
    (h : ((m >>= f) p).2 = .ok y r) :
    ∃ x q, (m p).2 = .ok x q ∧ (f x q).2 = .ok y r ∧
      ((m >>= f) p).1 = (m p).1 ++ (f x q).1 := by
  rw [bind_apply] at h ⊢
  generalize m p = run at h ⊢
  obtain ⟨front, x | fault⟩ := run
  · exact ⟨x, _, rfl, h, rfl⟩
  · cases h

/-- Yielding a result adds nothing to a history. -/
private lemma bind_pure_eq (m : Traced α) : (m >>= pure) = m := by
  funext p
  rw [bind_apply]
  rcases m p with ⟨front, x | fault⟩ <;> simp [pure]

/-- Histories may be put one behind the other in any grouping. -/
private lemma bind_bind_eq {γ : Type} (m : Traced α) (f : α → Traced β) (g : β → Traced γ) :
    (m >>= f) >>= g = m >>= fun x => f x >>= g := by
  funext p
  simp only [bind_apply]
  rcases m p with ⟨front, x | fault⟩
  · simp only
    rcases f _ _ with ⟨mid, y | fault⟩ <;> simp
  · rfl

/-- Actions with histories obey the laws of actions. -/
instance : LawfulMonad Traced := .mk' Traced bind_pure_eq (fun _ _ => rfl) bind_bind_eq

/-- An action of which nothing is noted. -/
def lift (a : Run α) : Traced α := fun p => ([], a p)

/-- An action without notes may stand among actions with histories. -/
instance : MonadLift Run Traced := ⟨lift⟩

/-- An action without notes has an empty history. -/
lemma lift_apply (a : Run α) (p : Progress) : (liftM a : Traced α) p = ([], a p) := rfl

/-- Notes events. -/
def note (events : List Event) : Traced Unit := fun p => (events, .ok () p)

/-- A uniform choice, with a note. -/
def choose (stream : WordStream) (n : Nat) (h : 0 < n) : Traced (Fin n) := do
  let value ← Run.choose stream n h
  note [.drew n value]
  return value

/-- Keeps the text of a group, with a note. -/
def record (number : Nat) (text : String) : Traced Unit := do
  Run.record number text
  note [.kept number text]

/-- An action whose changes to the texts of groups are taken back, with its history as a single
note. -/
def probe (m : Traced α) : Traced α := fun p => match m p with
  | (inside, .ok x q) => ([.probed inside], .ok x { q with groups := p.groups })
  | (inside, .error fault q) => ([.probed inside], .error fault q)

/-- The history of a probe is a single note. -/
lemma fst_probe (m : Traced α) (p : Progress) : (probe m p).1 = [.probed (m p).1] := by
  simp only [probe]
  rcases m p with ⟨inside, x | fault⟩ <;> rfl

/-- A probe leaves the texts of groups as they were. -/
lemma groups_probe {m : Traced α} {p q : Progress} {x : α} (h : (probe m p).2 = .ok x q) :
    q.groups = p.groups := by
  simp only [probe] at h
  split at h <;> cases h
  rfl

/-- A probe has the result of its action. -/
lemma eq_ok_of_probe {m : Traced α} {p q : Progress} {x : α} (h : (probe m p).2 = .ok x q) :
    ∃ q', (m p).2 = .ok x q' := by
  simp only [probe] at h
  split at h <;> cases h
  rename_i hm
  exact ⟨_, by rw [hm]⟩

/-- The results of an action `count` times over. -/
def replay (count : Nat) (action : Traced α) : Traced (List α) :=
  match count with
  | 0 => return []
  | count + 1 => do
    let result ← action
    let results ← replay count action
    return result :: results

/-- The action without its history. -/
def forget (m : Traced α) : Run α := fun p => (m p).2

/-- Without its empty history a result is a result. -/
@[simp] lemma forget_pure (x : α) : (pure x : Traced α).forget = pure x := rfl

/-- The history of an action does not change what follows on it. -/
@[simp] lemma forget_bind (m : Traced α) (f : α → Traced β) :
    (m >>= f).forget = m.forget >>= fun x => (f x).forget := by
  funext p
  simp only [forget, bind, EStateM.bind]
  rcases m p with ⟨front, x | fault⟩ <;> rfl

/-- The history of an action does not change what is made of its result. -/
@[simp] lemma forget_map (f : α → β) (m : Traced α) : (f <$> m).forget = f <$> m.forget := by
  simp only [map_eq_pure_bind, forget_bind, forget_pure]

/-- An action without notes is the action itself. -/
@[simp] lemma forget_lift (a : Run α) : (liftM a : Traced α).forget = a := rfl

/-- Notes are nothing but notes. -/
@[simp] lemma forget_note (events : List Event) : (note events).forget = pure () := rfl

/-- Changing the state needs no note. -/
@[simp] lemma forget_modify (g : Progress → Progress) :
    (liftM (modify g : Run PUnit) : Traced PUnit).forget = modify g := rfl

/-- The condition of an action does not depend on the history. -/
@[simp] lemma forget_ite {c : Prop} [Decidable c] (a b : Traced α) :
    (if c then a else b).forget = if c then a.forget else b.forget := by
  split <;> rfl

/-- A choice with a note is the choice. -/
@[simp] lemma forget_choose (stream : WordStream) {n : Nat} (h : 0 < n) :
    (choose stream n h).forget = Run.choose stream n h := by
  simp [choose]

/-- Keeping the text of a group with a note keeps the text. -/
@[simp] lemma forget_record (number : Nat) (text : String) :
    (record number text).forget = Run.record number text := by
  simp [record]

/-- A probe with a note is the probe. -/
@[simp] lemma forget_probe (m : Traced α) : (probe m).forget = Run.probe m.forget := by
  funext p
  simp only [forget, probe, Run.probe, bind, EStateM.bind, get, getThe, MonadStateOf.get,
    EStateM.get]
  rcases m p with ⟨inside, x | fault⟩ <;> rfl

/-- An action several times over does the same with its history and without it. -/
@[simp] lemma forget_replay (count : Nat) (m : Traced α) :
    (replay count m).forget = Run.replay count m.forget := by
  induction count with
  | zero => rfl
  | succ count ih => simp only [replay, Run.replay_succ, forget_bind, forget_pure, ih]

end Traced

/-! ## Random parts -/

/-- `RepeatCount.draw`, traced. -/
def RepeatCount.traced (stream : WordStream) : RepeatCount → Traced Nat
  | exactly count => return count
  | between low high => do
    let more := high - low
    return low + (← Traced.choose stream (more + 1) (Nat.succ_pos more))

/-- `CharSet.sample`, traced. -/
def CharSet.traced (stream : WordStream) (set : CharSet) : Traced Sample :=
  if h : 0 < set.size then do
    let place ← Traced.choose stream set.size h
    return ⟨(set.get place).toString, .choice set.size⟩
  else return .fixed ""

/-- `sampleByte`, traced. -/
def tracedByte (stream : WordStream) (case : LetterCase) : Traced Sample := do
  let byte ← Traced.choose stream 256 byteValues_pos
  return ⟨String.ofList (Hex.encodeByte case (UInt8.ofNat byte)), .choice 256⟩

/-- `sampleWord`, traced. -/
def tracedWord (stream : WordStream) : Traced Sample := do
  let place ← Traced.choose stream Mnemonic.wordList.length Mnemonic.length_wordList_pos
  return ⟨Mnemonic.wordList.get place, .choice 2048⟩

/-- `sampleWords`, traced. -/
def tracedWords (stream : WordStream) (count : Nat) : Traced Sample := do
  let words ← Traced.replay count (tracedWord stream)
  return ⟨" ".intercalate (words.map Sample.text), .sum (words.map Sample.entropy)⟩

/-- `sampleDay`, traced. -/
def tracedDay (stream : WordStream) (first : Int) (days : Nat) (separator : String) :
    Traced Sample := do
  let day ← Traced.choose stream (days + 1) (Nat.succ_pos _)
  let date := Date.ofDayNumber (daysBefore first + day)
  if Date.lastYear < date.year then (throw ⟨.dateOutOfRange, none⟩ : Run Sample)
  else return ⟨date.render separator, .choice (days + 1)⟩

/-- `Sample.orNothing`, traced. -/
def Sample.tracedOrNothing (stream : WordStream) (s : Sample) : Traced Sample := do
  let keep ← Traced.choose stream 2 Nat.two_pos
  return ⟨if keep.val = 1 then s.text else "", .choice 2⟩

/-! ## Repetition -/

/-- `repeated`, traced. -/
def tracedRepeated (stream : WordStream) (count : RepeatCount) (action : Traced Sample) :
    Traced Sample := do
  let instances ← count.traced stream
  return .join (← Traced.replay instances action)

/-- `extras`, traced. -/
def tracedExtras (stream : WordStream) : List RepeatCount → Traced Sample → Traced (List Sample)
  | [], _ => return []
  | count :: later, action => do
    let instances ← count.traced stream
    let added ← Traced.replay (instances - 1) action
    let more ← tracedExtras stream later (tracedRepeated stream count action)
    return .join added :: more

/-- The first instance of an action and those that repeat counts add. -/
def tracedInstances (stream : WordStream) (counts : List RepeatCount) (action : Traced Sample) :
    Traced (List Sample) := do
  let first ← action
  let added ← tracedExtras stream counts action
  return first :: added

/-! ## Patterns -/

/-- Reads the text that a reference repeats, with a note. -/
def Construct.tracedReference (span : Span) (digits : List Char) : Traced String := do
  let text ← Construct.runReference span digits
  Traced.note [.resolved ((decimal? digits).getD 0) text]
  return text

/-- A reference with a known group is noted and yields its text. Any other one is a mistake. -/
lemma Construct.tracedReference_apply (span : Span) (digits : List Char) (p : Progress) :
    tracedReference span digits p = match (decimal? digits).bind p.groups.text? with
      | some text => ([.resolved ((decimal? digits).getD 0) text], .ok text p)
      | none => ([], .error (.within (.invalidReference (String.ofList digits)) span) p) := by
  rw [tracedReference, Traced.bind_apply, Traced.lift_apply, runReference_apply]
  cases (decimal? digits).bind p.groups.text? <;> rfl

/-- The notes of an alternation on its branches that are not chosen. -/
def Branches.emptied : (choice : Nat) → Branches → List Event
  | 0, .one _ _ _ => []
  | _ + 1, .one before count _ => [.emptied before count]
  | 0, .more _ _ _ rest => rest.emptied rest.length
  | choice + 1, .more before count _ rest => .emptied before count :: rest.emptied choice

/-- Makes the texts of all groups empty that are opened in branches which are not chosen, with
notes. -/
def Branches.tracedClear (choice : Nat) (branches : Branches) : Traced Unit := do
  (modify fun progress => { progress with groups := branches.clearOthers choice progress.groups } :
    Run PUnit)
  Traced.note (branches.emptied choice)

mutual

/-- `Pattern.samples`, traced. -/
def Pattern.traced (stream : WordStream) : Pattern → Traced (List Sample)
  | .done => return []
  | .stop fault => (throw fault : Run (List Sample))
  | .seq head counts rest => do
    let action ← head.tracedPrepare stream
    let first ← action
    let added ← tracedExtras stream counts action
    let later ← rest.traced stream
    return first :: (added ++ later)

/-- `Construct.prepare`, traced. -/
def Construct.tracedPrepare (stream : WordStream) : Construct → Traced (Traced Sample)
  | .character c => return return .fixed c.toString
  | .oneOf set => return set.traced stream
  | .reference span digits => do
    let text ← Construct.tracedReference span digits
    return return .fixed text
  | .group number body =>
    return do
      let s := .join (← body.traced stream)
      Traced.record number s.text
      return s
  | .alternation number branches =>
    return do
      let choice ← Traced.choose stream branches.length branches.length_pos
      let others ← branches.tracedProbes stream choice 0
      let s ← branches.tracedChosen stream choice
      branches.tracedClear choice
      Traced.record number s.text
      return ⟨s.text, .sum [.choice branches.length, .least s.entropy others]⟩
  | .encode t argument =>
    return do (← argument.traced stream).transformed t argument.span
  | .expand argument separator => do
    let separator ← separator.tracedLiteral stream .separator
    return do (← argument.traced stream).transformed (.expand separator) argument.span
  | .byte case => return tracedByte stream case
  | .words count => do
    let number ← wordCountOf count.span (← count.tracedLiteral stream .wordCount)
    return tracedWords stream number
  | .date first last separator => do
    let firstText ← first.tracedLiteral stream .year
    let firstYear ← (numberOf signed? first.span firstText : Run Int)
    let lastText ← last.tracedLiteral stream .year
    let lastYear ← (numberOf signed? last.span lastText : Run Int)
    let days ← daysOf (first.span.upTo last.span) firstYear lastYear
    let separator ← separator.tracedLiteral stream .separator
    return tracedDay stream firstYear days separator
  | .shuffle argument => return do (← argument.traced stream).shuffled stream
  | .optional argument => return do (← argument.traced stream).tracedOrNothing stream
  | .justify alignment argument width fill => do
    let widthText ← width.tracedLiteral stream .width
    let columns ← (numberOf unsigned? width.span widthText : Run Nat)
    let filling ← fillOf fill.span (← fill.tracedLiteral stream .fill)
    if maxRepeat < columns then
      (throw (.within .widthTooLarge width.span) : Run (Traced Sample))
    else return do return (← argument.traced stream).justified alignment columns filling

/-- `Argument.sample`, traced. -/
def Argument.traced (stream : WordStream) : Argument → Traced Sample
  | .mk _ body => do return .join (← body.traced stream)

/-- `Argument.literal`, traced. -/
def Argument.tracedLiteral (stream : WordStream) (role : LiteralArgument) :
    Argument → Traced String
  | .mk span body => do
    let s := Sample.join (← body.traced stream)
    if s.entropy.isPositive then (throw (.within (.randomArgument role) span) : Run String)
    else return s.text

/-- `Branches.probeOthers`, traced. -/
def Branches.tracedProbes (stream : WordStream) (choice place : Nat) :
    Branches → Traced (List Entropy)
  | .one _ _ body =>
    if place = choice then return []
    else do return [(Sample.join (← Traced.probe (body.traced stream))).entropy]
  | .more _ _ body rest =>
    if place = choice then rest.tracedProbes stream choice (place + 1)
    else do
      let s := Sample.join (← Traced.probe (body.traced stream))
      let others ← rest.tracedProbes stream choice (place + 1)
      return s.entropy :: others

/-- `Branches.chosen`, traced. -/
def Branches.tracedChosen (stream : WordStream) : (choice : Nat) → Branches → Traced Sample
  | _, .one _ _ body => do return .join (← body.traced stream)
  | 0, .more _ _ body _ => do return .join (← body.traced stream)
  | choice + 1, .more _ _ _ rest => rest.tracedChosen stream choice

end

/-- The sample of an action, kept as the text of a group. -/
def tracedKept (number : Nat) (action : Traced Sample) : Traced Sample := do
  let s ← action
  Traced.record number s.text
  return s

/-- The sample of the branch at a place. The texts of groups in the other branches are made empty
behind it. -/
def Branches.tracedLive (stream : WordStream) (branches : Branches) (choice : Nat) :
    Traced Sample := do
  let s ← branches.tracedChosen stream choice
  branches.tracedClear choice
  return s

/-- The sample of a branch that is drawn, behind probes of the others. -/
def Branches.tracedChoice (stream : WordStream) (branches : Branches) : Traced Sample := do
  let choice ← Traced.choose stream branches.length branches.length_pos
  let others ← branches.tracedProbes stream choice 0
  let s ← branches.tracedLive stream choice
  return ⟨s.text, .sum [.choice branches.length, .least s.entropy others]⟩

/-- A group is generated by keeping the sample of its body. -/
lemma Construct.tracedPrepare_group (stream : WordStream) (number : Nat) (body : Pattern) :
    (Construct.group number body).tracedPrepare stream =
      pure (tracedKept number do return .join (← body.traced stream)) := by
  simp only [Construct.tracedPrepare, tracedKept, bind_assoc, pure_bind]

/-- An alternation is generated by keeping the sample of a branch. -/
lemma Construct.tracedPrepare_alternation (stream : WordStream) (number : Nat)
    (branches : Branches) :
    (Construct.alternation number branches).tracedPrepare stream =
      pure (tracedKept number (branches.tracedChoice stream)) := by
  simp only [Construct.tracedPrepare, tracedKept, Branches.tracedChoice, Branches.tracedLive,
    bind_assoc, pure_bind]

/-- The history of the first construct of a pattern, and of what follows it. -/
lemma Pattern.traced_seq (stream : WordStream) (head : Construct) (counts : List RepeatCount)
    (rest : Pattern) :
    (Pattern.seq head counts rest).traced stream = do
      let here ← head.tracedPrepare stream >>= tracedInstances stream counts
      let later ← rest.traced stream
      return here ++ later := by
  simp only [Pattern.traced, tracedInstances, bind_assoc, pure_bind, List.cons_append]

/-! ## Forgetting the history -/

section Forget

variable (stream : WordStream)

/-- Drawing a number of instances does the same with notes and without them. -/
@[simp] lemma RepeatCount.forget_traced (count : RepeatCount) :
    (count.traced stream).forget = count.draw stream := by
  cases count <;> simp [RepeatCount.traced, RepeatCount.draw]

/-- Choosing a member does the same with notes and without them. -/
@[simp] lemma CharSet.forget_traced (set : CharSet) :
    (set.traced stream).forget = set.sample stream := by
  unfold CharSet.traced CharSet.sample
  split <;> simp

/-- Choosing a byte does the same with notes and without them. -/
@[simp] lemma forget_tracedByte (case : LetterCase) :
    (tracedByte stream case).forget = sampleByte stream case := by
  simp [tracedByte, sampleByte]

/-- Choosing words does the same with notes and without them. -/
@[simp] lemma forget_tracedWords (count : Nat) :
    (tracedWords stream count).forget = sampleWords stream count := by
  simp [tracedWords, sampleWords, tracedWord, sampleWord]

/-- Choosing a day does the same with notes and without them. -/
@[simp] lemma forget_tracedDay (first : Int) (days : Nat) (separator : String) :
    (tracedDay stream first days separator).forget = sampleDay stream first days separator := by
  simp [tracedDay, sampleDay]

/-- Leaving out a sample does the same with notes and without them. -/
@[simp] lemma Sample.forget_tracedOrNothing (s : Sample) :
    (s.tracedOrNothing stream).forget = s.orNothing stream := by
  simp [Sample.tracedOrNothing, Sample.orNothing]

/-- Repeating a construct does the same with notes and without them. -/
@[simp] lemma forget_tracedRepeated (count : RepeatCount) (action : Traced Sample) :
    (tracedRepeated stream count action).forget = repeated stream count action.forget := by
  simp [tracedRepeated, repeated]

/-- What counts add is the same with notes and without them. -/
@[simp] lemma forget_tracedExtras (counts : List RepeatCount) (action : Traced Sample) :
    (tracedExtras stream counts action).forget = extras stream counts action.forget := by
  induction counts generalizing action with
  | nil => rfl
  | cons count later ih => simp [tracedExtras, extras, ih]

/-- A reference is resolved alike with a note and without it. -/
@[simp] lemma Construct.forget_tracedReference (span : Span) (digits : List Char) :
    (tracedReference span digits).forget = runReference span digits := by
  simp [tracedReference]

/-- Groups of other branches are made empty alike with notes and without them. -/
@[simp] lemma Branches.forget_tracedClear (choice : Nat) (branches : Branches) :
    (branches.tracedClear choice).forget =
      modify fun progress =>
        { progress with groups := branches.clearOthers choice progress.groups } := by
  simp only [tracedClear, Traced.forget_bind, Traced.forget_modify, Traced.forget_note]
  rfl

mutual

/-- A traced run is a run, but for its history. -/
theorem Pattern.forget_traced : ∀ t : Pattern, (t.traced stream).forget = t.samples stream
  | .done => by rw [Pattern.traced, Pattern.samples, Traced.forget_pure]
  | .stop fault => by rw [Pattern.traced, Pattern.samples, Traced.forget_lift]
  | .seq head counts rest => by
    rw [Pattern.traced, Pattern.samples, ← Construct.forget_tracedPrepare head]
    simp [Pattern.forget_traced rest]

/-- A construct is prepared with notes as it is without them. -/
lemma Construct.forget_tracedPrepare :
    ∀ c : Construct, Traced.forget <$> (c.tracedPrepare stream).forget = c.prepare stream
  | .character c => by simp [Construct.tracedPrepare, Construct.prepare]
  | .oneOf set => by simp [Construct.tracedPrepare, Construct.prepare]
  | .reference span digits => by
    simp [Construct.tracedPrepare, Construct.prepare_reference]
  | .group number body => by
    simp [Construct.tracedPrepare, Construct.prepare, Pattern.forget_traced body]
  | .alternation number branches => by
    simp [Construct.tracedPrepare, Construct.prepare, Branches.forget_tracedProbes,
      Branches.forget_tracedChosen]
  | .encode t argument => by
    simp [Construct.tracedPrepare, Construct.prepare, Argument.forget_traced argument]
  | .expand argument separator => by
    simp [Construct.tracedPrepare, Construct.prepare, Argument.forget_traced argument,
      Argument.forget_tracedLiteral]
  | .byte case => by simp [Construct.tracedPrepare, Construct.prepare]
  | .words count => by
    simp [Construct.tracedPrepare, Construct.prepare, Argument.forget_tracedLiteral]
  | .date first last separator => by
    simp [Construct.tracedPrepare, Construct.prepare, Argument.forget_tracedLiteral]
  | .shuffle argument => by
    simp [Construct.tracedPrepare, Construct.prepare, Argument.forget_traced argument]
  | .optional argument => by
    simp [Construct.tracedPrepare, Construct.prepare, Argument.forget_traced argument]
  | .justify alignment argument width fill => by
    simp [Construct.tracedPrepare, Construct.prepare, Argument.forget_traced argument,
      Argument.forget_tracedLiteral, apply_ite (Functor.map Traced.forget)]

/-- The sample of an argument is the same with notes and without them. -/
lemma Argument.forget_traced : ∀ a : Argument, (a.traced stream).forget = a.sample stream
  | .mk _ body => by simp [Argument.traced, Argument.sample, Pattern.forget_traced body]

/-- The text of a fixed argument is the same with notes and without them. -/
lemma Argument.forget_tracedLiteral (role : LiteralArgument) :
    ∀ a : Argument, (a.tracedLiteral stream role).forget = a.literal stream role
  | .mk span body => by
    simp [Argument.tracedLiteral, Argument.literal, Pattern.forget_traced body]

/-- Probes are the same with notes and without them. -/
lemma Branches.forget_tracedProbes (choice place : Nat) :
    ∀ b : Branches,
      (b.tracedProbes stream choice place).forget = b.probeOthers stream choice place
  | .one _ _ body => by
    simp [Branches.tracedProbes, Branches.probeOthers, Pattern.forget_traced body]
  | .more _ _ body rest => by
    simp [Branches.tracedProbes, Branches.probeOthers, Pattern.forget_traced body,
      Branches.forget_tracedProbes choice (place + 1) rest]

/-- The chosen branch is the same with notes and without them. -/
lemma Branches.forget_tracedChosen :
    ∀ (b : Branches) (choice : Nat), (b.tracedChosen stream choice).forget = b.chosen stream choice
  | .one _ _ body, _ => by
    simp [Branches.tracedChosen, Branches.chosen, Pattern.forget_traced body]
  | .more _ _ body _, 0 => by
    simp [Branches.tracedChosen, Branches.chosen, Pattern.forget_traced body]
  | .more _ _ _ rest, choice + 1 => by
    rw [Branches.tracedChosen, Branches.chosen, Branches.forget_tracedChosen rest choice]

end

/-- A pattern with its history ends as the pattern does. -/
lemma Pattern.snd_traced (t : Pattern) (p : Progress) :
    (t.traced stream p).2 = t.samples stream p :=
  congrFun (Pattern.forget_traced stream t) p

end Forget

/-! ## Whole texts -/

/-- The history of a text as a pattern, in front of which no group has a text. -/
def history (stream : WordStream) (position : Nat) (text : List Char) : List Event :=
  ((Pattern.ofText text).traced stream ⟨position, .empty⟩).1

end PatternSampler
