import PatternSampler.Pattern.Generate
import PatternSampler.Proofs.Numeric.Calendar

set_option autoImplicit false

/-!
# How runs end

What an action does is said by two conditions, one on its result and the other on its mistake. The
rules below take an action apart, so that no later argument looks at the states of a run.

## Main definitions

* `Run.Ends` — the end of an action satisfies one of two conditions.
* `Run.Keeps` — an action keeps a condition on the texts of groups.
* `Construct.instances` — the samples of a construct and of its repetitions.
* `Branches.runChoice` — an alternation behind its choice.

## Main results

* `Run.ends_bind` — an action and what follows it.
* `keeps_extras` — the instances that repeat counts add keep what one instance keeps.
* `Construct.keeps_prepare_words`, `Construct.keeps_prepare_date`, `Construct.keeps_prepare_justify`
  — constructs that settle arguments first.
* `Pattern.samples_seq` — a pattern is generated construct by construct.
* `ends_sampleText_of_keeps` — a text ends as its tree does.
-/

namespace PatternSampler

namespace Run

variable {α β : Type}

/-- The action ends with a result that satisfies `Q` or with a mistake that satisfies `E`. -/
def Ends (a : Run α) (p : Progress) (Q : α → Progress → Prop) (E : Fault → Progress → Prop) :
    Prop :=
  match a p with
  | .ok x p' => Q x p'
  | .error fault p' => E fault p'

/-- What holds of the result of a run that ends well. -/
lemma ends_of_eq_ok {a : Run α} {p p' : Progress} {x : α} {Q : α → Progress → Prop}
    {E : Fault → Progress → Prop} (h : a.Ends p Q E) (ha : a p = .ok x p') : Q x p' := by
  rw [Ends, ha] at h
  exact h

/-- What holds of the mistake of a run that fails. -/
lemma ends_of_eq_error {a : Run α} {p p' : Progress} {fault : Fault} {Q : α → Progress → Prop}
    {E : Fault → Progress → Prop} (h : a.Ends p Q E) (ha : a p = .error fault p') : E fault p' := by
  rw [Ends, ha] at h
  exact h

variable {a : Run α} {f : α → Run β} {p : Progress}

/-- Weaker conditions hold as well. -/
lemma Ends.imp {Q Q' : α → Progress → Prop} {E E' : Fault → Progress → Prop} (h : a.Ends p Q E)
    (hQ : ∀ x p', Q x p' → Q' x p') (hE : ∀ fault p', E fault p' → E' fault p') :
    a.Ends p Q' E' := by
  unfold Ends at *
  split
  · rename_i ha
    rw [ha] at h
    exact hQ _ _ h
  · rename_i ha
    rw [ha] at h
    exact hE _ _ h

/-- A run that ends with a condition on its result also ends with a weaker one. -/
lemma Ends.imp_left {Q Q' : α → Progress → Prop} {E : Fault → Progress → Prop} (h : a.Ends p Q E)
    (hQ : ∀ x p', Q x p' → Q' x p') : a.Ends p Q' E :=
  h.imp hQ fun _ _ h => h

/-- A run that ends with a condition on its mistake also ends with a weaker one. -/
lemma Ends.imp_right {Q : α → Progress → Prop} {E E' : Fault → Progress → Prop} (h : a.Ends p Q E)
    (hE : ∀ fault p', E fault p' → E' fault p') : a.Ends p Q E' :=
  h.imp (fun _ _ h => h) hE

/-- A run that ends with two pairs of conditions ends with both of each kind. -/
lemma Ends.and {Q Q' : α → Progress → Prop} {E E' : Fault → Progress → Prop} (h : a.Ends p Q E)
    (h' : a.Ends p Q' E') :
    a.Ends p (fun x q => Q x q ∧ Q' x q) (fun fault q => E fault q ∧ E' fault q) := by
  unfold Ends at *
  cases ha : a p with
  | ok x q =>
    simp only [ha] at h h' ⊢
    exact ⟨h, h'⟩
  | error fault q =>
    simp only [ha] at h h' ⊢
    exact ⟨h, h'⟩

variable {Q : α → Progress → Prop} {R : β → Progress → Prop} {E : Fault → Progress → Prop}

/-- Returning a result ends with this result. -/
@[simp] lemma ends_pure (x : α) : (pure x : Run α).Ends p Q E ↔ Q x p := Iff.rfl

/-- Failing ends with the mistake. -/
@[simp] lemma ends_throw (fault : Fault) : (throw fault : Run α).Ends p Q E ↔ E fault p := Iff.rfl

/-- An action and what follows it. -/
@[simp] lemma ends_bind :
    (a >>= f).Ends p R E ↔ a.Ends p (fun x p' => (f x).Ends p' R E) E := by
  simp only [Ends, bind, EStateM.bind]
  cases a p <;> rfl

/-- What follows an action has to end well wherever the action does. -/
lemma Ends.bind (ha : a.Ends p Q E) (hf : ∀ x q, Q x q → (f x).Ends q R E) :
    (a >>= f).Ends p R E := by
  rw [ends_bind]
  exact ha.imp_left hf

/-- Both actions that a condition chooses between end alike. -/
lemma ends_ite {c : Prop} [Decidable c] {b : Run α} (hthen : c → a.Ends p Q E)
    (helse : ¬c → b.Ends p Q E) : (if c then a else b).Ends p Q E := by
  split
  · exact hthen ‹_›
  · exact helse ‹_›

/-- Reading the progress yields the progress. -/
@[simp] lemma ends_get {Q : Progress → Progress → Prop} :
    (get : Run Progress).Ends p Q E ↔ Q p p := Iff.rfl

/-- Changing the progress yields nothing and ends with the changed progress. -/
@[simp] lemma ends_modify (g : Progress → Progress) {Q : PUnit → Progress → Prop} :
    (modify g : Run PUnit).Ends p Q E ↔ Q ⟨⟩ (g p) := Iff.rfl

/-- Recording a text ends with the text in the table. -/
@[simp] lemma ends_record (number : Nat) (text : String) {Q : Unit → Progress → Prop} :
    (record number text).Ends p Q E ↔ Q () { p with groups := p.groups.record number text } :=
  Iff.rfl

/-- A draw yields the number that the stream has at the position. -/
lemma ends_choose (stream : WordStream) {n : Nat} (h : 0 < n) {Q : Fin n → Progress → Prop} :
    (choose stream n h).Ends p Q E ↔
      Q ⟨(uniform stream n p.position).1, uniform_lt stream p.position h⟩
        { p with position := (uniform stream n p.position).2 } := Iff.rfl

/-- A probe ends as its action does, but with the old texts of groups. -/
@[simp] lemma ends_probe :
    (probe a).Ends p Q E ↔ a.Ends p (fun x p' => Q x { p' with groups := p.groups }) E := by
  simp only [probe, ends_bind, ends_get]
  rfl

/-- Nothing is done no times over. -/
@[simp] lemma replay_zero (a : Run α) : replay 0 a = pure [] := rfl

/-- The results are collected in reverse order. -/
private lemma replayOnto_succ (count : Nat) (a : Run α) (results : List α) :
    replayOnto a (count + 1) results = a >>= fun x => replayOnto a count (x :: results) := by
  funext p
  simp only [replayOnto, bind, EStateM.bind]
  cases a p <;> rfl

/-- Collecting adds the later results behind the earlier ones. -/
private lemma replayOnto_eq (count : Nat) (a : Run α) (results : List α) :
    replayOnto a count results = do return results.reverse ++ (← replay count a) := by
  induction count generalizing results with
  | zero =>
    rw [replay_zero, pure_bind, List.append_nil]
    rfl
  | succ count ih =>
    rw [replay, replayOnto_succ, replayOnto_succ, bind_assoc]
    apply bind_congr
    intro x
    rw [ih (x :: results), ih [x]]
    simp

/-- The first instance of an action and then the others. -/
lemma replay_succ (count : Nat) (a : Run α) :
    replay (count + 1) a = do
      let x ← a
      let xs ← replay count a
      return x :: xs := by
  rw [replay, replayOnto_succ]
  apply bind_congr
  intro x
  rw [replayOnto_eq]
  rfl

/-- An action several times over keeps a condition that one instance of it keeps, and each of its
results satisfies what one of them satisfies. -/
lemma ends_replay {I : Progress → Prop} {P : α → Prop}
    (ha : ∀ q, I q → a.Ends q (fun x q' => I q' ∧ P x) E) (count : Nat) (hp : I p) :
    (replay count a).Ends p (fun xs q => I q ∧ xs.length = count ∧ ∀ x ∈ xs, P x) E := by
  induction count generalizing p with
  | zero =>
    rw [replay_zero, ends_pure]
    exact ⟨hp, rfl, by simp⟩
  | succ count ih =>
    rw [replay_succ]
    apply (ha p hp).bind
    rintro x q ⟨hq, hx⟩
    apply (ih hq).bind
    rintro xs r ⟨hr, hlength, hxs⟩
    rw [ends_pure]
    exact ⟨hr, by simp [hlength], by simpa using ⟨hx, hxs⟩⟩

/-! ## Conditions on the texts of groups -/

/-- Wherever the condition `I` on the texts of groups holds, the action keeps it. Its result
satisfies `P`, and its mistake satisfies `F`. -/
def Keeps (a : Run α) (I : GroupTable → Prop) (P : α → Prop) (F : Fault → Prop) : Prop :=
  ∀ p : Progress, I p.groups → a.Ends p (fun x q => I q.groups ∧ P x) fun fault _ => F fault

variable {I : GroupTable → Prop} {P P' : α → Prop} {P₂ : β → Prop} {F : Fault → Prop}

/-- Two actions that keep a condition keep it one behind the other. -/
lemma Keeps.bind (ha : a.Keeps I P F) (hf : ∀ x, P x → (f x).Keeps I P₂ F) :
    (a >>= f).Keeps I P₂ F := by
  intro p hp
  exact (ha p hp).bind fun x q hq => hf x hq.2 q hq.1

/-- Weaker conditions on the result hold as well. -/
lemma Keeps.imp (ha : a.Keeps I P F) (h : ∀ x, P x → P' x) : a.Keeps I P' F := fun p hp =>
  (ha p hp).imp_left fun x _ hq => ⟨hq.1, h x hq.2⟩

/-- Returning a result keeps any condition on the texts of groups. -/
lemma keeps_pure {x : α} (h : P x) : (pure x : Run α).Keeps I P F := fun _ hp => ⟨hp, h⟩

/-- Failing keeps any condition on the texts of groups. -/
lemma keeps_throw {fault : Fault} (h : F fault) : (throw fault : Run α).Keeps I P F := fun _ _ => h

/-- Both actions that a condition chooses between keep the condition on the texts. -/
lemma keeps_ite {c : Prop} [Decidable c] {b : Run α} (hthen : c → a.Keeps I P F)
    (helse : ¬c → b.Keeps I P F) : (if c then a else b).Keeps I P F := by
  split
  · exact hthen ‹_›
  · exact helse ‹_›

/-- A draw does not look at the texts of groups. -/
lemma keeps_choose (stream : WordStream) {n : Nat} (h : 0 < n) :
    (choose stream n h).Keeps I (fun _ => True) F := fun _ hp => ⟨hp, trivial⟩

/-- A probe keeps every condition on the texts of groups. -/
lemma Keeps.probe (ha : a.Keeps I P F) : (probe a).Keeps I P F := fun p hp =>
  ends_probe.2 ((ha p hp).imp_left fun _ _ hq => ⟨hp, hq.2⟩)

/-- Any change of the texts of groups keeps the trivial condition. -/
lemma keeps_modify (g : Progress → Progress) :
    (modify g : Run PUnit).Keeps (fun _ => True) (fun _ => True) F := fun _ _ => ⟨trivial, trivial⟩

/-- Recording a text keeps nothing in particular. -/
lemma keeps_record (number : Nat) (text : String) :
    (record number text).Keeps (fun _ => True) (fun _ => True) F := keeps_modify _

/-- Every action keeps the trivial conditions. -/
lemma keeps_trivial (a : Run α) : a.Keeps (fun _ => True) (fun _ => True) fun _ => True := by
  intro p _
  unfold Ends
  split <;> trivial

/-- An action that keeps a condition keeps it several times over, and yields as many results. -/
lemma Keeps.replay (ha : a.Keeps I P F) (count : Nat) :
    (replay count a).Keeps I (fun xs => xs.length = count ∧ ∀ x ∈ xs, P x) F := fun p hp =>
  ends_replay (I := fun q => I q.groups) (fun q hq => ha q hq) count (p := p) hp

end Run

open Run

variable {I : GroupTable → Prop} {F : Fault → Prop}

/-! ## Repetition -/

/-- Drawing a count does not look at the texts of groups. -/
lemma keeps_draw (stream : WordStream) (count : RepeatCount) :
    (count.draw stream).Keeps I (fun _ => True) F := by
  cases count with
  | exactly => exact keeps_pure trivial
  | between => exact (keeps_choose stream _).bind fun _ _ => keeps_pure trivial

section Repetition

variable {P : Sample → Prop} {action : Run Sample}

/-- A repeated construct has a property of its instances that joining keeps. -/
lemma keeps_repeated (stream : WordStream) (count : RepeatCount)
    (hjoin : ∀ samples, (∀ s ∈ samples, P s) → P (.join samples)) (h : action.Keeps I P F) :
    (repeated stream count action).Keeps I P F :=
  (keeps_draw stream count).bind fun instances _ => (h.replay instances).bind fun samples hs =>
    keeps_pure (hjoin samples hs.2)

/-- The instances that repeat counts add keep what one instance keeps. -/
lemma keeps_extras (stream : WordStream) (counts : List RepeatCount)
    (hjoin : ∀ samples, (∀ s ∈ samples, P s) → P (.join samples)) (h : action.Keeps I P F) :
    (extras stream counts action).Keeps I (fun added => ∀ s ∈ added, P s) F := by
  induction counts generalizing action with
  | nil => exact keeps_pure (by simp)
  | cons count later ih =>
    apply (keeps_draw stream count).bind
    intro instances _
    apply (h.replay (instances - 1)).bind
    intro samples hs
    refine (ih (keeps_repeated stream count hjoin h)).bind fun more hmore => keeps_pure ?_
    rw [List.forall_mem_cons]
    exact ⟨hjoin samples hs.2, hmore⟩

end Repetition

/-! ## Entropies -/

/-- A sum is positive if one of its parts is. -/
lemma anyPositive_eq (parts : List Entropy) :
    Entropy.anyPositive parts = parts.any Entropy.isPositive := by
  induction parts with
  | nil => rfl
  | cons part rest ih => rw [Entropy.anyPositive, ih, List.any_cons]

/-- Samples together are random if one of them is. -/
lemma isPositive_join (samples : List Sample) :
    (Sample.join samples).entropy.isPositive = samples.any fun s => s.entropy.isPositive := by
  simp only [Sample.join, Entropy.isPositive, anyPositive_eq, List.any_map]
  rfl

/-! ## Random parts -/

/-- A random byte carries eight bits. -/
lemma keeps_sampleByte (stream : WordStream) (case : LetterCase) :
    (sampleByte stream case).Keeps I (fun s => s.entropy = .choice 256) F :=
  (keeps_choose stream _).bind fun _ _ => keeps_pure rfl

/-- Each of the random words is a choice among 2048 ones. -/
lemma keeps_sampleWords (stream : WordStream) (count : Nat) :
    (sampleWords stream count).Keeps I
      (fun s => s.entropy = .sum (List.replicate count (.choice 2048))) F := by
  have hword : (sampleWord stream).Keeps I (fun s => s.entropy = .choice 2048) F :=
    (keeps_choose stream _).bind fun _ _ => keeps_pure rfl
  refine (hword.replay count).bind fun words hwords => keeps_pure ?_
  rw [← hwords.1, ← List.length_map Sample.entropy]
  exact congrArg Entropy.sum
    (List.eq_replicate_iff.2 ⟨rfl, List.forall_mem_map.2 hwords.2⟩)

/-- A day of the calendar is sampled without a mistake. -/
lemma keeps_sampleDay (stream : WordStream) {first : Int} {days : Nat} (separator : String)
    (h : daysBefore first + days < daysBefore (Date.lastYear + 1)) :
    (sampleDay stream first days separator).Keeps I
      (fun s => s.entropy = .choice (days + 1)) F := by
  apply (keeps_choose stream _).bind
  intro day _
  have hday := day.isLt
  have hyear : (Date.ofDayNumber (daysBefore first + day)).year < Date.lastYear + 1 :=
    Date.year_ofDayNumber_lt (by omega)
  exact keeps_ite (fun hlate => absurd hlate (by omega)) fun _ => keeps_pure rfl

/-- A set carries the entropy of its size. -/
lemma keeps_charSet_entropy (stream : WordStream) (set : CharSet) :
    (set.sample stream).Keeps I
      (fun s => s.entropy = if 0 < set.size then .choice set.size else .zero) F := by
  unfold CharSet.sample
  split
  · exact (keeps_choose stream _).bind fun _ _ => keeps_pure rfl
  · exact keeps_pure rfl

/-- A set is random if it has two members. -/
lemma keeps_charSet_sample (stream : WordStream) (set : CharSet) :
    (set.sample stream).Keeps I (fun s => s.entropy.isPositive = decide (2 ≤ set.size)) F := by
  refine (keeps_charSet_entropy stream set).imp fun s hs => ?_
  rw [hs]
  split
  · rfl
  · rw [Entropy.zero, Entropy.isPositive, Entropy.anyPositive]
    exact (decide_eq_false (by omega)).symm

/-- A shuffle keeps the entropy of the sample. -/
lemma keeps_shuffled (stream : WordStream) (s : Sample) :
    (s.shuffled stream).Keeps I (fun s' => s'.entropy = s.entropy) F := fun _ hp => ⟨hp, rfl⟩

/-- A sample that may be left out carries the entropy of the choice alone. -/
lemma keeps_orNothing (stream : WordStream) (s : Sample) :
    (s.orNothing stream).Keeps I (fun s' => s'.entropy = .choice 2) F :=
  (keeps_choose stream _).bind fun _ _ => keeps_pure rfl

/-! ## Checks of fixed arguments -/

section Checks

variable {span : Span}

/-- A number is read from the text, or the call is at fault. -/
lemma keeps_numberOf {α : Type} (read : List Char → Option α) (text : String)
    (hF : ∀ cause : Cause, cause.kind ≠ .unknown → F (.within cause span)) :
    (numberOf read span text).Keeps I (fun number => read text.toList = some number) F := by
  unfold numberOf
  split
  · exact keeps_pure ‹_›
  · exact keeps_throw (hF _ (by simp))

/-- A number of words is read from the text and positive, or the call is at fault. -/
lemma keeps_wordCountOf (text : String)
    (hF : ∀ cause : Cause, cause.kind ≠ .unknown → F (.within cause span)) :
    (wordCountOf span text).Keeps I
      (fun count => unsigned? text.toList = some count ∧ 0 < count) F :=
  (keeps_numberOf unsigned? text hF).bind fun count hcount =>
    keeps_ite (fun _ => keeps_throw (hF _ (by simp))) fun h => keeps_pure ⟨hcount, by omega⟩

/-- The days of years of the calendar end with the calendar. -/
lemma keeps_daysOf (first last : Int)
    (hF : ∀ cause : Cause, cause.kind ≠ .unknown → F (.within cause span)) :
    (daysOf span first last).Keeps I
      (fun days => days + 1 = ∑ year ∈ Finset.Icc first last, daysInYear year ∧
        daysBefore first + days < daysBefore (Date.lastYear + 1)) F := by
  unfold daysOf
  refine keeps_ite (fun _ => keeps_throw (hF _ (by simp))) fun hordered =>
    keeps_ite (fun _ => keeps_throw (hF _ (by simp))) fun hinside => keeps_pure ?_
  have hsum := sum_daysInYear (Int.not_lt.1 hordered)
  have hmono := daysBefore_mono (Int.not_lt.1 hordered)
  have hsucc := daysBefore_succ last
  have hlength := le_daysInYear last
  have hend : daysBefore (last + 1) ≤ daysBefore (Date.lastYear + 1) :=
    daysBefore_mono (by omega)
  omega

/-- A fill is read from the text, or the call is at fault. -/
lemma keeps_fillOf (text : String)
    (hF : ∀ cause : Cause, cause.kind ≠ .unknown → F (.within cause span)) :
    (fillOf span text).Keeps I (fun _ => True) F := by
  unfold fillOf
  split
  · exact keeps_pure trivial
  · exact keeps_throw (hF _ (by simp))

/-- A transform keeps the entropy, or the call is at fault. -/
lemma keeps_transformed (t : Transform) (s : Sample)
    (hF : ∀ cause : Cause, cause.kind ≠ .unknown → F (.within cause span)) :
    (s.transformed t span).Keeps I (fun s' => s'.entropy = s.entropy) F := by
  unfold Sample.transformed
  split
  · exact keeps_pure rfl
  · exact keeps_throw (hF _ (by simp))

end Checks

/-! ## Constructs and their repetitions -/

/-- The samples of a construct and of its repetitions, in order. -/
def Construct.instances (stream : WordStream) (c : Construct) (counts : List RepeatCount) :
    Run (List Sample) := do
  let action ← c.prepare stream
  let first ← action
  let added ← extras stream counts action
  return first :: added

/-- The instances of a construct satisfy what one instance satisfies. -/
lemma Construct.keeps_instances {stream : WordStream} {c : Construct} {P : Sample → Prop}
    (hjoin : ∀ samples, (∀ s ∈ samples, P s) → P (.join samples))
    (h : (c.prepare stream).Keeps I (fun action => action.Keeps I P F) F)
    (counts : List RepeatCount) :
    (c.instances stream counts).Keeps I (fun samples => ∀ s ∈ samples, P s) F := by
  apply h.bind
  intro action haction
  apply haction.bind
  intro first hfirst
  refine (keeps_extras stream counts hjoin haction).bind fun added hadded => keeps_pure ?_
  rw [List.forall_mem_cons]
  exact ⟨hfirst, hadded⟩

/-- What an alternation does behind its choice. -/
def Branches.runChoice (stream : WordStream) (number : Nat) (branches : Branches)
    (choice : Fin branches.length) : Run Sample := do
  let others ← branches.probeOthers stream choice 0
  let s ← branches.chosen stream choice
  modify fun progress => { progress with groups := branches.clearOthers choice progress.groups }
  Run.record number s.text
  return ⟨s.text, .sum [.choice branches.length, .least s.entropy others]⟩

/-- An alternation draws a branch when it is generated, and has nothing to prepare. -/
lemma Construct.prepare_alternation (stream : WordStream) (number : Nat) (branches : Branches) :
    (Construct.alternation number branches).prepare stream =
      pure (choose stream branches.length branches.length_pos >>=
        branches.runChoice stream number) := by
  rw [Construct.prepare]
  rfl

/-- Reads the text that a reference repeats. -/
def Construct.runReference (span : Span) (digits : List Char) : Run String := do
  match (decimal? digits).bind (← get).groups.text? with
  | some text => return text
  | none => throw (.within (.invalidReference (String.ofList digits)) span)

/-- A reference yields the text of its group, or the group has none. -/
lemma Construct.runReference_apply (span : Span) (digits : List Char) (p : Progress) :
    runReference span digits p = match (decimal? digits).bind p.groups.text? with
      | some text => .ok text p
      | none => .error (.within (.invalidReference (String.ofList digits)) span) p := by
  simp only [runReference, bind, EStateM.bind, get, getThe, MonadStateOf.get, EStateM.get]
  cases (decimal? digits).bind p.groups.text? <;> rfl

/-- A reference is settled when it is prepared. -/
lemma Construct.prepare_reference (stream : WordStream) (span : Span) (digits : List Char) :
    (Construct.reference span digits).prepare stream = do
      let text ← runReference span digits
      return return .fixed text := by
  rw [Construct.prepare, runReference, bind_assoc]
  refine congrArg (get >>= ·) (funext fun p => ?_)
  cases (decimal? digits).bind p.groups.text? <;> rfl

section Settled

variable {stream : WordStream} {P : Run Sample → Prop}

/-- The number of words is settled before any word is drawn. -/
lemma Construct.keeps_prepare_words {count : Argument} {Q : String → Prop}
    (hcount : (count.literal stream .wordCount).Keeps I Q F)
    (hF : ∀ cause : Cause, cause.kind ≠ .unknown → F (.within cause count.span))
    (h : ∀ text number, Q text → unsigned? text.toList = some number → 0 < number →
      P (sampleWords stream number)) :
    ((Construct.words count).prepare stream).Keeps I P F := by
  rw [Construct.prepare]
  exact hcount.bind fun text htext => (keeps_wordCountOf text hF).bind fun number hnumber =>
    keeps_pure (h text number htext hnumber.1 hnumber.2)

/-- The days are settled before one of them is drawn. -/
lemma Construct.keeps_prepare_date {first last separator : Argument} {Q Q' : String → Prop}
    (hfirst : (first.literal stream .year).Keeps I Q F)
    (hlast : (last.literal stream .year).Keeps I Q' F)
    (hseparator : (separator.literal stream .separator).Keeps I (fun _ => True) F)
    (hF : ∀ span ∈ [first.span, last.span, first.span.upTo last.span],
      ∀ cause : Cause, cause.kind ≠ .unknown → F (.within cause span))
    (h : ∀ firstText lastText firstYear lastYear days separator, Q firstText → Q' lastText →
      signed? firstText.toList = some firstYear → signed? lastText.toList = some lastYear →
      days + 1 = ∑ year ∈ Finset.Icc firstYear lastYear, daysInYear year →
      (sampleDay stream firstYear days separator).Keeps I
        (fun s => s.entropy = .choice (days + 1)) F →
      P (sampleDay stream firstYear days separator)) :
    ((Construct.date first last separator).prepare stream).Keeps I P F := by
  simp only [List.forall_mem_cons] at hF
  rw [Construct.prepare]
  exact hfirst.bind fun firstText hfirstText =>
    (keeps_numberOf signed? firstText hF.1).bind fun firstYear hfirstYear =>
      hlast.bind fun lastText hlastText =>
        (keeps_numberOf signed? lastText hF.2.1).bind fun lastYear hlastYear =>
          (keeps_daysOf firstYear lastYear hF.2.2.1).bind fun days hdays =>
            hseparator.bind fun separator _ =>
              keeps_pure (h firstText lastText firstYear lastYear days separator hfirstText
                hlastText hfirstYear hlastYear hdays.1 (keeps_sampleDay stream separator hdays.2))

/-- The width and the fill of a field are settled before its text is generated. -/
lemma Construct.keeps_prepare_justify {alignment : Alignment} {argument width fill : Argument}
    (hwidth : (width.literal stream .width).Keeps I (fun _ => True) F)
    (hfill : (fill.literal stream .fill).Keeps I (fun _ => True) F)
    (hF : ∀ span ∈ [width.span, fill.span],
      ∀ cause : Cause, cause.kind ≠ .unknown → F (.within cause span))
    (h : ∀ columns filling,
      P do return (← argument.sample stream).justified alignment columns filling) :
    ((Construct.justify alignment argument width fill).prepare stream).Keeps I P F := by
  simp only [List.forall_mem_cons] at hF
  rw [Construct.prepare]
  exact hwidth.bind fun widthText _ =>
    (keeps_numberOf unsigned? widthText hF.1).bind fun columns _ => hfill.bind fun fillText _ =>
      (keeps_fillOf fillText hF.2.1).bind fun filling _ =>
        keeps_ite (fun _ => keeps_throw (hF.1 _ (by simp))) fun _ => keeps_pure (h columns filling)

end Settled

/-- The samples of the first construct of a pattern, and of what follows it. -/
lemma Pattern.samples_seq (stream : WordStream) (head : Construct) (counts : List RepeatCount)
    (rest : Pattern) :
    (Pattern.seq head counts rest).samples stream = do
      let here ← head.instances stream counts
      let later ← rest.samples stream
      return here ++ later := by
  simp only [Pattern.samples, Construct.instances, bind_assoc, pure_bind, List.cons_append]

/-! ## Whole patterns -/

section Generate

variable {stream : WordStream} {position : Nat} {pattern : String}

/-- Generating ends well if the run of the whole text does. -/
lemma generate_eq_ok {s : Sample} (h : (generate stream position pattern).result = .ok s) :
    ∃ q, sampleText stream pattern.toList ⟨position, .empty⟩ = .ok s q := by
  unfold generate at h
  split at h <;> cases h
  exact ⟨_, ‹_›⟩

/-- Generating fails with the mistake of the run of the whole text. -/
lemma generate_eq_error {fault : Fault}
    (h : (generate stream position pattern).result = .error fault) :
    ∃ q, sampleText stream pattern.toList ⟨position, .empty⟩ = .error fault q := by
  unfold generate at h
  split at h <;> cases h
  exact ⟨_, ‹_›⟩

/-- A text that is not too long ends as its tree does. -/
lemma ends_sampleText_of_keeps {P : List Sample → Prop} {text : List Char}
    (h : ((Pattern.ofText text).samples stream).Keeps (fun _ => True) P F) (p : Progress) :
    (sampleText stream text).Ends p (fun s _ => ∃ samples, P samples ∧ s = .join samples)
      fun fault _ => (maxPatternLength < text.length ∧ fault = ⟨.tooLong, none⟩) ∨
        (¬maxPatternLength < text.length ∧ F fault) := by
  unfold sampleText
  exact ends_ite (fun hlong => .inl ⟨hlong, rfl⟩) fun hshort =>
    ((h p trivial).imp_right fun _ _ hfault => .inr ⟨hshort, hfault⟩).bind
      fun samples _ hsamples => ⟨samples, hsamples.2, rfl⟩

end Generate

end PatternSampler
