import PatternSampler.Proofs.Run.Append
import PatternSampler.Proofs.Run.Mirrors

set_option autoImplicit false

/-!
# Repeat counts and repeated texts

A construct without references may be repeated by a count, or its text may be written as often. Both
draw the same words and yield the same text with the same entropy. Several counts in a row repeat
the construct as often as their product says.

## Main definitions

* `Sample.Equivalent` — samples with the same text and the same number of bits.
* `replayed` — an action several times over as one sample.
* `IsUnit` — the text of a single construct that may be written several times instead.
* `braced` — a count as it is written.

## Main results

* `mirrors_instances` — counts repeat an action as often as their product says.
* `IsUnit.mirrors_repeated`, `IsUnit.mirrors_copies` — a construct with counts behind it, and copies
  of its text.
* `IsUnit.mirrors_unrolled` — both are generated alike.

## Implementation notes

Both sides are compared with the same third action: the construct is generated on its own, as often
as needed, each time from where the last time has left off.
-/

namespace PatternSampler

open Run

/-! ## Equivalent samples -/

namespace Sample

/-- Samples with the same text and the same number of bits. -/
def Equivalent (s s' : Sample) : Prop :=
  s.text = s'.text ∧ s.entropy.exact = s'.entropy.exact

variable {s s' s'' : Sample} {samples samples' later later' : List Sample}

/-- A sample is equivalent to itself. -/
protected lemma Equivalent.refl (s : Sample) : s.Equivalent s := ⟨rfl, rfl⟩

/-- Equivalence goes both ways. -/
protected lemma Equivalent.symm (h : s.Equivalent s') : s'.Equivalent s := ⟨h.1.symm, h.2.symm⟩

/-- Two samples that are equivalent to a third one are equivalent. -/
protected lemma Equivalent.trans (h : s.Equivalent s') (h' : s'.Equivalent s'') :
    s.Equivalent s'' := ⟨h.1.trans h'.1, h.2.trans h'.2⟩

/-- Rows that are equivalent when joined stay so one behind the other. -/
lemma Equivalent.join_append (h : (join samples).Equivalent (join samples'))
    (h' : (join later).Equivalent (join later')) :
    (join (samples ++ later)).Equivalent (join (samples' ++ later')) := by
  refine ⟨?_, ?_⟩
  · rw [text_join_append, text_join_append, h.1, h'.1]
  · rw [exact_join_append, exact_join_append, h.2, h'.2]

/-- A single sample stands for itself. -/
lemma equivalent_join_singleton (s : Sample) : (join [s]).Equivalent s :=
  ⟨text_join_singleton s, exact_join_singleton s⟩

/-- Equivalent samples may stand in front of rows that are equivalent when joined. -/
lemma Equivalent.join_cons (h : s.Equivalent s')
    (h' : (join later).Equivalent (join later')) :
    (join (s :: later)).Equivalent (join (s' :: later')) :=
  have hfirst : (join [s]).Equivalent (join [s']) :=
    ((equivalent_join_singleton s).trans h).trans (equivalent_join_singleton s').symm
  hfirst.join_append h'

/-- Samples that are equivalent one by one are equivalent when joined. -/
lemma equivalent_join_of_forall₂ (h : List.Forall₂ Equivalent samples samples') :
    (join samples).Equivalent (join samples') := by
  induction h with
  | nil => exact .refl _
  | cons hs _ ih => exact hs.join_cons ih

/-- Rows of samples that are equivalent when they stand one after the other. -/
def JoinEquivalent (samples samples' : List Sample) : Prop :=
  (join samples).Equivalent (join samples')

/-- Samples may be joined in groups first. -/
lemma equivalent_join_flatten (rows : List (List Sample)) :
    (join (rows.map join)).Equivalent (join rows.flatten) := by
  induction rows with
  | nil => exact .refl _
  | cons row rows ih =>
    rw [List.map_cons, List.flatten_cons]
    exact (equivalent_join_singleton (join row)).join_append ih

end Sample

open Sample

/-! ## Repetition as a row of instances -/

namespace Run

variable {α : Type}

/-- Doing an action `m + n` times is doing it `m` times and then `n` times. -/
lemma replay_add (m n : Nat) (a : Run α) :
    replay (m + n) a = do
      let front ← replay m a
      let back ← replay n a
      return front ++ back := by
  induction m with
  | zero => simp
  | succ m ih =>
    rw [Nat.succ_add, replay_succ, replay_succ, ih]
    simp only [bind_assoc, pure_bind, List.cons_append]

/-- Rows of instances are a longer row. -/
lemma replay_mul (m n : Nat) (a : Run α) :
    replay (m * n) a = do return (← replay n (replay m a)).flatten := by
  induction n with
  | zero => simp
  | succ n ih =>
    rw [Nat.mul_succ, Nat.add_comm, replay_add, replay_succ, ih]
    simp only [bind_assoc, pure_bind, List.flatten_cons]

/-- A function of each result may be applied at the end. -/
lemma replay_map {β : Type} (f : α → β) (n : Nat) (a : Run α) :
    replay n (do return f (← a)) = do return (← replay n a).map f := by
  induction n with
  | zero => rfl
  | succ n ih =>
    rw [replay_succ, replay_succ, ih]
    simp only [bind_assoc, pure_bind, List.map_cons]

/-- Doing an action once yields a row of one result. -/
lemma replay_one (a : Run α) : replay 1 a = do return [← a] := by
  rw [replay_succ, replay_zero]
  simp only [pure_bind]

end Run

/-- A construct on its own, settled and generated once. -/
def Construct.once (stream : WordStream) (c : Construct) : Run Sample := do
  let action ← c.prepare stream
  action

/-- An action `count` times over as one sample. -/
def replayed (count : Nat) (action : Run Sample) : Run Sample := do
  return .join (← Run.replay count action)

section Replayed

variable {action action' : Run Sample}

/-- Rows of instances are the instances one after the other. -/
lemma Run.Mirrors.replayed_replayed (h : action.Mirrors action' Equivalent) (m n : Nat) :
    (replayed n (replayed m action)).Mirrors (replayed (m * n) action') Equivalent := by
  rw [replayed, replayed, replayed, replay_map, replay_mul]
  simp only [bind_assoc, pure_bind]
  refine ((h.replay m).replay n).bind fun rows rows' hrows => mirrors_pure ?_
  have hjoin : List.Forall₂ Equivalent (rows.map Sample.join) (rows'.map Sample.join) := by
    rw [List.forall₂_map_left_iff, List.forall₂_map_right_iff]
    exact hrows.imp fun _ _ => equivalent_join_of_forall₂
  exact (equivalent_join_of_forall₂ hjoin).trans (equivalent_join_flatten rows')

/-- The first instance and those that a count adds to it are a row of instances. -/
lemma mirrors_first_row (h : action.Mirrors action Eq) (n : Nat) {rest : Run (List Sample)}
    (hrest : rest.Mirrors rest Eq) :
    (do
      let first ← action
      let added ← Run.replay n action
      let more ← rest
      return first :: .join added :: more : Run (List Sample)).Mirrors (do
        let row ← replayed (n + 1) action
        let more ← rest
        return row :: more)
      fun samples samples' => (Sample.join samples).Equivalent (Sample.join samples') := by
  simp only [replayed, replay_succ, bind_assoc, pure_bind]
  refine h.bind_eq fun first => (h.replay_eq n).bind_eq fun added => hrest.bind_eq fun more =>
    mirrors_pure ?_
  have hrow : (Sample.join [first, .join added]).Equivalent (.join (first :: added)) :=
    (Equivalent.refl first).join_cons (equivalent_join_singleton _)
  have hsingle : (Sample.join [first, .join added]).Equivalent
      (.join [.join (first :: added)]) := hrow.trans (equivalent_join_singleton _).symm
  exact hsingle.join_append (.refl (.join more))

/-- Counts repeat an action as often as their product says.

**Proof sketch.** By induction on the counts. The first instance and those that the first count adds
are one instance of what the later counts repeat. -/
theorem mirrors_instances (stream : WordStream) {counts : List Nat} (hpos : ∀ n ∈ counts, 0 < n)
    (h : action.Mirrors action' Eq) :
    (do
      let first ← action
      let added ← extras stream (counts.map .exactly) action
      return first :: added : Run (List Sample)).Mirrors
        (do return [← replayed counts.prod action']) JoinEquivalent := by
  induction counts generalizing action action' with
  | nil =>
    rw [List.prod_nil, replayed, replay_one]
    simp only [bind_assoc, pure_bind]
    exact h.bind_eq fun s => mirrors_pure (equivalent_join_singleton _).symm
  | cons n later ih =>
    obtain ⟨hn, hlater⟩ := List.forall_mem_cons.1 hpos
    obtain ⟨n, rfl⟩ := Nat.exists_eq_add_one.2 hn
    have hrow : repeated stream (.exactly (n + 1)) action = replayed (n + 1) action := by
      rw [repeated, RepeatCount.draw, pure_bind, replayed]
    have hreplayed : (replayed (n + 1) action).Mirrors (replayed (n + 1) action') Eq :=
      (h.replay_eq (n + 1)).bind_eq fun _ => mirrors_pure rfl
    have hequivalent : action'.Mirrors action' Equivalent :=
      h.self_right.imp fun s _ hs => hs ▸ .refl s
    have hfirst := mirrors_first_row h.self_left n
      (mirrors_extras stream (later.map .exactly) hreplayed.self_left)
    have hproduct := (hequivalent.replayed_replayed (n + 1) later.prod).bind
      (f := fun s => pure [s]) (g := fun s => pure [s]) fun s s' hs =>
        mirrors_pure (R := JoinEquivalent) (hs.join_cons (.refl _))
    simp only [List.map_cons, extras, RepeatCount.draw, pure_bind, bind_assoc,
      Nat.add_sub_cancel, hrow, List.prod_cons]
    exact (hfirst.trans (ih hlater hreplayed) fun _ _ _ => Equivalent.trans).trans hproduct
      fun _ _ _ => Equivalent.trans

end Replayed

/-! ## Texts of single constructs -/

/-- The text is that of a single construct without references, in which no function is called that
settles an argument. -/
structure IsUnit (text : List Char) (t : Token) : Prop where
  next : ∃ rest, Token.next (.whole text) = .ok (some (t, rest)) ∧ rest.text = []
  construct : ∀ count, t ≠ .repetition count
  repeatable : (Pattern.ofText text).Repeatable

namespace IsUnit

variable {text : List Char} {t : Token}

/-- A single construct is read at once, and nothing is left. -/
lemma next_whole (h : IsUnit text t) :
    Token.next (.whole text) = .ok (some (t, ⟨text.length, []⟩)) := by
  obtain ⟨rest, hnext, hrest⟩ := h.next
  obtain ⟨x, -, hstarts⟩ := Token.next_spelled hnext
  obtain ⟨start, back⟩ := rest
  have htext := hstarts.text_eq
  have hstart := hstarts.start_eq
  simp only [Slice.whole, Nat.zero_add] at hrest htext hstart
  rw [hrest, List.append_nil] at htext
  rw [hnext, hrest, hstart, htext]

/-- A single construct is no reference. -/
lemma ne_reference (h : IsUnit text t) (digits : List Char) : t ≠ .reference digits := by
  rintro rfl
  have hrepeatable := h.repeatable
  rw [Pattern.ofText, Pattern.ofSlice_of_construct h.next_whole (by rw [Construct.ofToken])]
    at hrepeatable
  exact hrepeatable.1.1

/-- The construct is read wherever it stands and whatever follows it. -/
lemma next_append (h : IsUnit text t) (start : Nat) (q : List Char) :
    Token.next ⟨start, text ++ q⟩ =
      .ok (some (t.shift start, ⟨start + text.length, q⟩)) := by
  have hmoved : Token.next ⟨start, text⟩ =
      .ok (some (t.shift start, ⟨start + text.length, []⟩)) := by
    have hshift := Token.next_shift start (.whole text)
    rw [h.next_whole] at hshift
    simpa [Slice.whole, Slice.shift, Nat.add_comm] using hshift
  have hne : ∀ digits, t.shift start ≠ .reference digits := by
    intro digits hdigits
    cases t with
    | reference => exact h.ne_reference _ rfl
    | _ => cases hdigits
  exact Token.next_append hmoved fun digits hdigits => absurd hdigits (hne digits)

variable (stream : WordStream)

/-- The construct is read alike wherever it stands and whatever groups are in front of it. -/
lemma readAlike (h : IsUnit text t) (opened start : Nat) :
    Construct.ReadAlike stream (Construct.ofToken 0 ⟨0, text.length⟩ t)
      (Construct.ofToken opened ⟨start, text.length⟩ (t.shift start)) := by
  have hrepeatable : ∀ c, Construct.ofToken 0 ⟨0, text.length⟩ t = .ok c → c.Repeatable := by
    intro c hc
    have hrepeatable := h.repeatable
    rw [Pattern.ofText, Pattern.ofSlice_of_construct h.next_whole hc] at hrepeatable
    exact hrepeatable.head
  have hspan : (⟨start, text.length⟩ : Span) = Span.shift start ⟨0, text.length⟩ := by
    simp [Span.shift]
  have hnumbers := Construct.mirrors_ofToken
    (fun part _ => Pattern.mirrors_ofSlice stream part) hrepeatable opened
  rw [hspan, Construct.ofToken_shift opened _ t fun part _ opened' =>
    Pattern.ofSlice_shift start opened' part]
  exact hnumbers.shift_right start

variable {stream} {c : Construct}

/-- The samples of the construct with counts behind it, and of what follows them. -/
lemma mirrors_samples (h : IsUnit text t)
    (hc : Construct.ofToken 0 ⟨0, text.length⟩ t = .ok c) (opened start : Nat) {q : List Char}
    {counts : List Nat} (hpos : ∀ n ∈ counts, 0 < n) {rest : Slice}
    (hq : readCounts 1 ⟨start + text.length, q⟩ = ⟨counts.map .exactly, rest, none⟩)
    {later : Run (List Sample)}
    (hlater : ∀ opened,
      ((Pattern.ofSlice opened rest).samples stream).Mirrors later JoinEquivalent) :
    ((Pattern.ofSlice opened ⟨start, text ++ q⟩).samples stream).Mirrors (do
        let s ← replayed counts.prod (c.once stream)
        let more ← later
        return s :: more)
      JoinEquivalent := by
  have halike := h.readAlike stream opened start
  rw [hc] at halike
  cases hc' : Construct.ofToken opened ⟨start, text.length⟩ (t.shift start) with
  | error fault =>
    rw [hc'] at halike
    exact halike.elim
  | ok c' =>
    rw [hc'] at halike
    obtain ⟨action, action', hprepare, hprepare', haction⟩ := halike
    have honce : c.once stream = action := by rw [Construct.once, hprepare, pure_bind]
    rw [Pattern.ofSlice_of_construct (h.next_append start q) (by simpa using hc'), hq,
      Pattern.samples_seq, Construct.instances, hprepare', pure_bind, honce]
    have hinstances := mirrors_instances stream hpos
      (haction.symm.imp fun _ _ h => h.symm : action'.Mirrors action Eq)
    have hsamples := hinstances.bind (S := JoinEquivalent)
      (f := fun here => do
        return here ++ (← (Pattern.ofSlice (opened + (t.shift start).groups) rest).samples stream))
      (g := fun here => do return here ++ (← later)) fun here here' hhere =>
        (hlater _).bind fun more more' hmore => mirrors_pure (hhere.join_append hmore)
    simpa only [bind_assoc, pure_bind, List.singleton_append] using hsamples

/-- The construct on its own draws the same whatever the texts of groups are. -/
lemma mirrors_once (h : IsUnit text t) (hc : Construct.ofToken 0 ⟨0, text.length⟩ t = .ok c) :
    (c.once stream).Mirrors (c.once stream) Eq := by
  have halike := h.readAlike stream 0 0
  rw [hc] at halike
  cases hc' : Construct.ofToken 0 ⟨0, text.length⟩ (t.shift 0) with
  | error fault =>
    rw [hc'] at halike
    exact halike.elim
  | ok c' =>
    rw [hc'] at halike
    obtain ⟨action, action', hprepare, -, haction⟩ := halike
    rw [Construct.once, hprepare, pure_bind]
    exact haction.self_left

/-- Counts whose product is not too large are read up to the end. -/
lemma readCounts_whole {q : List Char} {counts : List Nat}
    (hq : RepeatCount.Spelled (counts.map .exactly) q) (hproduct : counts.prod ≤ maxRepeat)
    (start : Nat) :
    readCounts 1 ⟨start, q⟩ = ⟨counts.map .exactly, ⟨start + q.length, []⟩, none⟩ := by
  have hstarts : (⟨start, q⟩ : Slice).Starts q ⟨start + q.length, []⟩ :=
    ⟨(List.append_nil q).symm, rfl⟩
  have hhigh : 1 * ((counts.map RepeatCount.exactly).map RepeatCount.high).prod ≤ maxRepeat := by
    simpa [List.map_map, Function.comp_def, RepeatCount.high] using hproduct
  exact readCounts_of_spelled hq hstarts (fun count rest => by simp [Token.next]) hhigh

/-- The sample of the construct with counts behind it. -/
lemma mirrors_repeated (h : IsUnit text t)
    (hc : Construct.ofToken 0 ⟨0, text.length⟩ t = .ok c) (opened start : Nat) {q : List Char}
    {counts : List Nat} (hq : RepeatCount.Spelled (counts.map .exactly) q)
    (hproduct : counts.prod ≤ maxRepeat) :
    ((⟨start, text ++ q⟩ : Slice).sample stream opened).Mirrors
      (replayed counts.prod (c.once stream)) Equivalent := by
  have hpos : ∀ n ∈ counts, 0 < n := fun n hn =>
    (hq.valid _ (List.mem_map_of_mem hn)).low_pos
  have hread := readCounts_whole hq hproduct (start + text.length)
  have hnone : ∀ opened, ((Pattern.ofSlice opened ⟨start + text.length + q.length, []⟩).samples
      stream).Mirrors (pure []) JoinEquivalent := fun _ => by
    rw [Pattern.ofSlice]
    exact mirrors_pure (.refl _)
  have hsamples := h.mirrors_samples hc opened start hpos hread hnone
  have hreplayed : (replayed counts.prod (c.once stream)).Mirrors
      (replayed counts.prod (c.once stream)) Eq :=
    ((h.mirrors_once hc).replay_eq _).bind_eq fun _ => mirrors_pure rfl
  have hsingle : (do
      let s ← replayed counts.prod (c.once stream)
      return Sample.join [s]).Mirrors (replayed counts.prod (c.once stream)) Equivalent := by
    rw [← bind_pure (replayed counts.prod (c.once stream))]
    simp only [bind_assoc, pure_bind]
    exact hreplayed.bind_eq fun s => mirrors_pure (equivalent_join_singleton s)
  have hjoin := hsamples.bind (f := fun samples => pure (Sample.join samples))
    (g := fun samples => pure (Sample.join samples)) fun _ _ hsamples =>
      mirrors_pure (R := Equivalent) hsamples
  simp only [bind_assoc, pure_bind] at hjoin
  exact hjoin.trans hsingle fun _ _ _ => Equivalent.trans

end IsUnit

/-! ## Counts in braces -/

/-- A repeat count in its braces. -/
def braced (count : List Char) : List Char := '\x7b' :: (count ++ ['\x7d'])

/-- No closing brace stands in a count. -/
lemma RepeatCount.brace_notMem_of_ofText {body : List Char} {count : RepeatCount}
    (h : ofText body = .ok count) : '\x7d' ∉ body := by
  intro hmem
  rcases isSpecial_of_mem_ofText h hmem with hcomma | hspecial
  · exact absurd hcomma (by decide)
  · exact absurd hspecial (by decide)

/-- One more count in its braces in front of the others. -/
lemma RepeatCount.Spelled.braced {counts : List RepeatCount} {text body : List Char}
    {count : RepeatCount} (hcount : RepeatCount.ofText body = .ok count) (h : Spelled counts text) :
    Spelled (count :: counts) (braced body ++ text) := by
  simpa [PatternSampler.braced] using Spelled.cons (brace_notMem_of_ofText hcount) hcount h

end PatternSampler
