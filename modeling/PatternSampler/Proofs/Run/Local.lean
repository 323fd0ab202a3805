import PatternSampler.Proofs.Run.Ends

set_option autoImplicit false

/-!
# Runs depend on the words that they take

What a run does depends on the words between its first position and its last one, and on no others.
Streams can therefore be cut and put together: if a run from one stream ends where a run from
another one starts, then some stream lets the two follow each other.

## Main definitions

* `Run.stop` — the position behind an action.
* `Run.Local` — an action does the same for streams that agree on the words it takes.
* `Run.Can`, `Run.CanFail` — what an action does for some stream.

## Main results

* `Pattern.local_samples` — a run of a pattern depends on the words that it takes.
* `Run.Can.bind` — what two actions can do, they can do one after the other.
-/

namespace PatternSampler

/-! ## Draws -/

/-- A chunk depends on its words only. -/
lemma chunk_congr {σ τ : WordStream} {n position : Nat}
    (h : ∀ i, position ≤ i → i < position + chunkWords n → σ i = τ i) :
    τ.chunk n position = σ.chunk n position := by
  unfold chunkWords at h
  unfold WordStream.chunk
  split
  · rename_i hn
    rw [if_pos hn] at h
    rw [h position (Nat.le_refl _) (by omega)]
  · rename_i hn
    rw [if_neg hn] at h
    rw [h position (Nat.le_refl _) (by omega), h (position + 1) (by omega) (by omega)]

/-- A draw takes one chunk at least. -/
lemma le_uniform_snd (stream : WordStream) (n position : Nat) :
    position + chunkWords n ≤ (uniform stream n position).2 := by
  simp only [uniform]
  split <;> simp

/-- A draw depends on the words that it takes. -/
lemma uniform_congr {σ τ : WordStream} {n position : Nat}
    (h : ∀ i, position ≤ i → i < (uniform σ n position).2 → σ i = τ i) :
    uniform τ n position = uniform σ n position := by
  have hfirst : τ.chunk n position = σ.chunk n position := by
    refine chunk_congr fun i hi hlt => h i hi ?_
    exact Nat.lt_of_lt_of_le hlt (le_uniform_snd σ n position)
  simp only [uniform, hfirst] at h ⊢
  split
  · rename_i hmore
    rw [if_pos hmore] at h
    have hsecond : τ.chunk n (position + chunkWords n) = σ.chunk n (position + chunkWords n) :=
      chunk_congr fun i hi hlt => h i (by omega) hlt
    rw [hsecond]
  · rfl

/-- Several draws go forward, and depend on the words only that they take. -/
lemma drawEach_congr (σ τ : WordStream) (bounds : List Nat) (position : Nat) :
    position ≤ (drawEach σ bounds position).2 ∧
      ((∀ i, position ≤ i → i < (drawEach σ bounds position).2 → σ i = τ i) →
        drawEach τ bounds position = drawEach σ bounds position) := by
  induction bounds generalizing position with
  | nil => exact ⟨Nat.le_refl _, fun _ => rfl⟩
  | cons bound rest ih =>
    have hfirst := le_uniform_snd σ bound position
    obtain ⟨hle, hrest⟩ := ih (uniform σ bound position).2
    refine ⟨?_, fun h => ?_⟩
    · simp only [drawEach]
      omega
    · simp only [drawEach] at h ⊢
      have hdraw : uniform τ bound position = uniform σ bound position :=
        uniform_congr fun i hi hlt => h i hi (by omega)
      rw [hdraw, hrest fun i hi hlt => h i (by omega) hlt]

namespace Run

variable {α β : Type}

/-! ## Locality -/

/-- The position behind an action. -/
def stop (a : Run α) (p : Progress) : Nat :=
  match a p with
  | .ok _ q => q.position
  | .error _ q => q.position

/-- The action does not go back in the stream, and it does the same for any stream that agrees on
the words which it takes. -/
def Local (a : WordStream → Run α) : Prop :=
  ∀ (σ τ : WordStream) (p : Progress), p.position ≤ (a σ).stop p ∧
    ((∀ i, p.position ≤ i → i < (a σ).stop p → σ i = τ i) → a τ p = a σ p)

/-- Returning a result depends on no words. -/
lemma local_pure (x : α) : Local fun _ => (pure x : Run α) :=
  fun _ _ _ => ⟨Nat.le_refl _, fun _ => rfl⟩

/-- Failing depends on no words. -/
lemma local_throw (fault : Fault) : Local fun _ => (throw fault : Run α) :=
  fun _ _ _ => ⟨Nat.le_refl _, fun _ => rfl⟩

/-- Reading the progress depends on no words. -/
lemma local_get : Local fun _ => (get : Run Progress) :=
  fun _ _ _ => ⟨Nat.le_refl _, fun _ => rfl⟩

/-- Changing the texts of groups depends on no words. -/
lemma local_modify (g : GroupTable → GroupTable) :
    Local fun _ => (modify fun p => { p with groups := g p.groups } : Run PUnit) :=
  fun _ _ _ => ⟨Nat.le_refl _, fun _ => rfl⟩

/-- Recording the text of a group depends on no words. -/
lemma local_record (number : Nat) (text : String) : Local fun _ => record number text :=
  local_modify _

/-- A draw depends only on the words of its chunks. -/
lemma local_choose {n : Nat} (h : 0 < n) : Local fun stream => choose stream n h := by
  intro σ τ p
  refine ⟨?_, fun hagree => ?_⟩
  · show p.position ≤ (uniform σ n p.position).2
    have := le_uniform_snd σ n p.position
    omega
  · have := uniform_congr (τ := τ) (n := n) hagree
    simp only [choose, this]

/-- Two local actions, one behind the other, are local. -/
lemma Local.bind {a : WordStream → Run α} {f : WordStream → α → Run β} (ha : Local a)
    (hf : ∀ x, Local fun stream => f stream x) : Local fun stream => a stream >>= f stream := by
  intro σ τ p
  obtain ⟨hle, hcongr⟩ := ha σ τ p
  simp only [stop] at hle hcongr
  simp only [stop, Bind.bind, EStateM.bind]
  cases hrun : a σ p with
  | error fault q =>
    simp only [hrun] at hle hcongr ⊢
    exact ⟨hle, fun hagree => by rw [hcongr hagree]⟩
  | ok x q =>
    simp only [hrun] at hle hcongr ⊢
    obtain ⟨hle', hcongr'⟩ := hf x σ τ q
    simp only [stop] at hle' hcongr'
    refine ⟨Nat.le_trans hle hle', fun hagree => ?_⟩
    have hfirst : a τ p = .ok x q :=
      hcongr fun i hi hlt => hagree i hi (Nat.lt_of_lt_of_le hlt hle')
    simp only [hfirst]
    exact hcongr' fun i hi hlt => hagree i (Nat.le_trans hle hi) hlt

/-- A choice between two local actions by a condition is local. -/
lemma local_ite {c : Prop} [Decidable c] {a b : WordStream → Run α} (ha : Local a) (hb : Local b) :
    Local fun stream => if c then a stream else b stream := by
  split
  · exact ha
  · exact hb

/-- A probe of a local action is local. -/
lemma Local.probe {a : WordStream → Run α} (ha : Local a) : Local fun stream => probe (a stream) :=
  local_get.bind fun p => ha.bind fun x => (local_modify fun _ => p.groups).bind fun _ =>
    local_pure x

/-- A local action several times over is local. -/
lemma Local.replay {a : WordStream → Run α} (ha : Local a) (count : Nat) :
    Local fun stream => replay count (a stream) := by
  induction count with
  | zero => exact local_pure []
  | succ count ih =>
    simp only [replay_succ]
    exact ha.bind fun x => ih.bind fun xs => local_pure _

/-! ## What can happen -/

/-- The words of one stream in front of a position, and those of another one from there on. -/
def splice (σ τ : WordStream) (position : Nat) : WordStream := fun i =>
  if i < position then σ i else τ i

/-- For some stream the action ends with a result that satisfies `Q`. -/
def Can (a : WordStream → Run α) (p : Progress) (Q : α → Progress → Prop) : Prop :=
  ∃ σ x q, a σ p = .ok x q ∧ Q x q

/-- For some stream the action ends with the mistake. -/
def CanFail (a : WordStream → Run α) (p : Progress) (fault : Fault) : Prop :=
  ∃ σ q, a σ p = .error fault q

variable {a : WordStream → Run α} {f : WordStream → α → Run β} {p : Progress}

/-- What can happen also can happen with a weaker condition. -/
lemma Can.imp {Q Q' : α → Progress → Prop} (h : Can a p Q) (hQ : ∀ x q, Q x q → Q' x q) :
    Can a p Q' := by
  obtain ⟨σ, x, q, hrun, hx⟩ := h
  exact ⟨σ, x, q, hrun, hQ x q hx⟩

/-- What happens for every stream can happen. -/
lemma can_of_ends {Q : α → Progress → Prop} (h : ∀ σ, (a σ).Ends p Q fun _ _ => False) :
    Can a p Q := by
  have h₀ := h fun _ => 0
  unfold Ends at h₀
  split at h₀
  · rename_i x q hrun
    exact ⟨fun _ => 0, x, q, hrun, h₀⟩
  · exact h₀.elim

/-- What fails for one stream can fail. -/
lemma canFail_of_ends {fault : Fault} (σ : WordStream)
    (h : (a σ).Ends p (fun _ _ => False) fun fault' _ => fault' = fault) : CanFail a p fault := by
  unfold Ends at h
  split at h
  · exact h.elim
  · rename_i fault' q hrun
    exact ⟨σ, q, h ▸ hrun⟩

/-- Two runs for two streams, the second one from the position on where the first one ends, are
parts of one run. -/
lemma bind_splice (ha : Local a) (hf : ∀ x, Local fun stream => f stream x) {σ τ : WordStream}
    {x : α} {q : Progress} (hrun : a σ p = .ok x q) :
    (a (splice σ τ q.position) >>= f (splice σ τ q.position)) p = f τ x q := by
  have hfirst : a (splice σ τ q.position) p = .ok x q := by
    rw [← hrun]
    apply (ha σ _ p).2
    intro i _ hlt
    simp only [stop, hrun] at hlt
    exact (if_pos hlt).symm
  simp only [Bind.bind, EStateM.bind, hfirst]
  apply (hf x τ _ q).2
  intro i hi _
  exact (if_neg (Nat.not_lt.2 hi)).symm

/-- What two actions can do, they can do one after the other. -/
lemma Can.bind {Q : β → Progress → Prop} (ha : Local a) (hf : ∀ x, Local fun stream => f stream x)
    (h : Can a p fun x q => Can (fun stream => f stream x) q Q) :
    Can (fun stream => a stream >>= f stream) p Q := by
  obtain ⟨σ, x, q, hrun, τ, y, r, hrun', hy⟩ := h
  exact ⟨splice σ τ q.position, y, r, (bind_splice ha hf hrun).trans hrun', hy⟩

/-- An action can fail in its first part. -/
lemma CanFail.bind_left {fault : Fault} (h : CanFail a p fault) :
    CanFail (fun stream => a stream >>= f stream) p fault := by
  obtain ⟨σ, q, hrun⟩ := h
  exact ⟨σ, q, by simp only [Bind.bind, EStateM.bind, hrun]⟩

/-- An action can fail in its second part, if the first one can lead there. -/
lemma CanFail.bind {fault : Fault} (ha : Local a) (hf : ∀ x, Local fun stream => f stream x)
    (h : Can a p fun x q => CanFail (fun stream => f stream x) q fault) :
    CanFail (fun stream => a stream >>= f stream) p fault := by
  obtain ⟨σ, x, q, hrun, τ, r, hrun'⟩ := h
  exact ⟨splice σ τ q.position, r, (bind_splice ha hf hrun).trans hrun'⟩

end Run

open Run

/-! ## Samples -/

/-- Drawing a count depends only on the words of its draw. -/
lemma local_draw (count : RepeatCount) : Local fun stream => count.draw stream := by
  cases count with
  | exactly count => exact local_pure count
  | between low high => exact (local_choose _).bind fun _ => local_pure _

/-- A construct with a local action stays local when it is repeated. -/
lemma local_repeated (count : RepeatCount) {action : WordStream → Run Sample} (h : Local action) :
    Local fun stream => repeated stream count (action stream) :=
  (local_draw count).bind fun instances => (h.replay instances).bind fun _ => local_pure _

/-- The instances that counts add to a local action are local. -/
lemma local_extras (counts : List RepeatCount) {action : WordStream → Run Sample}
    (h : Local action) : Local fun stream => extras stream counts (action stream) := by
  induction counts generalizing action with
  | nil => exact local_pure []
  | cons count later ih =>
    exact (local_draw count).bind fun instances => (h.replay (instances - 1)).bind fun _ =>
      (ih (local_repeated count h)).bind fun _ => local_pure _

/-- A sample of a set depends only on the words of its draw. -/
lemma local_charSet_sample (set : CharSet) : Local fun stream => set.sample stream := by
  unfold CharSet.sample
  split
  · exact (local_choose _).bind fun _ => local_pure _
  · exact local_pure _

/-- A random byte depends only on the words of its draw. -/
lemma local_sampleByte (case : LetterCase) : Local fun stream => sampleByte stream case :=
  (local_choose _).bind fun _ => local_pure _

/-- Random words depend only on the words of their draws. -/
lemma local_sampleWords (count : Nat) : Local fun stream => sampleWords stream count :=
  (Local.replay ((local_choose _).bind fun _ => local_pure _) count).bind fun _ => local_pure _

/-- A random day depends only on the words of its draw. -/
lemma local_sampleDay (first : Int) (days : Nat) (separator : String) :
    Local fun stream => sampleDay stream first days separator :=
  (local_choose _).bind fun _ => local_ite (local_throw _) (local_pure _)

/-- A shuffle depends only on the words of its draws. -/
lemma local_shuffled (s : Sample) : Local fun stream => s.shuffled stream := by
  intro σ τ p
  obtain ⟨hle, hcongr⟩ := drawEach_congr σ τ
    ((radixGroups s.text.toList.length 1).map RadixGroup.bound) p.position
  refine ⟨hle, fun hagree => ?_⟩
  simp only [Sample.shuffled, shuffle, hcongr hagree]

/-- Leaving a sample out depends only on the words of its draw. -/
lemma local_orNothing (s : Sample) : Local fun stream => s.orNothing stream :=
  (local_choose _).bind fun _ => local_pure _

/-! ## Checks -/

/-- Reading a number takes no words. -/
lemma local_numberOf {α : Type} (read : List Char → Option α) (span : Span) (text : String) :
    Local fun _ => numberOf read span text := by
  unfold numberOf
  split
  · exact local_pure _
  · exact local_throw _

/-- Reading a number of words takes no words. -/
lemma local_wordCountOf (span : Span) (text : String) : Local fun _ => wordCountOf span text :=
  (local_numberOf unsigned? span text).bind fun _ => local_ite (local_throw _) (local_pure _)

/-- The number of days between two years takes no words. -/
lemma local_daysOf (span : Span) (first last : Int) : Local fun _ => daysOf span first last :=
  local_ite (local_throw _) (local_ite (local_throw _) (local_pure _))

/-- Reading a fill takes no words. -/
lemma local_fillOf (span : Span) (text : String) : Local fun _ => fillOf span text := by
  unfold fillOf
  split
  · exact local_pure _
  · exact local_throw _

/-- A transform takes no words. -/
lemma local_transformed (t : Transform) (span : Span) (s : Sample) :
    Local fun _ => s.transformed t span := by
  unfold Sample.transformed
  split
  · exact local_pure _
  · exact local_throw _

/-! ## Trees -/

/-- Preparing the construct settles a value, and the action that it yields depends on nothing else
but the words that it takes. -/
def Construct.Settles (c : Construct) : Prop :=
  ∃ (V : Type) (settle : WordStream → Run V) (act : WordStream → V → Run Sample),
    (∀ stream, c.prepare stream = do return act stream (← settle stream)) ∧
      Local settle ∧ ∀ v, Local fun stream => act stream v

/-- A construct that has nothing to prepare settles if its action is local. -/
lemma Construct.settles_of_pure {c : Construct} {act : WordStream → Run Sample}
    (hprepare : ∀ stream, c.prepare stream = pure (act stream)) (hact : Local act) : c.Settles :=
  ⟨Unit, fun _ => pure (), fun stream _ => act stream, hprepare, local_pure (), fun _ => hact⟩

/-- A reference takes no words. -/
lemma Construct.local_runReference (span : Span) (digits : List Char) :
    Local fun _ => Construct.runReference span digits := by
  apply local_get.bind
  intro p
  split
  · exact local_pure _
  · exact local_throw _

/-- A construct that settles is local together with its repetitions. -/
lemma Construct.Settles.instances {c : Construct} (h : c.Settles) (counts : List RepeatCount) :
    Local fun stream => c.instances stream counts := by
  obtain ⟨V, settle, act, hprepare, hsettle, hact⟩ := h
  simp only [Construct.instances, hprepare, bind_assoc, pure_bind]
  exact hsettle.bind fun v => (hact v).bind fun _ => (local_extras counts (hact v)).bind fun _ =>
    local_pure _

/-- An alternation is local behind its choice if its branches are. -/
lemma Branches.local_runChoice {branches : Branches} (number : Nat) (choice : Fin branches.length)
    (hothers : Local fun stream => branches.probeOthers stream choice 0)
    (hchosen : Local fun stream => branches.chosen stream choice) :
    Local fun stream => branches.runChoice stream number choice :=
  hothers.bind fun _ => hchosen.bind fun _ => (local_modify _).bind fun _ =>
    (local_record number _).bind fun _ => local_pure _

mutual

/-- **Locality**: a run of a pattern depends on the words that it takes. -/
theorem Pattern.local_samples : ∀ t : Pattern, Local fun stream => t.samples stream
  | .done => by
    simp only [Pattern.samples]
    exact local_pure []
  | .stop fault => by
    simp only [Pattern.samples]
    exact local_throw fault
  | .seq head counts rest => by
    simp only [Pattern.samples_seq]
    exact (head.settles.instances counts).bind fun _ => rest.local_samples.bind fun _ =>
      local_pure _

/-- All constructs settle a value and depend on their own words only, by induction on the tree. -/
lemma Construct.settles : ∀ c : Construct, c.Settles
  | .character c => Construct.settles_of_pure (fun _ => by rw [Construct.prepare]) (local_pure _)
  | .oneOf set =>
    Construct.settles_of_pure (fun _ => by rw [Construct.prepare]) (local_charSet_sample set)
  | .byte case =>
    Construct.settles_of_pure (fun _ => by rw [Construct.prepare]) (local_sampleByte case)
  | .reference span digits =>
    ⟨String, fun _ => Construct.runReference span digits, fun _ text => return .fixed text,
      fun stream => Construct.prepare_reference stream span digits,
      Construct.local_runReference span digits, fun _ => local_pure _⟩
  | .group number body =>
    Construct.settles_of_pure (fun _ => by rw [Construct.prepare])
      (body.local_samples.bind fun _ => (local_record number _).bind fun _ => local_pure _)
  | .alternation number branches =>
    Construct.settles_of_pure (fun stream => Construct.prepare_alternation stream number branches)
      ((local_choose branches.length_pos).bind fun choice =>
        Branches.local_runChoice number choice (branches.local_probeOthers choice 0)
          (branches.local_chosen choice))
  | .encode t argument =>
    Construct.settles_of_pure (fun _ => by rw [Construct.prepare])
      (argument.local_sample.bind fun s => local_transformed t _ s)
  | .expand argument separator =>
    ⟨String, fun stream => separator.literal stream .separator,
      fun stream sep => do (← argument.sample stream).transformed (.expand sep) argument.span,
      fun _ => by rw [Construct.prepare], separator.local_literal .separator,
      fun sep => argument.local_sample.bind fun s => local_transformed _ _ s⟩
  | .words count =>
    ⟨Nat, fun stream => do wordCountOf count.span (← count.literal stream .wordCount),
      fun stream number => sampleWords stream number,
      fun _ => by simp only [Construct.prepare, bind_assoc],
      (count.local_literal .wordCount).bind fun _ => local_wordCountOf _ _, local_sampleWords⟩
  | .date first last separator => by
    refine ⟨Int × Nat × String, fun stream => do
      let firstYear ← numberOf signed? first.span (← first.literal stream .year)
      let lastYear ← numberOf signed? last.span (← last.literal stream .year)
      let days ← daysOf (first.span.upTo last.span) firstYear lastYear
      let separator ← separator.literal stream .separator
      return (firstYear, days, separator),
      fun stream v => sampleDay stream v.1 v.2.1 v.2.2, fun stream => ?_, ?_,
      fun v => local_sampleDay _ _ _⟩
    · simp only [Construct.prepare, bind_assoc, pure_bind]
    · exact (first.local_literal .year).bind fun _ => (local_numberOf _ _ _).bind fun _ =>
        (last.local_literal .year).bind fun _ => (local_numberOf _ _ _).bind fun _ =>
          (local_daysOf _ _ _).bind fun _ => (separator.local_literal .separator).bind fun _ =>
            local_pure _
  | .shuffle argument =>
    Construct.settles_of_pure (fun _ => by rw [Construct.prepare])
      (argument.local_sample.bind fun s => local_shuffled s)
  | .optional argument =>
    Construct.settles_of_pure (fun _ => by rw [Construct.prepare])
      (argument.local_sample.bind fun s => local_orNothing s)
  | .justify alignment argument width fill => by
    refine ⟨Nat × Char, fun stream => do
      let columns ← numberOf unsigned? width.span (← width.literal stream .width)
      let filling ← fillOf fill.span (← fill.literal stream .fill)
      if maxRepeat < columns then throw (.within .widthTooLarge width.span)
      return (columns, filling),
      fun stream v => do return (← argument.sample stream).justified alignment v.1 v.2,
      fun stream => ?_, ?_, fun v => argument.local_sample.bind fun _ => local_pure _⟩
    · simp only [Construct.prepare, bind_assoc]
      refine bind_congr fun text => bind_congr fun columns => bind_congr fun text' =>
        bind_congr fun filling => ?_
      split <;> rfl
    · exact (width.local_literal .width).bind fun _ => (local_numberOf _ _ _).bind fun _ =>
        (fill.local_literal .fill).bind fun _ => (local_fillOf _ _).bind fun _ =>
          local_ite (local_throw _) (local_pure _)

/-- The sample of an argument is local. -/
lemma Argument.local_sample : ∀ a : Argument, Local fun stream => a.sample stream
  | .mk _ body => by
    simp only [Argument.sample]
    exact body.local_samples.bind fun _ => local_pure _

/-- Reading the literal text of an argument is local. -/
lemma Argument.local_literal (role : LiteralArgument) :
    ∀ a : Argument, Local fun stream => a.literal stream role
  | .mk _ body => by
    simp only [Argument.literal]
    exact body.local_samples.bind fun _ => local_ite (local_throw _) (local_pure _)

/-- Probing the branches that are not chosen is local. -/
lemma Branches.local_probeOthers :
    ∀ (branches : Branches) (choice place : Nat),
      Local fun stream => branches.probeOthers stream choice place
  | .one _ _ body, choice, place => by
    simp only [Branches.probeOthers]
    exact local_ite (local_pure _) (body.local_samples.probe.bind fun _ => local_pure _)
  | .more _ _ body rest, choice, place => by
    simp only [Branches.probeOthers]
    exact local_ite (rest.local_probeOthers choice (place + 1))
      (body.local_samples.probe.bind fun _ =>
        (rest.local_probeOthers choice (place + 1)).bind fun _ => local_pure _)

/-- Generating the chosen branch is local. -/
lemma Branches.local_chosen :
    ∀ (branches : Branches) (choice : Nat), Local fun stream => branches.chosen stream choice
  | .one _ _ body, choice => by
    simp only [Branches.chosen]
    exact body.local_samples.bind fun _ => local_pure _
  | .more _ _ body _, 0 => by
    simp only [Branches.chosen]
    exact body.local_samples.bind fun _ => local_pure _
  | .more _ _ _ rest, choice + 1 => by
    simp only [Branches.chosen]
    exact rest.local_chosen choice

end

end PatternSampler
