import PatternSampler.Proofs.Numbering.Frame
import PatternSampler.Proofs.Numbering.Walk

set_option autoImplicit false

/-!
# The counter and the count

The counter that moves along the text and the numbers that stand in the tree are two ways to number
the groups. Here they are shown to be the same: between two tokens the counter has moved by the
number of groups that the scan counts in the text in front, and generating along the text does
exactly what generating from the tree does.

## Main definitions

* `Walk.Tracks` — an action does what another one does, and moves the counter.

## Main results

* `Walk.prepares_ofToken` — a construct is prepared, and generated, as in the tree.
* `tracks_walk` — a slice is generated as its tree.
* `opened_eq_countGroups` — the counter, the scan, and the groups that are filled.
-/

namespace PatternSampler

namespace Walk

/-! ## Tracking -/

section Tracks

variable {α β γ δ : Type}

/-- With the counter at `b`, the action `x` does what `y` does. If it ends well, its result is
related to the result of `y`, and the counter stands at `b'`. -/
def Tracks (x : Walk α) (y : Run β) (R : α → β → Prop) (b b' : Nat) : Prop :=
  ∀ p : Progress, match y p with
    | .ok v q => ∃ u, x ⟨p, b⟩ = .ok u ⟨q, b'⟩ ∧ R u v
    | .error fault q => ∃ n, x ⟨p, b⟩ = .error fault ⟨q, n⟩

variable {x : Walk α} {y : Run β} {R : α → β → Prop} {R' : γ → δ → Prop} {b m b' : Nat}

/-- What follows from a run of the walk that ends well: the tree ends well with a related result,
and the counter stands where it should. -/
lemma Tracks.of_eq_ok (h : Tracks x y R b b') {p : Progress} {u : α} {l : Ledger}
    (hx : x ⟨p, b⟩ = .ok u l) : ∃ v q, y p = .ok v q ∧ l = ⟨q, b'⟩ ∧ R u v := by
  have hp := h p
  split at hp
  · rename_i v q hy
    obtain ⟨u', hu', hR⟩ := hp
    rw [hx] at hu'
    simp only [EStateM.Result.ok.injEq] at hu'
    exact ⟨v, q, hy, hu'.2, hu'.1 ▸ hR⟩
  · obtain ⟨n, hn⟩ := hp
    rw [hx] at hn
    cases hn

/-- Returning related results agrees and leaves the counter. -/
lemma tracks_pure {u : α} {v : β} (h : R u v) : Tracks (pure u) (pure v) R b b :=
  fun _ => ⟨u, rfl, h⟩

/-- A mistake is the same on both sides. -/
lemma tracks_throw (fault : Fault) : Tracks (throw fault) (throw fault : Run β) R b b' :=
  fun _ => ⟨b, rfl⟩

/-- Actions one behind the other agree if both do, and the counter passes from the first to the
second. -/
lemma Tracks.bind {f : α → Walk γ} {g : β → Run δ} (h : Tracks x y R b m)
    (hf : ∀ u v, R u v → Tracks (f u) (g v) R' m b') : Tracks (x >>= f) (y >>= g) R' b b' := by
  intro p
  have hp := h p
  simp only [Bind.bind, EStateM.bind]
  cases hy : y p with
  | ok v q =>
    rw [hy] at hp
    obtain ⟨u, hu, hR⟩ := hp
    simp only [hu]
    exact hf u v hR q
  | error fault q =>
    rw [hy] at hp
    obtain ⟨n, hn⟩ := hp
    exact ⟨n, by simp only [hn]⟩

/-- What follows two actions with the same result. -/
lemma Tracks.bind_eq {y : Run α} {f : α → Walk γ} {g : α → Run δ} (h : Tracks x y Eq b m)
    (hf : ∀ v, Tracks (f v) (g v) R' m b') : Tracks (x >>= f) (y >>= g) R' b b' :=
  h.bind fun _ v huv => huv ▸ hf v

/-- An action of the walk may follow behind which the tree has nothing more to do. -/
lemma Tracks.bind_left {f : α → Walk γ} {R' : γ → β → Prop} (h : Tracks x y R b m)
    (hf : ∀ u v, R u v → Tracks (f u) (pure v) R' m b') : Tracks (x >>= f) y R' b b' := by
  have := h.bind hf
  rwa [bind_pure] at this

/-- An action of the tree is one of the walk that leaves the counter alone. -/
lemma tracks_lift (a : Run α) : Tracks (lift a) a Eq b b := by
  intro p
  simp only [lift]
  cases a p with
  | ok v q => exact ⟨v, rfl, rfl⟩
  | error fault q => exact ⟨b, rfl⟩

/-- Looking at the counter yields where it stands. -/
lemma tracks_opened {f : Nat → Walk α} (h : Tracks (f b) y R b b') :
    Tracks (opened >>= f) y R b b' := h

/-- Setting the counter is seen by what follows. -/
lemma tracks_setOpened {f : Unit → Walk α} {n : Nat} (h : Tracks (f ()) y R n b') :
    Tracks (setOpened n >>= f) y R b b' := h

/-- Opening a group raises the counter by one. -/
lemma tracks_openGroup {f : Nat → Walk α} (h : Tracks (f (b + 1)) y R (b + 1) b') :
    Tracks (openGroup >>= f) y R b b' := h

/-- Jumping over a part raises the counter by its groups. -/
lemma tracks_reserve {f : Unit → Walk α} {part : Slice}
    (h : Tracks (f ()) y R (b + countGroups part.text) b') :
    Tracks (reserve part >>= f) y R b b' := h

/-- What an action does with the counter set back, and with the counter where it was or further
on behind it. -/
lemma Tracks.rewound {e : Nat} (h : Tracks x y R b e) : Tracks (rewound b x) y R m (max m e) :=
  tracks_opened (tracks_setOpened (h.bind_left fun _ _ hR =>
    tracks_opened (tracks_setOpened (tracks_pure hR))))

/-- A probe of the walk is a probe of the tree, and the counter stays where it was. -/
lemma Tracks.probe {first e : Nat} (h : Tracks x y R first e) :
    Tracks (probe first x) (Run.probe y) R b b := by
  intro p
  have hp := h p
  simp only [Walk.probe, Run.probe, Bind.bind, EStateM.bind, opened, setOpened, get, getThe,
    MonadStateOf.get, EStateM.get] at hp ⊢
  cases hy : y p with
  | ok v q =>
    simp only [hy] at hp
    obtain ⟨u, hu, hR⟩ := hp
    simp only [hu]
    exact ⟨u, rfl, hR⟩
  | error fault q =>
    simp only [hy] at hp
    obtain ⟨n, hn⟩ := hp
    exact ⟨n, by simp only [hn]⟩

/-- An action that comes back to the same counter may be done several times over. -/
lemma Tracks.replay {y : Run α} (h : Tracks x y Eq b b) (count : Nat) :
    Tracks (replay x count) (Run.replay count y) Eq b b := by
  induction count with
  | zero => exact tracks_pure rfl
  | succ count ih =>
    rw [Walk.replay, Run.replay_succ]
    apply h.bind_eq
    intro x
    exact ih.bind_eq fun xs => tracks_pure rfl

/-- A group of the walk records the text that the tree records. -/
lemma Tracks.group {number e : Nat} {body : Walk Sample} {body' : Run Sample}
    (h : Tracks body body' Eq number e) :
    Tracks (group number body) (do
      let s ← body'
      Run.record number s.text
      return s) Eq b (max b e) := by
  refine tracks_opened (tracks_setOpened (h.bind fun s s' hs => ?_))
  subst hs
  exact tracks_opened (tracks_setOpened ((tracks_lift _).bind fun _ _ _ => tracks_pure rfl))

end Tracks

/-! ## Parts -/

section Parts

variable {stream : WordStream} {eval : Slice → Walk (List Sample)}

/-- The part is generated as its tree, and it moves the counter by its groups. -/
def PartTracks (stream : WordStream) (eval : Slice → Walk (List Sample)) (part : Slice) : Prop :=
  ∀ b, Tracks (eval part) ((Pattern.ofSlice b part).samples stream) Eq b
    (b + countGroups part.text)

variable {part : Slice} {b : Nat}

/-- The sample of a part, and the counter behind it. -/
lemma PartTracks.sample (h : PartTracks stream eval part) (b : Nat) :
    Tracks (Walk.sample eval part)
      ((Argument.mk part.span (Pattern.ofSlice b part)).sample stream) Eq b
      (b + countGroups part.text) := by
  rw [Argument.sample]
  exact (h b).bind_eq fun samples => tracks_pure rfl

/-- The literal text of a part, and the counter behind it. -/
lemma PartTracks.literal (h : PartTracks stream eval part) (role : LiteralArgument) (b : Nat) :
    Tracks (Walk.literal eval role part)
      ((Argument.mk part.span (Pattern.ofSlice b part)).literal stream role) Eq b
      (b + countGroups part.text) := by
  rw [Argument.literal]
  simp only [Walk.literal, Walk.sample, bind_assoc, pure_bind]
  apply (h b).bind_eq
  intro samples
  split
  · exact tracks_throw _
  · exact tracks_pure rfl

/-- The default of a literal argument stands for its character. -/
lemma literal_ofChar (stream : WordStream) (role : LiteralArgument) (span : Span) (c : Char) :
    (Argument.ofChar span c).literal stream role = pure c.toString := by
  simp only [Argument.ofChar, Argument.literal, Pattern.samples, Construct.prepare, extras,
    pure_bind]
  simp [Sample.join, Sample.fixed, Entropy.isPositive, Entropy.anyPositive, Entropy.zero]

/-! ## Branches -/

/-- Both sides probe the same branches, those that are not chosen. -/
lemma tracks_probeParts (choice : Nat) (first : Slice) (others : List Slice)
    (h : ∀ part ∈ first :: others, PartTracks stream eval part) (place b : Nat) {m : Nat} :
    Tracks (probeParts eval choice place b (first :: others))
      ((Branches.ofSlices b first others).probeOthers stream choice place) Eq m m := by
  induction others generalizing first place b with
  | nil =>
    have hfirst := h first (by simp) b
    rw [Branches.ofSlices, Branches.probeOthers, probeParts]
    split
    · exact tracks_pure rfl
    · apply hfirst.probe.bind_eq
      intro samples
      simp only [probeParts, pure_bind]
      exact tracks_pure rfl
  | cons second rest ih =>
    have hfirst := h first (by simp) b
    have hothers := ih second (fun part hpart => h part (List.mem_cons_of_mem _ hpart)) (place + 1)
      (b + countGroups first.text)
    rw [Branches.ofSlices, Branches.probeOthers, probeParts]
    split
    · exact hothers
    · apply hfirst.probe.bind_eq
      intro samples
      exact hothers.bind_eq fun entropies => tracks_pure rfl

variable (stream) in
/-- Both sides generate the same branch, wherever it leaves the counter. -/
lemma tracks_choosePart (first : Slice) (others : List Slice)
    (h : ∀ part ∈ first :: others, PartTracks stream eval part) (choice b : Nat) {m : Nat}
    (hchoice : choice < others.length + 1) :
    ∃ e, Tracks (choosePart eval choice b (first :: others))
      ((Branches.ofSlices b first others).chosen stream choice) Eq m e := by
  induction others generalizing first choice b with
  | nil =>
    obtain rfl : choice = 0 := by simpa using hchoice
    rw [Branches.ofSlices, Branches.chosen, choosePart]
    refine ⟨b + countGroups first.text, tracks_setOpened ?_⟩
    exact (h first (by simp) b).bind_eq fun samples => tracks_pure rfl
  | cons second rest ih =>
    rw [Branches.ofSlices]
    cases choice with
    | zero =>
      rw [Branches.chosen, choosePart]
      refine ⟨b + countGroups first.text, tracks_setOpened ?_⟩
      exact (h first (by simp) b).bind_eq fun samples => tracks_pure rfl
    | succ choice =>
      rw [Branches.chosen, choosePart]
      exact ih second (fun part hpart => h part (List.mem_cons_of_mem _ hpart)) choice _
        (by simpa using hchoice)

/-- Behind the chosen branch the texts of all further branches are made empty. -/
lemma clearParts_of_lt (first : Slice) (others : List Slice) {choice place : Nat}
    (h : choice < place) (b : Nat) (groups : GroupTable) :
    clearParts choice place b (first :: others) groups =
      (Branches.ofSlices b first others).clearOthers (others.length + 1) groups := by
  induction others generalizing first place b groups with
  | nil =>
    rw [Branches.ofSlices, clearParts, if_neg (by omega)]
    rfl
  | cons second rest ih =>
    rw [Branches.ofSlices, clearParts, if_neg (by omega), ih second (by omega)]
    rfl

/-- Both sides make the texts of the same groups empty. -/
lemma clearParts_eq (first : Slice) (others : List Slice) {choice : Nat}
    (h : choice < others.length + 1) (place b : Nat) (groups : GroupTable) :
    clearParts (place + choice) place b (first :: others) groups =
      (Branches.ofSlices b first others).clearOthers choice groups := by
  induction others generalizing first choice place b groups with
  | nil =>
    obtain rfl : choice = 0 := by simpa using h
    rw [Branches.ofSlices, clearParts, if_pos (by omega)]
    rfl
  | cons second rest ih =>
    rw [Branches.ofSlices, clearParts]
    cases choice with
    | zero =>
      rw [if_pos (by omega), clearParts_of_lt second rest (by omega), Branches.clearOthers,
        Branches.length_ofSlices]
    | succ choice =>
      rw [if_neg (by omega), Branches.clearOthers, ← ih second (by simpa using h) (place + 1)]
      congr 1
      omega

/-- Drawing among equally many values gives the same place. -/
lemma tracks_choose (stream : WordStream) {n k : Nat} (h : n = k) (hn : 0 < n) (hk : 0 < k)
    (b : Nat) :
    Tracks (lift (Run.choose stream n hn)) (Run.choose stream k hk) (fun i j => i.val = j.val)
      b b := by
  subst h
  intro p
  exact ⟨_, rfl, rfl⟩

variable (stream) in
/-- The branches of a group are generated as in the tree. -/
lemma tracks_alternate (first : Slice) (others : List Slice)
    (h : ∀ part ∈ first :: others, PartTracks stream eval part) (number b : Nat) :
    Tracks (group number (alternate stream eval first others)) (do
      let branches := Branches.ofSlices number first others
      let choice ← Run.choose stream branches.length branches.length_pos
      let others ← branches.probeOthers stream choice 0
      let s ← branches.chosen stream choice
      modify fun progress => { progress with groups := branches.clearOthers choice progress.groups }
      Run.record number s.text
      return ⟨s.text, .sum [.choice branches.length, .least s.entropy others]⟩) Eq b
      (max b (number + ((first :: others).map fun part => countGroups part.text).sum)) := by
  have hbody : Tracks (alternate stream eval first others) (do
      let branches := Branches.ofSlices number first others
      let choice ← Run.choose stream branches.length branches.length_pos
      let others ← branches.probeOthers stream choice 0
      let s ← branches.chosen stream choice
      modify fun progress => { progress with groups := branches.clearOthers choice progress.groups }
      return ⟨s.text, .sum [.choice branches.length, .least s.entropy others]⟩) Eq number
      (number + ((first :: others).map fun part => countGroups part.text).sum) := by
    refine tracks_opened ((tracks_choose stream (Branches.length_ofSlices number first others).symm
      _ _ number).bind fun i j hij => ?_)
    rw [← hij]
    have hi : i.val < others.length + 1 := i.isLt
    apply (tracks_probeParts i first others h 0 number).bind_eq
    intro entropies
    obtain ⟨e, hchosen⟩ := tracks_choosePart stream first others h i number hi
      (m := number)
    apply hchosen.bind_eq
    intro s
    have hclear := clearParts_eq first others hi 0 number
    rw [Nat.zero_add] at hclear
    simp only [hclear]
    refine (tracks_lift _).bind_eq fun _ => tracks_setOpened (tracks_pure ?_)
    rw [Branches.length_ofSlices]
  have := hbody.group (b := b)
  simpa only [bind_assoc, pure_bind] using this

/-! ## Constructs -/

/-- Preparing a construct leaves the counter at `e`, and generating it once, from `b` on, at `e'`.
The larger one of the two is `after`. -/
def Prepares (x : Walk (Walk Sample)) (y : Run (Run Sample)) (b after : Nat) : Prop :=
  ∃ e e', max e e' = after ∧ Tracks x y (fun action action' => Tracks action action' Eq b e') b e

/-- A construct that has nothing to prepare agrees if its action does. -/
lemma prepares_pure {x : Walk Sample} {y : Run Sample} {after : Nat} (h : Tracks x y Eq b after)
    (hle : b ≤ after) : Prepares (pure x) (pure y) b after :=
  ⟨b, after, Nat.max_eq_right hle, tracks_pure h⟩

/-- A call generates its part and then changes the sample on both sides alike. -/
lemma tracks_sampleThen (h : PartTracks stream eval part) (b : Nat) (f : Sample → Run Sample) :
    Tracks (do lift (f (← Walk.sample eval part)))
      (do f (← (Argument.mk part.span (Pattern.ofSlice b part)).sample stream)) Eq b
      (b + countGroups part.text) := by
  exact (h.sample b).bind_eq fun s => tracks_lift _

/-- Preparing a date on both sides, however its separator is read. -/
lemma prepares_date {first second : Slice} {third : Option Slice} {separator : Argument} {e : Nat}
    (hfirst : PartTracks stream eval first) (hsecond : PartTracks stream eval second)
    (hthird : Tracks (literalOr eval .separator "-" third) (separator.literal stream .separator) Eq
      (b + countGroups first.text + countGroups second.text) e) (hle : b ≤ e) :
    Prepares (prepareDate stream eval first second third) (Construct.prepare stream
      (.date ⟨first.span, Pattern.ofSlice b first⟩
        ⟨second.span, Pattern.ofSlice (b + countGroups first.text) second⟩ separator)) b e := by
  rw [Construct.prepare, prepareDate]
  refine ⟨e, b, Nat.max_eq_left hle, (hfirst.literal .year b).bind_eq fun text => ?_⟩
  apply (tracks_lift _).bind_eq
  intro firstYear
  apply (hsecond.literal .year _).bind_eq
  intro text
  apply (tracks_lift _).bind_eq
  intro lastYear
  apply (tracks_lift _).bind_eq
  intro days
  apply hthird.bind_eq
  intro sep
  exact tracks_pure (tracks_lift _)

/-- Preparing a justified field on both sides, however its fill is read. -/
lemma prepares_justify {alignment : Alignment} {span : Span} {first second : Slice}
    {third : Option Slice} {fill : Argument} {e : Nat} (hfirst : PartTracks stream eval first)
    (hsecond : PartTracks stream eval second) (hspan : (third.map Slice.span).getD span = fill.span)
    (hthird : Tracks (literalOr eval .fill " " third) (fill.literal stream .fill) Eq
      (b + countGroups first.text + countGroups second.text) e)
    (hle : b + countGroups first.text ≤ e) :
    Prepares (prepareJustify eval alignment first second third span) (Construct.prepare stream
      (.justify alignment ⟨first.span, Pattern.ofSlice b first⟩
        ⟨second.span, Pattern.ofSlice (b + countGroups first.text) second⟩ fill)) b e := by
  rw [Construct.prepare, prepareJustify]
  refine ⟨e, b + countGroups first.text, Nat.max_eq_left hle, tracks_reserve
    ((hsecond.literal .width _).bind_eq fun text => ?_)⟩
  apply (tracks_lift _).bind_eq
  intro columns
  rw [hspan]
  apply hthird.bind_eq
  intro text
  apply (tracks_lift _).bind_eq
  intro filling
  split
  · exact tracks_throw _
  · exact tracks_pure ((hfirst.sample b).bind_eq fun s => tracks_pure rfl)

/-- A call without a fault is prepared as in the tree. -/
lemma prepares_call {span : Span} {f : Builtin} {arguments : Slice} {c : Construct}
    (h : ∀ part : Slice, part.length ≤ arguments.length → PartTracks stream eval part)
    (hc : Construct.ofToken b span (.call f arguments) = .ok c) :
    Prepares (prepareCall stream eval span f arguments) (c.prepare stream) b
      (b + countGroups arguments.text) := by
  have hall := h arguments (Nat.le_refl _)
  have hle : b ≤ b + countGroups arguments.text := Nat.le_add_right _ _
  have hpart : ∀ {parts : List Slice}, splitParts ',' arguments = .ok parts →
      ∀ part ∈ parts, PartTracks stream eval part := fun hparts part hmem =>
    h part (length_le_of_mem_splitParts hparts hmem)
  cases f with
  | encode t =>
    simp only [Construct.ofToken, Except.ok.injEq] at hc
    subst hc
    rw [Construct.prepare]
    exact prepares_pure (tracks_sampleThen hall b _) hle
  | shuffle =>
    simp only [Construct.ofToken, Except.ok.injEq] at hc
    subst hc
    rw [Construct.prepare]
    exact prepares_pure (tracks_sampleThen hall b _) hle
  | optional =>
    simp only [Construct.ofToken, Except.ok.injEq] at hc
    subst hc
    rw [Construct.prepare]
    exact prepares_pure (tracks_sampleThen hall b _) hle
  | byte =>
    simp only [Construct.ofToken] at hc
    split at hc
    · rename_i hnil
      simp only [Except.ok.injEq] at hc
      subst hc
      rw [Construct.prepare, prepareCall, if_pos hnil, countGroups_of_isEmpty hnil]
      exact prepares_pure (tracks_lift _) (Nat.le_refl _)
    · simp at hc
  | words =>
    simp only [Construct.ofToken] at hc
    split at hc
    · rename_i hnil
      simp only [Except.ok.injEq] at hc
      subst hc
      rw [Construct.prepare, literal_ofChar, pure_bind, prepareCall, if_pos hnil,
        countGroups_of_isEmpty hnil]
      exact prepares_pure (tracks_lift _) (Nat.le_refl _)
    · rename_i hnil
      simp only [Except.ok.injEq] at hc
      subst hc
      rw [Construct.prepare, prepareCall, if_neg hnil]
      refine ⟨_, b, Nat.max_eq_left hle, (hall.literal .wordCount b).bind_eq fun text => ?_⟩
      apply (tracks_lift _).bind_eq
      intro number
      exact tracks_pure (tracks_lift _)
  | expand =>
    simp only [Construct.ofToken] at hc
    split at hc
    · simp at hc
    · rename_i first second hparts
      have hsum := countGroups_of_two hparts
      have hfirst := hpart hparts first (by simp)
      have hsecond := hpart hparts second (by simp)
      simp only [Except.ok.injEq] at hc
      subst hc
      simp only [Construct.prepare, prepareCall, hparts]
      refine ⟨b + countGroups first.text + countGroups second.text, b + countGroups first.text,
        by omega, tracks_reserve ((hsecond.literal .separator _).bind_eq fun sep => ?_)⟩
      exact tracks_pure (tracks_sampleThen hfirst b _)
    · simp at hc
  | date =>
    simp only [Construct.ofToken] at hc
    split at hc
    · simp at hc
    · rename_i first second hparts
      have hsum := countGroups_of_two hparts
      simp only [Except.ok.injEq] at hc
      subst hc
      simp only [prepareCall, hparts]
      rw [hsum, ← Nat.add_assoc]
      refine prepares_date (hpart hparts first (by simp)) (hpart hparts second (by simp)) ?_
        (by omega)
      rw [literal_ofChar]
      exact tracks_pure rfl
    · rename_i first second third hparts
      have hsum := countGroups_of_three hparts
      simp only [Except.ok.injEq] at hc
      subst hc
      simp only [prepareCall, hparts]
      rw [hsum, ← Nat.add_assoc, ← Nat.add_assoc]
      exact prepares_date (hpart hparts first (by simp)) (hpart hparts second (by simp))
        ((hpart hparts third (by simp)).literal .separator _) (by omega)
    · simp at hc
  | justify alignment =>
    simp only [Construct.ofToken] at hc
    split at hc
    · simp at hc
    · rename_i first second hparts
      have hsum := countGroups_of_two hparts
      simp only [Except.ok.injEq] at hc
      subst hc
      simp only [prepareCall, hparts]
      rw [hsum, ← Nat.add_assoc]
      refine prepares_justify (hpart hparts first (by simp)) (hpart hparts second (by simp)) rfl ?_
        (by omega)
      rw [literal_ofChar]
      exact tracks_pure rfl
    · rename_i first second third hparts
      have hsum := countGroups_of_three hparts
      simp only [Except.ok.injEq] at hc
      subst hc
      simp only [prepareCall, hparts]
      rw [hsum, ← Nat.add_assoc, ← Nat.add_assoc]
      exact prepares_justify (hpart hparts first (by simp)) (hpart hparts second (by simp)) rfl
        ((hpart hparts third (by simp)).literal .fill _) (by omega)
    · simp at hc

/-- A token without a fault is prepared as its construct. -/
lemma prepares_ofToken {span : Span} {t : Token} {c : Construct}
    (h : ∀ part : Slice, part.length ≤ t.room → PartTracks stream eval part)
    (hc : Construct.ofToken b span t = .ok c) :
    Prepares (prepare stream eval span t) (c.prepare stream) b (b + t.groups) := by
  cases t with
  | character c =>
    simp only [Construct.ofToken, Except.ok.injEq] at hc
    subst hc
    rw [Construct.prepare]
    exact prepares_pure (tracks_pure rfl) (Nat.le_refl _)
  | oneOf set =>
    simp only [Construct.ofToken, Except.ok.injEq] at hc
    subst hc
    rw [Construct.prepare]
    exact prepares_pure (tracks_lift _) (Nat.le_refl _)
  | reference digits =>
    simp only [Construct.ofToken, Except.ok.injEq] at hc
    subst hc
    refine ⟨b, b, Nat.max_self b, fun p => ?_⟩
    simp only [Construct.prepare, prepare, Bind.bind, EStateM.bind, get, getThe, MonadStateOf.get,
      EStateM.get]
    cases (decimal? digits).bind p.groups.text? with
    | some text => exact ⟨_, rfl, tracks_pure rfl⟩
    | none => exact ⟨b, rfl⟩
  | repetition => simp [Construct.ofToken] at hc
  | call f arguments => exact prepares_call h hc
  | group body =>
    have hafter : b + (Token.group body).groups = b + 1 + countGroups body.text := by
      simp only [Token.groups]
      omega
    have hle : max (b + 1) (max b (b + 1 + countGroups body.text)) =
        b + (Token.group body).groups := by omega
    simp only [Construct.ofToken] at hc
    split at hc
    · simp at hc
    · rename_i hparts
      have hsum := sum_countGroups_splitParts (by simp) hparts
      simp only [List.map_nil, List.sum_nil] at hsum
      simp only [Except.ok.injEq] at hc
      subst hc
      refine ⟨b + 1, _, hle, ?_⟩
      simp only [prepare, hparts, Construct.prepare, ← hsum]
      exact tracks_openGroup (tracks_pure (Tracks.group (tracks_pure rfl)))
    · rename_i part hparts
      simp only [Except.ok.injEq] at hc
      subst hc
      refine ⟨b + 1, _, hle, ?_⟩
      simp only [prepare, hparts, Construct.prepare]
      refine tracks_openGroup (tracks_pure ?_)
      have := ((h body (Nat.le_refl _)).sample (b + 1)).group (b := b)
      simpa only [Argument.sample, bind_assoc, pure_bind] using this
    · rename_i first second rest hparts
      have hsum := sum_countGroups_splitParts (by simp) hparts
      simp only [Except.ok.injEq] at hc
      subst hc
      refine ⟨b + 1, _, hle, ?_⟩
      simp only [prepare, hparts, Construct.prepare]
      refine tracks_openGroup (tracks_pure ?_)
      have := tracks_alternate stream first (second :: rest) (fun part hmem =>
        h part (length_le_of_mem_splitParts hparts hmem)) (b + 1) b
      rwa [hsum] at this

/-- A token with a fault is reported as in the tree. -/
lemma tracks_prepare_of_error {span : Span} {t : Token} {fault : Fault} {m : Nat} {α : Type}
    {R : Walk Sample → α → Prop} (hc : Construct.ofToken b span t = .error fault) :
    Tracks (prepare stream eval span t) (throw fault : Run α) R b m := by
  have hthrow : ∀ fault' : Fault, fault' = fault → ∀ b, Tracks (throw fault')
      (throw fault : Run α) R b m := by
    intro fault' hfault b
    rw [hfault]
    exact tracks_throw fault
  cases t with
  | character | oneOf | reference => simp [Construct.ofToken] at hc
  | repetition =>
    simp only [Construct.ofToken, Except.error.injEq] at hc
    exact hthrow _ hc b
  | group body =>
    simp only [Construct.ofToken] at hc
    split at hc
    · rename_i hparts
      simp only [Except.error.injEq] at hc
      simp only [prepare, hparts]
      exact tracks_openGroup (hthrow _ hc _)
    all_goals simp at hc
  | call f arguments =>
    simp only [prepare]
    cases f with
    | encode | shuffle | optional => simp [Construct.ofToken] at hc
    | words =>
      simp only [Construct.ofToken] at hc
      split at hc <;> simp at hc
    | byte =>
      simp only [Construct.ofToken] at hc
      split at hc
      · simp at hc
      · rename_i hne
        simp only [Except.error.injEq] at hc
        rw [prepareCall, if_neg hne]
        exact hthrow _ hc b
    | expand | date | justify =>
      simp only [Construct.ofToken] at hc
      simp only [prepareCall]
      cases hparts : splitParts ',' arguments with
      | error fault' =>
        rw [hparts] at hc
        simp only [Except.error.injEq] at hc
        exact hthrow _ hc b
      | ok parts =>
        rw [hparts] at hc
        split at hc
        all_goals simp_all

/-! ## Tokens -/

/-- The action of the construct generated last does what `action` does, and the counter does not
come to stand above `b`. -/
def Last.Follows (last : Last) (action : Run Sample) (b : Nat) : Prop :=
  last.base ≤ b ∧ ∃ e ≤ b, Tracks last.action action Eq last.base e

/-- What a token other than a repeat count adds. -/
lemma tracks_advance {last : Option Last} {span : Span} {t : Token} {c : Construct}
    (h : ∀ part : Slice, part.length ≤ t.room → PartTracks stream eval part)
    (hc : Construct.ofToken b span t = .ok c) :
    Tracks (advance stream eval last span t) (do
      let action ← c.prepare stream
      return (action, ← action))
      (fun u v => u.1.product = 1 ∧ u.1.Follows v.1 (b + t.groups) ∧ u.2 = v.2) b
      (b + t.groups) := by
  obtain ⟨e, e', hmax, hprepare⟩ := prepares_ofToken h hc
  have hle : e' ≤ b + t.groups := hmax ▸ Nat.le_max_right e e'
  have hconstruct : Tracks (do
      let base ← opened
      let action ← prepare stream eval span t
      let s ← rewound base action
      return ((⟨action, base, 1⟩, s) : Last × Sample)) (do
      let action ← c.prepare stream
      return (action, ← action))
      (fun u v => u.1.product = 1 ∧ u.1.Follows v.1 (b + t.groups) ∧ u.2 = v.2) b
      (b + t.groups) := by
    refine tracks_opened (hprepare.bind fun x y hxy => ?_)
    rw [← hmax]
    refine hxy.rewound.bind fun u v huv => tracks_pure ⟨rfl, ⟨?_, e', ?_, hxy⟩, huv⟩
    · show b ≤ max e e'
      omega
    · omega
  cases t with
  | repetition => simp [Construct.ofToken] at hc
  | character | oneOf | reference | group | call => exact hconstruct

/-- A token with a fault adds nothing. -/
lemma tracks_advance_of_error {last : Option Last} {span : Span} {t : Token} {fault : Fault}
    {α : Type} {R : Last × Sample → α → Prop} {m : Nat} (ht : ∀ count, t ≠ .repetition count)
    (hc : Construct.ofToken b span t = .error fault) :
    Tracks (advance stream eval last span t) (throw fault : Run α) R b m := by
  have hconstruct : Tracks (do
      let base ← opened
      let action ← prepare stream eval span t
      let s ← rewound base action
      return ((⟨action, base, 1⟩, s) : Last × Sample)) (throw fault : Run α) R b m := by
    refine tracks_opened ?_
    have hbind : (throw fault : Run α) = (throw fault : Run α) >>= pure := rfl
    rw [hbind]
    exact Tracks.bind (R := fun _ _ => False) (tracks_prepare_of_error hc (m := m))
      fun _ _ h => h.elim
  cases t with
  | repetition count => exact absurd rfl (ht count)
  | character | oneOf | reference | group | call => exact hconstruct

/-- An action that starts from its own counter each time may be done several times over. -/
lemma Tracks.replay_rewound {x : Walk Sample} {y : Run Sample} {base e : Nat}
    (h : Tracks x y Eq base e) (hle : e ≤ b) (count : Nat) :
    Tracks (Walk.replay (Walk.rewound base x) count) (Run.replay count y) Eq b b := by
  refine Tracks.replay ?_ count
  have := h.rewound (m := b)
  rwa [Nat.max_eq_left hle] at this

/-- A repeat count asks for one instance at least. -/
lemma tracks_draw (stream : WordStream) {count : RepeatCount} (hlow : 0 < count.low) (b : Nat) :
    Tracks (lift (count.draw stream)) (count.draw stream) (fun u v => u = v ∧ 0 < v) b b := by
  intro p
  cases count with
  | exactly count => exact ⟨count, rfl, rfl, hlow⟩
  | between low high => exact ⟨_, rfl, rfl, Nat.lt_of_lt_of_le hlow (Nat.le_add_right _ _)⟩

/-- A construct repeated by a count. -/
lemma Last.Follows.repeated {last : Last} {action : Run Sample} (h : last.Follows action b)
    {count : RepeatCount} (hlow : 0 < count.low) :
    (last.repeated stream count).Follows (PatternSampler.repeated stream count action) b := by
  obtain ⟨hbase, e, he, htracks⟩ := h
  refine ⟨hbase, max last.base e, Nat.max_le.2 ⟨hbase, he⟩, ?_⟩
  apply (tracks_draw stream hlow _).bind
  rintro n n' ⟨hn, hpos⟩
  subst hn
  obtain ⟨k, rfl⟩ : ∃ k, n = k + 1 := ⟨n - 1, by omega⟩
  rw [Run.replay_succ]
  simp only [Walk.replay, bind_assoc, pure_bind]
  apply htracks.rewound.bind_eq
  intro s
  exact (htracks.replay_rewound (Nat.le_max_right _ _) k).bind_eq fun samples => tracks_pure rfl

/-- What a repeat count adds. -/
lemma tracks_advance_repetition {last : Last} {action : Run Sample} {span : Span}
    {count : RepeatCount} (hlast : last.Follows action b) (hlow : 0 < count.low)
    (hle : ¬maxRepeat < last.product * count.high) :
    Tracks (advance stream eval (some last) span (.repetition count)) (do
      let instances ← count.draw stream
      let added ← Run.replay (instances - 1) action
      return (PatternSampler.repeated stream count action, Sample.join added))
      (fun u v => u.1.product = last.product * count.high ∧ u.1.Follows v.1 b ∧ u.2 = v.2) b b := by
  obtain ⟨hbase, e, he, htracks⟩ := hlast
  simp only [advance, if_neg hle]
  apply (tracks_lift _).bind_eq
  intro n
  refine (htracks.replay_rewound he _).bind_eq fun samples => tracks_pure ⟨rfl, ?_, rfl⟩
  exact Last.Follows.repeated ⟨hbase, e, he, htracks⟩ hlow

/-! ## Runs -/

/-- What the tree still generates behind the construct generated last, which is given by the number
of its instances and its action. -/
def remaining (stream : WordStream) (b : Nat) (last : Option (Nat × Run Sample)) (rest : Slice) :
    Run (List Sample) :=
  match last with
  | none => (Pattern.ofSlice b rest).samples stream
  | some (product, action) => do
    let behind := readCounts product rest
    let added ← extras stream behind.counts action
    let later ← Pattern.samples stream <|
      match behind.fault with
      | some fault => .stop fault
      | none => Pattern.ofSlice b behind.rest
    return added ++ later

/-- The constructs generated last belong together. -/
def LastFollows (b : Nat) : Option Last → Option (Nat × Run Sample) → Prop
  | none, none => True
  | some last, some (product, action) => last.product = product ∧ last.Follows action b
  | _, _ => False

/-- Either nothing was generated yet on both sides, or the same construct was. -/
lemma LastFollows.eq_none_or {l : Option Last} {last : Option (Nat × Run Sample)}
    (h : LastFollows b l last) :
    (l = none ∧ last = none) ∨
      ∃ made action,
        l = some made ∧ last = some (made.product, action) ∧ made.Follows action b := by
  cases l with
  | none =>
    cases last with
    | none => exact .inl ⟨rfl, rfl⟩
    | some last => exact h.elim
  | some made =>
    cases last with
    | none => exact h.elim
    | some last =>
      obtain ⟨hproduct, hfollows⟩ := h
      exact .inr ⟨made, last.2, rfl, by rw [hproduct], hfollows⟩

/-- What does not begin with a repeat count is generated as a pattern of its own. -/
lemma remaining_of_ne {rest : Slice}
    (h : ∀ count rest', Token.next rest ≠ .ok (some (.repetition count, rest')))
    (last : Option (Nat × Run Sample)) :
    remaining stream b last rest = (Pattern.ofSlice b rest).samples stream := by
  cases last with
  | none => rfl
  | some last => simp [remaining, readCounts_of_ne h, extras]

/-- A mistake of the reader is one of what remains. -/
lemma remaining_of_error {s : Slice} {fault : Fault} (h : Token.next s = .error fault)
    (last : Option (Nat × Run Sample)) : remaining stream b last s = throw fault := by
  rw [remaining_of_ne (by simp [h]), Pattern.ofSlice, h]
  rfl

/-- Nothing remains at the end. -/
lemma remaining_of_end {s : Slice} (h : Token.next s = .ok none)
    (last : Option (Nat × Run Sample)) : remaining stream b last s = pure [] := by
  rw [remaining_of_ne (by simp [h]), Pattern.ofSlice, h]
  rfl

/-- A token that makes no construct is a mistake of the tree. -/
lemma remaining_of_stop {s rest : Slice} {t : Token} {fault : Fault}
    (h : Token.next s = .ok (some (t, rest)))
    (hc : Construct.ofToken b ⟨s.start, rest.start - s.start⟩ t = .error fault) :
    (Pattern.ofSlice b s).samples stream = throw fault := by
  rw [Pattern.ofSlice, h]
  simp only [hc]
  rfl

/-- A construct is prepared and generated once. Then the rest follows with it as the last one. -/
lemma remaining_of_construct {s rest : Slice} {t : Token} {c : Construct}
    (h : Token.next s = .ok (some (t, rest)))
    (hc : Construct.ofToken b ⟨s.start, rest.start - s.start⟩ t = .ok c) :
    (Pattern.ofSlice b s).samples stream = do
      let (action, first) ← (do
        let action ← c.prepare stream
        return (action, ← action))
      return first :: (← remaining stream (b + t.groups) (some (1, action)) rest) := by
  rw [Pattern.ofSlice, h]
  cases hfault : (readCounts 1 rest).fault <;>
    simp only [hc, hfault, Pattern.samples, remaining, bind_assoc, pure_bind]

/-- A repeat count with which there are too many instances is a mistake. -/
lemma remaining_of_tooLarge {s rest : Slice} {count : RepeatCount} {product : Nat}
    {action : Run Sample} (h : Token.next s = .ok (some (.repetition count, rest)))
    (hlt : maxRepeat < product * count.high) :
    remaining stream b (some (product, action)) s =
      throw (.within .repeatTooLarge ⟨s.start, rest.start - s.start⟩) := by
  have hcounts : readCounts product s =
      ⟨[], rest, some (.within .repeatTooLarge ⟨s.start, rest.start - s.start⟩)⟩ := by
    rw [readCounts, h]
    simp only [if_pos hlt]
    rfl
  simp only [remaining, hcounts, extras, pure_bind]
  rfl

/-- A repeat count draws the number of instances, adds those that are missing, and hands the
repeated construct on. -/
lemma remaining_of_repetition {s rest : Slice} {count : RepeatCount} {product : Nat}
    {action : Run Sample} (h : Token.next s = .ok (some (.repetition count, rest)))
    (hle : ¬maxRepeat < product * count.high) :
    remaining stream b (some (product, action)) s = do
      let (repeated, added) ← (do
        let instances ← count.draw stream
        let added ← Run.replay (instances - 1) action
        return (repeated stream count action, Sample.join added))
      return added ::
        (← remaining stream b (some (product * count.high, repeated)) rest) := by
  have hcounts : readCounts product s =
      { readCounts (product * count.high) rest with
        counts := count :: (readCounts (product * count.high) rest).counts } := by
    rw [readCounts, h]
    simp only [if_neg hle]
  simp only [remaining, hcounts, extras, bind_assoc, pure_bind]
  rfl

/-- Nothing follows a mistake. -/
lemma tracks_throw_bind {α β γ δ : Type} (fault : Fault) (f : α → Walk γ) (g : β → Run δ)
    {R : γ → δ → Prop} {m : Nat} : Tracks (throw fault >>= f) (throw fault >>= g) R b m :=
  fun _ => ⟨b, rfl⟩

/-- From a state between two tokens on, the samples are those that the tree still generates, and
the counter moves by the groups of what is left of the text.

**Proof sketch.** By strong induction on the length of what is left. A construct behaves as its
node in the tree. The counts behind it are read one at a time, and each of them repeats what the
one in front has left as the construct generated last. -/
lemma tracks_onward {room : Nat}
    (h : ∀ part : Slice, part.length < room → PartTracks stream eval part) (c : Cursor)
    (last : Option (Nat × Run Sample)) (hc : c.rest.length ≤ room)
    (hlast : LastFollows b c.last last) :
    Tracks (onward stream eval c)
      (do return c.samples ++ (← remaining stream b last c.rest)) Eq b
      (b + countGroups c.rest.text) := by
  induction hn : c.rest.length using Nat.strong_induction_on generalizing c last b with
  | _ n ih =>
    rw [onward]
    split
    · rename_i fault hnext
      rw [remaining_of_error hnext]
      exact tracks_throw fault
    · rename_i hnext
      rw [remaining_of_end hnext, Token.text_eq_nil_of_next hnext]
      simpa [countGroups, GroupScan.count] using tracks_pure rfl
    · rename_i t rest hnext
      obtain ⟨hroom, hrest⟩ := Token.room_next hnext
      have hcount := (Token.opens_next hnext).countGroups_eq
      have hparts : ∀ part : Slice, part.length ≤ t.room → PartTracks stream eval part :=
        fun part hpart => h part (by omega)
      -- what both do behind the token
      have hlater : ∀ {last last'} {s : Sample}, LastFollows (b + t.groups) (some last) last' →
          Tracks (onward stream eval (c.push rest last s))
            (do return c.samples ++ (s :: (← remaining stream (b + t.groups) last' rest))) Eq
            (b + t.groups) (b + countGroups c.rest.text) := by
        intro last last' s hlast
        have := ih rest.length (by omega) (c.push rest last s) last' (by
          simp only [Cursor.push]
          omega) hlast rfl
        simpa [Cursor.push, hcount, Nat.add_assoc] using this
      by_cases ht : ∃ count, t = .repetition count
      · obtain ⟨count, rfl⟩ := ht
        have hlow := (Token.valid_of_next hnext).low_pos
        obtain ⟨hc, rfl⟩ | ⟨made, action, hc, rfl, hfollows⟩ := hlast.eq_none_or
        · rw [hc, remaining, remaining_of_stop hnext (by rw [Construct.ofToken])]
          exact tracks_throw_bind _ _ _
        · rw [hc]
          by_cases hle : maxRepeat < made.product * count.high
          · rw [remaining_of_tooLarge hnext hle, advance, if_pos hle]
            exact tracks_throw_bind _ _ _
          · rw [remaining_of_repetition hnext hle, bind_assoc]
            apply (tracks_advance_repetition hfollows hlow hle).bind
            rintro ⟨last', s⟩ ⟨action', s'⟩ ⟨hproduct, hfollows', hs⟩
            simp only at hs
            subst hs
            simp only [bind_assoc, pure_bind]
            exact hlater ⟨hproduct, hfollows'⟩
      · rw [remaining_of_ne (Token.next_ne_repetition hnext ht)]
        cases hconstruct : Construct.ofToken b ⟨c.rest.start, rest.start - c.rest.start⟩ t with
        | error fault =>
          rw [remaining_of_stop hnext hconstruct]
          have hadvance : Tracks (advance stream eval c.last _ t) (throw fault : Run (List Sample))
              (fun _ _ => False) b b :=
            tracks_advance_of_error (fun count h => ht ⟨count, h⟩) hconstruct
          exact hadvance.bind fun _ _ h => h.elim
        | ok construct =>
          rw [remaining_of_construct hnext hconstruct, bind_assoc]
          apply (tracks_advance hparts hconstruct).bind
          rintro ⟨last', s⟩ ⟨action', s'⟩ ⟨hproduct, hfollows, hs⟩
          simp only at hs
          subst hs
          simp only [bind_assoc, pure_bind]
          exact hlater ⟨hproduct, hfollows⟩

end Parts

end Walk

/-! ## Slices -/

/-- **The counter and the tree agree**: generating along the text does what generating from the
tree does, and it moves the counter by the groups of the text. -/
theorem tracks_walk (stream : WordStream) (s : Slice) (b : Nat) :
    Walk.Tracks (walk stream s) ((Pattern.ofSlice b s).samples stream) Eq b
      (b + countGroups s.text) := by
  induction hn : s.length using Nat.strong_induction_on generalizing s b with
  | _ n ih =>
    have hparts : ∀ part : Slice, part.length < n → Walk.PartTracks stream (walk stream) part :=
      fun part hpart b => ih part.length hpart part b rfl
    have := Walk.tracks_onward hparts ⟨s, none, []⟩ none (Nat.le_of_eq hn) (b := b) trivial
    rw [walk_eq]
    simpa [Walk.remaining] using this

/-- Between two tokens the counter has moved by the groups of what has been read, and generating
the last construct once more does not move it further.

**Proof sketch.** By induction on the tokens read. A construct moves the counter by the groups of
its token. A repeat count opens no groups, and the instances that it adds end where the construct
in front of it has left the counter. -/
lemma Between.opens {stream : WordStream} {s : Slice} {l m : Ledger} {c : Walk.Cursor}
    (h : Between stream s l c m) :
    ∃ n last, s.Opens n c.rest ∧ m.opened = l.opened + n ∧
      Walk.LastFollows m.opened c.last last := by
  induction h with
  | start => exact ⟨0, none, .refl s, rfl, trivial⟩
  | @step c m m' t rest last' sample _ hnext hadvance ih =>
    obtain ⟨n, last, hopens, hopened, hlast⟩ := ih
    have hopens' := hopens.trans (Token.opens_next hnext)
    have hparts : ∀ part : Slice, part.length ≤ t.room →
        Walk.PartTracks stream (walk stream) part := fun part _ => tracks_walk stream part
    by_cases ht : ∃ count, t = .repetition count
    · obtain ⟨count, rfl⟩ := ht
      have hlow := (Token.valid_of_next hnext).low_pos
      obtain ⟨hc, rfl⟩ | ⟨made, action, hc, rfl, hfollows⟩ := hlast.eq_none_or
      · rw [hc, Walk.advance] at hadvance
        cases hadvance
      · rw [hc] at hadvance
        by_cases hle : maxRepeat < made.product * count.high
        · rw [Walk.advance, if_pos hle] at hadvance
          cases hadvance
        · obtain ⟨v, q, -, rfl, hproduct, hfollows', -⟩ :=
            (Walk.tracks_advance_repetition hfollows hlow hle).of_eq_ok hadvance
          exact ⟨n, some (_, v.1), hopens', hopened, hproduct, hfollows'⟩
    · cases hconstruct : Construct.ofToken m.opened ⟨c.rest.start, rest.start - c.rest.start⟩ t with
      | error fault =>
        obtain ⟨v, q, hv, -⟩ := (Walk.tracks_advance_of_error (α := Unit) (R := fun _ _ => True)
          (fun count h => ht ⟨count, h⟩) hconstruct (m := 0)).of_eq_ok hadvance
        cases hv
      | ok construct =>
        obtain ⟨v, q, -, rfl, hproduct, hfollows, -⟩ :=
          (Walk.tracks_advance hparts hconstruct).of_eq_ok hadvance
        refine ⟨n + t.groups, some (_, v.1), hopens', ?_, hproduct, hfollows⟩
        show m.opened + t.groups = l.opened + (n + t.groups)
        omega

end PatternSampler
