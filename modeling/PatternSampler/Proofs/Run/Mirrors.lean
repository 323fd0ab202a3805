import PatternSampler.Proofs.Faults.Possible
import PatternSampler.Proofs.Reading.Append
import PatternSampler.Proofs.Run.Shift

set_option autoImplicit false

/-!
# Runs that do not look at groups

A pattern without references draws the same whatever the texts of groups are and whatever numbers
its own groups have. Two runs of it from the same position of the stream stay side by side.

## Main definitions

* `Run.Mirrors` — two actions draw the same words and have related results, or both fail, whatever
  the texts of groups are.
* `Pattern.ReferenceFree` — a pattern without references.
* `Builtin.settles` — a function settles some of its arguments before it is generated.

## Main results

* `Run.Mirrors.bind`, `Run.Mirrors.replay` — actions that mirror each other, and what follows them.
* `Construct.mirrors_ofToken` — a token without references behind any number of groups.
* `Pattern.mirrors_ofSlice` — a slice without references behind any number of groups.
-/

namespace PatternSampler

namespace Run

variable {α β γ δ : Type}

/-- From one position of the stream, either both actions end well at the same position with related
results, or both fail. The texts of groups need not have anything to do with each other. -/
def Mirrors (a : Run α) (b : Run β) (R : α → β → Prop) : Prop :=
  ∀ p p' : Progress, p.position = p'.position →
    match a p, b p' with
    | .ok x q, .ok y q' => q.position = q'.position ∧ R x y
    | .error _ _, .error _ _ => True
    | _, _ => False

variable {a : Run α} {b : Run β} {R : α → β → Prop}

/-- What follows from a run that ends well: the other one ends well at the same position. -/
lemma Mirrors.of_eq_ok (h : a.Mirrors b R) {p p' q : Progress} (hp : p.position = p'.position)
    {x : α} (ha : a p = .ok x q) : ∃ y q', b p' = .ok y q' ∧ q.position = q'.position ∧ R x y := by
  have hp := h p p' hp
  rw [ha] at hp
  cases hb : b p' with
  | ok y q' =>
    rw [hb] at hp
    exact ⟨y, q', rfl, hp⟩
  | error =>
    rw [hb] at hp
    exact hp.elim

/-- What follows from a run that fails: the other one fails, too. -/
lemma Mirrors.of_eq_error (h : a.Mirrors b R) {p p' q : Progress} (hp : p.position = p'.position)
    {fault : Fault} (ha : a p = .error fault q) : ∃ fault' q', b p' = .error fault' q' := by
  have hp := h p p' hp
  rw [ha] at hp
  cases hb : b p' with
  | ok =>
    rw [hb] at hp
    exact hp.elim
  | error fault' q' => exact ⟨fault', q', rfl⟩

/-- Mirroring goes both ways, with the relation turned round. -/
lemma Mirrors.symm (h : a.Mirrors b R) : b.Mirrors a fun y x => R x y := by
  intro p' p hp
  have hR := h p p' hp.symm
  cases ha : a p <;> cases hb : b p' <;> rw [ha, hb] at hR
  · exact ⟨hR.1.symm, hR.2⟩
  · exact hR.elim
  · exact hR.elim
  · trivial

/-- Two actions that mirror the same one mirror each other. -/
lemma Mirrors.trans {c : Run γ} {S : β → γ → Prop} {T : α → γ → Prop} (h : a.Mirrors b R)
    (h' : b.Mirrors c S) (hT : ∀ x y z, R x y → S y z → T x z) : a.Mirrors c T := by
  intro p p' hp
  cases ha : a p with
  | ok x q =>
    obtain ⟨y, q', hb, hq, hR⟩ := h.of_eq_ok hp ha
    obtain ⟨z, q'', hc, hq', hS⟩ := h'.of_eq_ok rfl hb
    rw [hc]
    exact ⟨hq.trans hq', hT x y z hR hS⟩
  | error fault q =>
    obtain ⟨_, _, hb⟩ := h.of_eq_error hp ha
    obtain ⟨_, _, hc⟩ := h'.of_eq_error rfl hb
    rw [hc]
    trivial

/-- An action with a mirror mirrors itself. -/
lemma Mirrors.self_left {b : Run α} (h : a.Mirrors b Eq) : a.Mirrors a Eq :=
  h.trans h.symm fun _ _ _ hxy hzy => hxy.trans hzy.symm

/-- An action with a mirror image mirrors itself. -/
lemma Mirrors.self_right {b : Run α} (h : a.Mirrors b Eq) : b.Mirrors b Eq :=
  h.symm.trans h fun _ _ _ hxy hxz => hxy.symm.trans hxz

/-- Actions that mirror each other also do so with a weaker relation. -/
lemma Mirrors.imp {S : α → β → Prop} (h : a.Mirrors b R) (hS : ∀ x y, R x y → S x y) :
    a.Mirrors b S := by
  intro p p' hp
  have hR := h p p' hp
  cases ha : a p <;> cases hb : b p' <;> rw [ha, hb] at hR
  · exact ⟨hR.1, hS _ _ hR.2⟩
  · exact hR.elim
  · exact hR.elim
  · trivial

/-- Returning related results mirrors each other. -/
lemma mirrors_pure {x : α} {y : β} (h : R x y) : (pure x : Run α).Mirrors (pure y) R :=
  fun _ _ hp => ⟨hp, h⟩

/-- All mistakes mirror each other. -/
lemma mirrors_throw (fault fault' : Fault) : (throw fault : Run α).Mirrors (throw fault') R :=
  fun _ _ _ => trivial

/-- Actions that mirror each other, and what follows them. -/
lemma Mirrors.bind {f : α → Run γ} {g : β → Run δ} {S : γ → δ → Prop} (h : a.Mirrors b R)
    (hf : ∀ x y, R x y → (f x).Mirrors (g y) S) : (a >>= f).Mirrors (b >>= g) S := by
  intro p p' hp
  simp only [Bind.bind, EStateM.bind]
  cases ha : a p with
  | ok x q =>
    obtain ⟨y, q', hb, hq, hR⟩ := h.of_eq_ok hp ha
    simp only [hb]
    exact hf x y hR q q' hq
  | error fault q =>
    obtain ⟨_, _, hb⟩ := h.of_eq_error hp ha
    simp only [hb]

/-- Actions with the same result, and what follows them. -/
lemma Mirrors.bind_eq {b : Run α} {f : α → Run γ} {g : α → Run δ} {S : γ → δ → Prop}
    (h : a.Mirrors b Eq) (hf : ∀ x, (f x).Mirrors (g x) S) : (a >>= f).Mirrors (b >>= g) S :=
  h.bind fun x _ hxy => hxy ▸ hf x

/-- The same value is chosen among equally many on both sides. -/
lemma mirrors_choose_val (stream : WordStream) {m n : Nat} (h : m = n) (hm : 0 < m) (hn : 0 < n) :
    (choose stream m hm).Mirrors (choose stream n hn) fun i j => i.val = j.val := by
  subst h
  intro p p' hp
  simp only [choose, hp, and_self]

/-- Equally many values are chosen among on both sides. -/
lemma mirrors_choose (stream : WordStream) {m n : Nat} (h : m = n) (hm : 0 < m) (hn : 0 < n)
    {f : Fin m → Run γ} {g : Fin n → Run δ} {S : γ → δ → Prop}
    (hf : ∀ i j, i.val = j.val → (f i).Mirrors (g j) S) :
    (choose stream m hm >>= f).Mirrors (choose stream n hn >>= g) S :=
  (mirrors_choose_val stream h hm hn).bind hf

/-- The texts of groups may be changed in any way. -/
lemma mirrors_modify (g g' : Progress → GroupTable) :
    (modify fun p => { p with groups := g p } : Run PUnit).Mirrors
      (modify fun p => { p with groups := g' p } : Run PUnit) fun _ _ => True :=
  fun _ _ hp => ⟨hp, trivial⟩

/-- The texts that are recorded need not be the same. -/
lemma mirrors_record (number number' : Nat) (text text' : String) :
    (record number text).Mirrors (record number' text') fun _ _ => True :=
  mirrors_modify _ _

/-- Probes of actions that mirror each other mirror each other. -/
lemma Mirrors.probe (h : a.Mirrors b R) : (probe a).Mirrors (probe b) R := by
  have hget : (get : Run Progress).Mirrors get fun _ _ => True := fun _ _ hp => ⟨hp, trivial⟩
  exact hget.bind fun r r' _ => h.bind fun x y hR =>
    (mirrors_modify (fun _ => r.groups) fun _ => r'.groups).bind fun _ _ _ => mirrors_pure hR

/-- Actions that mirror each other do so several times over. -/
lemma Mirrors.replay (h : a.Mirrors b R) (count : Nat) :
    (replay count a).Mirrors (replay count b) (List.Forall₂ R) := by
  induction count with
  | zero => exact mirrors_pure .nil
  | succ count ih =>
    rw [replay_succ, replay_succ]
    exact h.bind fun x y hxy => ih.bind fun xs ys hxys => mirrors_pure (.cons hxy hxys)

/-- Actions with equal results have equal results several times over. -/
lemma Mirrors.replay_eq {b : Run α} (h : a.Mirrors b Eq) (count : Nat) :
    (Run.replay count a).Mirrors (Run.replay count b) Eq :=
  (h.replay count).imp fun _ _ hxys => List.forall₂_eq_eq_eq ▸ hxys

/-- It does not matter where mistakes are reported. -/
lemma Mirrors.shift_right (h : a.Mirrors b R) (k : Nat) : a.Mirrors (shift k b) R := by
  intro p p' hp
  have hR := h p p' hp
  rw [shift_apply]
  cases ha : a p <;> cases hb : b p' <;> rw [ha, hb] at hR <;> exact hR

end Run

open Run

/-! ## Samples -/

section Samples

variable (stream : WordStream) {action action' : Run Sample}

/-- An action that only draws mirrors itself. -/
lemma mirrors_charSet_sample (set : CharSet) :
    (set.sample stream).Mirrors (set.sample stream) Eq := by
  unfold CharSet.sample
  split
  · exact mirrors_choose stream rfl _ _ fun i j hij => by
      rw [Fin.ext hij]
      exact mirrors_pure rfl
  · exact mirrors_pure rfl

/-- A random byte does not depend on the texts of groups. -/
lemma mirrors_sampleByte (case : LetterCase) :
    (sampleByte stream case).Mirrors (sampleByte stream case) Eq :=
  mirrors_choose stream rfl _ _ fun i j hij => by
    rw [Fin.ext hij]
    exact mirrors_pure rfl

/-- A shuffle does not depend on the texts of groups. -/
lemma mirrors_shuffled (s : Sample) : (s.shuffled stream).Mirrors (s.shuffled stream) Eq := by
  intro p p' hp
  simp only [Sample.shuffled, hp, and_self]

/-- Whether a sample is left out does not depend on the texts of groups. -/
lemma mirrors_orNothing (s : Sample) : (s.orNothing stream).Mirrors (s.orNothing stream) Eq :=
  mirrors_choose stream rfl _ _ fun i j hij => by
    rw [Fin.ext hij]
    exact mirrors_pure rfl

/-- A failure may be reported anywhere. -/
lemma mirrors_transformed (t : Transform) (span span' : Span) (s : Sample) :
    (s.transformed t span).Mirrors (s.transformed t span') Eq := by
  unfold Sample.transformed
  split
  · exact mirrors_pure rfl
  · exact mirrors_throw _ _

/-- Drawing a count does not depend on the texts of groups. -/
lemma mirrors_draw (count : RepeatCount) :
    (count.draw stream).Mirrors (count.draw stream) Eq := by
  cases count with
  | exactly => exact mirrors_pure rfl
  | between =>
    exact mirrors_choose stream rfl _ _ fun i j hij => mirrors_pure (by rw [hij])

/-- Constructs whose actions mirror each other do so when they are repeated. -/
lemma mirrors_repeated (count : RepeatCount) (h : action.Mirrors action' Eq) :
    (repeated stream count action).Mirrors (repeated stream count action') Eq :=
  (mirrors_draw stream count).bind_eq fun instances => (h.replay_eq instances).bind_eq fun _ =>
    mirrors_pure rfl

/-- Counts add the same to actions that mirror each other. -/
lemma mirrors_extras (counts : List RepeatCount) (h : action.Mirrors action' Eq) :
    (extras stream counts action).Mirrors (extras stream counts action') Eq := by
  induction counts generalizing action action' with
  | nil => exact mirrors_pure rfl
  | cons count later ih =>
    exact (mirrors_draw stream count).bind_eq fun instances =>
      (h.replay_eq (instances - 1)).bind_eq fun _ =>
        (ih (mirrors_repeated stream count h)).bind_eq fun _ => mirrors_pure rfl

end Samples

/-! ## Patterns without references -/

mutual

/-- There are no references in the pattern. -/
def Pattern.ReferenceFree : Pattern → Prop
  | .done | .stop _ => True
  | .seq head _ rest => head.ReferenceFree ∧ rest.ReferenceFree

/-- There are no references in the construct. -/
def Construct.ReferenceFree : Construct → Prop
  | .character _ | .oneOf _ | .byte _ => True
  | .reference _ _ => False
  | .group _ body => body.ReferenceFree
  | .alternation _ branches => branches.ReferenceFree
  | .encode _ argument | .words argument | .shuffle argument | .optional argument =>
    argument.ReferenceFree
  | .expand first second => first.ReferenceFree ∧ second.ReferenceFree
  | .date first second third | .justify _ first second third =>
    first.ReferenceFree ∧ second.ReferenceFree ∧ third.ReferenceFree

/-- There are no references in the argument. -/
def Argument.ReferenceFree : Argument → Prop
  | .mk _ body => body.ReferenceFree

/-- There are no references in the branches. -/
def Branches.ReferenceFree : Branches → Prop
  | .one _ _ body => body.ReferenceFree
  | .more _ _ body rest => body.ReferenceFree ∧ rest.ReferenceFree

end

/-- Whether a function settles some of its arguments before it is generated. These are generated
once, however often the call is repeated. -/
def Builtin.settles : Builtin → Bool
  | expand | words | date | justify _ => true
  | encode _ | byte _ | shuffle | optional => false

/-- There are no references in the pattern, and it calls no function that settles an argument. -/
def Pattern.Repeatable (p : Pattern) : Prop :=
  p.ReferenceFree ∧ p.CallsIn fun f => f.settles = false

/-- There are no references in the construct, and no function is called in it that settles an
argument. -/
def Construct.Repeatable (c : Construct) : Prop :=
  c.ReferenceFree ∧ c.CallsIn fun f => f.settles = false

/-- There are no references in the branches, and no function is called in them that settles an
argument. -/
def Branches.Repeatable (b : Branches) : Prop :=
  b.ReferenceFree ∧ b.CallsIn fun f => f.settles = false

/-- The first construct of a repeatable pattern is repeatable. -/
lemma Pattern.Repeatable.head {c : Construct} {counts : List RepeatCount} {rest : Pattern}
    (h : (Pattern.seq c counts rest).Repeatable) : c.Repeatable := ⟨h.1.1, h.2.1⟩

/-- So is what follows it. -/
lemma Pattern.Repeatable.rest {c : Construct} {counts : List RepeatCount} {rest : Pattern}
    (h : (Pattern.seq c counts rest).Repeatable) : rest.Repeatable := ⟨h.1.2, h.2.2⟩

/-! ## Numbers of groups -/

/-- Both readings of a token are mistakes, or both are constructs with nothing to settle whose
actions mirror each other. -/
def Construct.ReadAlike (stream : WordStream) : (r r' : Except Fault Construct) → Prop
  | .ok c, .ok c' => ∃ action action', c.prepare stream = pure action ∧
      c'.prepare stream = pure action' ∧ action.Mirrors action' Eq
  | .error _, .error _ => True
  | _, _ => False

section Numbers

variable (stream : WordStream)

/-- The part is generated alike behind any numbers of groups, if it is repeatable. -/
def Slice.AnyNumbers (part : Slice) : Prop :=
  ∀ opened, (Pattern.ofSlice opened part).Repeatable → ∀ opened',
    ((Pattern.ofSlice opened part).samples stream).Mirrors
      ((Pattern.ofSlice opened' part).samples stream) Eq

variable {stream}

/-- An argument is generated alike behind any numbers of groups. -/
lemma Slice.AnyNumbers.argument {part : Slice} (h : part.AnyNumbers stream) {opened : Nat}
    (hpart : (Pattern.ofSlice opened part).Repeatable) (opened' : Nat) (span : Span) :
    ((Argument.mk span (Pattern.ofSlice opened part)).sample stream).Mirrors
      ((Argument.mk span (Pattern.ofSlice opened' part)).sample stream) Eq := by
  rw [Argument.sample, Argument.sample]
  exact (h opened hpart opened').bind_eq fun _ => mirrors_pure rfl

section Branches

variable {first : Slice} {others : List Slice}

/-- The same branches are probed behind any numbers of groups. -/
lemma Branches.mirrors_probeOthers (h : ∀ part ∈ first :: others, part.AnyNumbers stream)
    {opened : Nat} (hbranches : (Branches.ofSlices opened first others).Repeatable)
    (opened' choice place : Nat) :
    ((Branches.ofSlices opened first others).probeOthers stream choice place).Mirrors
      ((Branches.ofSlices opened' first others).probeOthers stream choice place) Eq := by
  induction others generalizing opened opened' first place with
  | nil =>
    rw [Branches.ofSlices] at hbranches ⊢
    rw [Branches.ofSlices, Branches.probeOthers, Branches.probeOthers]
    split
    · exact mirrors_pure rfl
    · exact (h first (by simp) opened hbranches opened').probe.bind_eq fun _ => mirrors_pure rfl
  | cons second rest ih =>
    rw [Branches.ofSlices] at hbranches ⊢
    rw [Branches.ofSlices, Branches.probeOthers, Branches.probeOthers]
    have hrest := ih (fun part hpart => h part (List.mem_cons_of_mem _ hpart))
      ⟨hbranches.1.2, hbranches.2.2⟩ (opened' + countGroups first.text) (place + 1)
    have hfirst := h first (by simp) opened ⟨hbranches.1.1, hbranches.2.1⟩ opened'
    split
    · exact hrest
    · exact hfirst.probe.bind_eq fun _ => hrest.bind_eq fun _ => mirrors_pure rfl

/-- The same branch is generated behind any numbers of groups. -/
lemma Branches.mirrors_chosen (h : ∀ part ∈ first :: others, part.AnyNumbers stream)
    {opened : Nat} (hbranches : (Branches.ofSlices opened first others).Repeatable)
    (opened' choice : Nat) :
    ((Branches.ofSlices opened first others).chosen stream choice).Mirrors
      ((Branches.ofSlices opened' first others).chosen stream choice) Eq := by
  induction others generalizing opened opened' first choice with
  | nil =>
    rw [Branches.ofSlices] at hbranches ⊢
    rw [Branches.ofSlices, Branches.chosen, Branches.chosen]
    exact (h first (by simp) opened hbranches opened').bind_eq fun _ => mirrors_pure rfl
  | cons second rest ih =>
    rw [Branches.ofSlices] at hbranches ⊢
    rw [Branches.ofSlices]
    cases choice with
    | zero =>
      rw [Branches.chosen, Branches.chosen]
      exact (h first (by simp) opened ⟨hbranches.1.1, hbranches.2.1⟩ opened').bind_eq fun _ =>
        mirrors_pure rfl
    | succ choice =>
      rw [Branches.chosen, Branches.chosen]
      exact ih (fun part hpart => h part (List.mem_cons_of_mem _ hpart))
        ⟨hbranches.1.2, hbranches.2.2⟩ (opened' + countGroups first.text) choice

end Branches

/-- A token without references is generated alike behind any numbers of groups. -/
lemma Construct.mirrors_ofToken {t : Token}
    (h : ∀ part : Slice, part.length ≤ t.room → part.AnyNumbers stream) {opened : Nat}
    {span : Span}
    (hfree : ∀ c, Construct.ofToken opened span t = .ok c → c.Repeatable) (opened' : Nat) :
    ReadAlike stream (Construct.ofToken opened span t) (Construct.ofToken opened' span t) := by
  cases t with
  | character c =>
    simp only [Construct.ofToken]
    exact ⟨_, _, by rw [Construct.prepare], by rw [Construct.prepare], mirrors_pure rfl⟩
  | oneOf set =>
    simp only [Construct.ofToken]
    exact ⟨_, _, by rw [Construct.prepare], by rw [Construct.prepare],
      mirrors_charSet_sample stream set⟩
  | reference digits =>
    simp only [Construct.ofToken] at hfree
    exact (hfree _ rfl).1.elim
  | repetition count =>
    simp only [Construct.ofToken]
    trivial
  | group body =>
    simp only [Construct.ofToken] at hfree ⊢
    generalize hparts : splitParts '|' body = parts at hfree ⊢
    rcases parts with fault | (_ | ⟨first, _ | ⟨second, rest⟩⟩)
    case error => trivial
    case ok.nil =>
      refine ⟨_, _, by rw [Construct.prepare], by rw [Construct.prepare], ?_⟩
      exact (mirrors_pure (R := Eq) rfl).bind_eq fun _ =>
        (mirrors_record _ _ _ _).bind fun _ _ _ => mirrors_pure rfl
    case ok.cons.nil =>
      have hbody := h body (Nat.le_refl _) (opened + 1) (hfree _ rfl) (opened' + 1)
      refine ⟨_, _, by rw [Construct.prepare], by rw [Construct.prepare], ?_⟩
      exact hbody.bind_eq fun _ => (mirrors_record _ _ _ _).bind fun _ _ _ => mirrors_pure rfl
    case ok.cons.cons =>
      have hbranches := hfree _ rfl
      have hpart : ∀ part ∈ first :: second :: rest, part.AnyNumbers stream := fun part hmem =>
        h part (length_le_of_mem_splitParts hparts hmem)
      refine ⟨_, _, Construct.prepare_alternation _ _ _, Construct.prepare_alternation _ _ _, ?_⟩
      refine mirrors_choose stream (by simp) _ _ fun i j hij => ?_
      simp only [Branches.runChoice, hij, Branches.length_ofSlices]
      exact (Branches.mirrors_probeOthers hpart hbranches _ _ _).bind_eq fun _ =>
        (Branches.mirrors_chosen hpart hbranches _ _).bind_eq fun _ =>
          (mirrors_modify _ _).bind fun _ _ _ => (mirrors_record _ _ _ _).bind fun _ _ _ =>
            mirrors_pure rfl
  | call f arguments =>
    have hargument := h arguments (Nat.le_refl _)
    cases f with
    | encode t =>
      simp only [Construct.ofToken] at hfree ⊢
      have hbody := hargument.argument ⟨(hfree _ rfl).1, (hfree _ rfl).2.2⟩ opened'
        arguments.span
      refine ⟨_, _, by rw [Construct.prepare], by rw [Construct.prepare], ?_⟩
      exact hbody.bind_eq fun _ => mirrors_transformed _ _ _ _
    | shuffle =>
      simp only [Construct.ofToken] at hfree ⊢
      have hbody := hargument.argument ⟨(hfree _ rfl).1, (hfree _ rfl).2.2⟩ opened'
        arguments.span
      refine ⟨_, _, by rw [Construct.prepare], by rw [Construct.prepare], ?_⟩
      exact hbody.bind_eq fun _ => mirrors_shuffled stream _
    | optional =>
      simp only [Construct.ofToken] at hfree ⊢
      have hbody := hargument.argument ⟨(hfree _ rfl).1, (hfree _ rfl).2.2⟩ opened'
        arguments.span
      refine ⟨_, _, by rw [Construct.prepare], by rw [Construct.prepare], ?_⟩
      exact hbody.bind_eq fun _ => mirrors_orNothing stream _
    | byte case =>
      simp only [Construct.ofToken]
      split
      · exact ⟨_, _, by rw [Construct.prepare], by rw [Construct.prepare],
          mirrors_sampleByte stream case⟩
      · trivial
    | words =>
      simp only [Construct.ofToken] at hfree
      split at hfree <;> exact absurd (hfree _ rfl).2.1 (by simp [Builtin.settles])
    | expand | date | justify =>
      -- a call that settles an argument is not repeatable, so there is a mistake in it
      simp only [Construct.ofToken] at hfree ⊢
      generalize splitParts ',' arguments = parts at hfree ⊢
      rcases parts with fault | (_ | ⟨first, _ | ⟨second, _ | ⟨third, _ | ⟨fourth, rest⟩⟩⟩⟩)
      all_goals first | trivial | exact absurd (hfree _ rfl).2.1 (by simp [Builtin.settles])

/-- The instances of a token without references. -/
lemma Construct.ReadAlike.instances {c c' : Construct} (h : ReadAlike stream (.ok c) (.ok c'))
    (counts : List RepeatCount) :
    (c.instances stream counts).Mirrors (c'.instances stream counts) Eq := by
  obtain ⟨action, action', hprepare, hprepare', haction⟩ := h
  rw [Construct.instances, Construct.instances, hprepare, hprepare', pure_bind, pure_bind]
  exact haction.bind_eq fun _ => (mirrors_extras stream counts haction).bind_eq fun _ =>
    mirrors_pure rfl

/-- A reading further on in the text. -/
lemma Construct.ReadAlike.shift_right {r r' : Except Fault Construct} (h : ReadAlike stream r r')
    (k : Nat) : ReadAlike stream r (shiftReading k (Construct.shift k) r') := by
  cases r <;> cases r'
  case error.error => trivial
  case error.ok | ok.error => exact h.elim
  case ok.ok c c' =>
    obtain ⟨action, action', hprepare, hprepare', haction⟩ := h
    refine ⟨action, Run.shift k action', hprepare, ?_, haction.shift_right k⟩
    rw [Construct.prepare_shift, hprepare', Run.shift_pure, map_pure]

end Numbers

variable (stream : WordStream)

/-- **The numbers of groups do not matter** to a slice without references that calls no function
which settles an argument: behind any number of groups it draws the same words and has the same
samples.

**Proof sketch.** By strong induction on the length of the slice. The texts of groups differ from
the first group on, but nothing reads them. -/
theorem Pattern.mirrors_ofSlice (s : Slice) : s.AnyNumbers stream := by
  induction hn : s.length using Nat.strong_induction_on generalizing s with
  | _ n ih =>
    intro opened hrepeatable opened'
    cases hnext : Token.next s with
    | error fault =>
      rw [Pattern.ofSlice, Pattern.ofSlice, hnext]
      exact mirrors_throw _ _
    | ok read =>
      obtain _ | ⟨t, rest⟩ := read
      · rw [Pattern.ofSlice, Pattern.ofSlice, hnext]
        exact mirrors_pure rfl
      · obtain ⟨hroom, hrest⟩ := Token.room_next hnext
        have hparts : ∀ part : Slice, part.length ≤ t.room → part.AnyNumbers stream :=
          fun part hpart => ih part.length (by omega) part rfl
        have hle := length_readCounts_le 1 rest
        have hbehind := ih (readCounts 1 rest).rest.length (by omega) (readCounts 1 rest).rest rfl
        have hfree : ∀ c, Construct.ofToken opened ⟨s.start, rest.start - s.start⟩ t = .ok c →
            c.Repeatable := by
          intro c hc
          rw [Pattern.ofSlice_of_construct hnext hc] at hrepeatable
          exact hrepeatable.head
        have halike := Construct.mirrors_ofToken hparts hfree opened'
        cases hc : Construct.ofToken opened ⟨s.start, rest.start - s.start⟩ t <;>
          cases hc' : Construct.ofToken opened' ⟨s.start, rest.start - s.start⟩ t <;>
            rw [hc, hc'] at halike
        case error.error =>
          rw [Pattern.ofSlice_of_error hnext hc, Pattern.ofSlice_of_error hnext hc']
          exact mirrors_throw _ _
        case error.ok | ok.error => exact halike.elim
        case ok.ok c c' =>
          rw [Pattern.ofSlice_of_construct hnext hc] at hrepeatable ⊢
          rw [Pattern.ofSlice_of_construct hnext hc', Pattern.samples_seq, Pattern.samples_seq]
          refine (halike.instances _).bind_eq fun here => ?_
          cases hfault : (readCounts 1 rest).fault with
          | some fault => exact (mirrors_throw _ _).bind_eq fun _ => mirrors_pure rfl
          | none =>
            simp only [hfault] at hrepeatable
            exact (hbehind _ hrepeatable.rest _).bind_eq fun _ => mirrors_pure rfl

end PatternSampler
