import PatternSampler.Proofs.Reading.Shift
import PatternSampler.Proofs.Run.Ends

set_option autoImplicit false

/-!
# Generating from a moved text

A moved text generates what the text itself generates. Only its mistakes are reported further on.

## Main definitions

* `Run.shift` — an action whose mistakes are reported behind further characters.
* `Slice.sample` — the sample of a slice.

## Main results

* `Pattern.samples_shift` — a moved tree is generated as the tree.
* `Slice.sample_shift` — a moved slice is generated as the slice.
-/

namespace PatternSampler

namespace Run

variable {α β : Type} (k : Nat)

/-- The action, whose mistakes are reported behind `k` further characters. -/
def shift (a : Run α) : Run α := EStateM.adaptExcept (Fault.shift k) a

/-- A moved action does what the action does, and moves its mistakes. -/
lemma shift_apply (a : Run α) (p : Progress) :
    shift k a p = match a p with
      | .ok x q => .ok x q
      | .error fault q => .error (fault.shift k) q := by
  simp only [shift, EStateM.adaptExcept]
  cases a p <;> rfl

/-- A result has no position in the text. -/
@[simp] lemma shift_pure (x : α) : shift k (pure x) = pure x := rfl

/-- A mistake moves along. -/
@[simp] lemma shift_throw (fault : Fault) :
    shift k (throw fault : Run α) = throw (fault.shift k) := rfl

/-- Reading the progress has no position in the text. -/
@[simp] lemma shift_get : shift k (get : Run Progress) = get := rfl

/-- Changing the progress has no position in the text. -/
@[simp] lemma shift_modify (g : Progress → Progress) :
    shift k (modify g : Run PUnit) = modify g := rfl

/-- Recording has no position in the text. -/
@[simp] lemma shift_record (number : Nat) (text : String) :
    shift k (record number text) = record number text := rfl

/-- A draw has no position in the text. -/
@[simp] lemma shift_choose (stream : WordStream) {n : Nat} (h : 0 < n) :
    shift k (choose stream n h) = choose stream n h := rfl

/-- A choice among equally many values. -/
lemma choose_bind_congr (stream : WordStream) {m n : Nat} (h : m = n) (hm : 0 < m) (hn : 0 < n)
    {f : Fin m → Run β} {g : Fin n → Run β} (hfg : ∀ i j, i.val = j.val → f i = g j) :
    choose stream m hm >>= f = choose stream n hn >>= g := by
  subst h
  exact bind_congr fun i => hfg i i rfl

/-- Moving goes through actions one behind the other. -/
@[simp] lemma shift_bind (a : Run α) (f : α → Run β) :
    shift k (a >>= f) = shift k a >>= fun x => shift k (f x) := by
  funext p
  simp only [shift_apply, bind, EStateM.bind]
  cases a p <;> simp

/-- Moving goes through a function of the result. -/
@[simp] lemma shift_map (f : α → β) (a : Run α) : shift k (f <$> a) = f <$> shift k a := by
  simp only [map_eq_pure_bind, shift_bind, shift_pure]

/-- Moving goes through a choice by a condition. -/
@[simp] lemma shift_ite {c : Prop} [Decidable c] (a b : Run α) :
    shift k (if c then a else b) = if c then shift k a else shift k b := by
  split <;> rfl

/-- Moving goes through a probe. -/
@[simp] lemma shift_probe (a : Run α) : shift k (probe a) = probe (shift k a) := by
  simp [probe]

/-- Moving goes through repetition. -/
@[simp] lemma shift_replay (count : Nat) (a : Run α) :
    shift k (replay count a) = replay count (shift k a) := by
  induction count with
  | zero => rfl
  | succ count ih => simp [replay_succ, ih]

end Run

/-! ## Constructs -/

section Constructs

variable (k : Nat) (stream : WordStream)

/-- Drawing a count makes no mistakes. -/
@[simp] lemma RepeatCount.shift_draw (count : RepeatCount) :
    Run.shift k (count.draw stream) = count.draw stream := by
  cases count <;> simp [draw]

/-- A sample of a set makes no mistakes. -/
@[simp] lemma CharSet.shift_sample (set : CharSet) :
    Run.shift k (set.sample stream) = set.sample stream := by
  unfold sample
  split <;> simp

/-- A random byte makes no mistakes. -/
@[simp] lemma shift_sampleByte (case : LetterCase) :
    Run.shift k (sampleByte stream case) = sampleByte stream case := by
  simp [sampleByte]

/-- Random words make no mistakes. -/
@[simp] lemma shift_sampleWords (count : Nat) :
    Run.shift k (sampleWords stream count) = sampleWords stream count := by
  simp [sampleWords, sampleWord]

/-- A random day makes no mistakes. -/
@[simp] lemma shift_sampleDay (first : Int) (days : Nat) (separator : String) :
    Run.shift k (sampleDay stream first days separator) =
      sampleDay stream first days separator := by
  simp [sampleDay, Fault.shift, Cause.shift]

/-- A shuffle makes no mistakes. -/
@[simp] lemma Sample.shift_shuffled (s : Sample) :
    Run.shift k (s.shuffled stream) = s.shuffled stream := rfl

/-- Leaving a sample out makes no mistakes. -/
@[simp] lemma Sample.shift_orNothing (s : Sample) :
    Run.shift k (s.orNothing stream) = s.orNothing stream := by
  simp [orNothing]

/-- A transform reports mistakes at its span. -/
@[simp] lemma Sample.shift_transformed (t : Transform) (span : Span) (s : Sample) :
    Run.shift k (s.transformed t span) = s.transformed t (span.shift k) := by
  unfold transformed
  split <;> simp [Cause.shift]

/-- A repeated construct makes the mistakes of the construct. -/
@[simp] lemma shift_repeated (count : RepeatCount) (action : Run Sample) :
    Run.shift k (repeated stream count action) = repeated stream count (Run.shift k action) := by
  simp [repeated]

/-- The instances that counts add make the mistakes of the construct. -/
@[simp] lemma shift_extras (counts : List RepeatCount) (action : Run Sample) :
    Run.shift k (extras stream counts action) = extras stream counts (Run.shift k action) := by
  induction counts generalizing action with
  | nil => rfl
  | cons count later ih => simp [extras, ih]

/-- Reading a number reports mistakes at its span. -/
@[simp] lemma shift_numberOf {α : Type} (read : List Char → Option α) (span : Span)
    (text : String) :
    Run.shift k (numberOf read span text) = numberOf read (span.shift k) text := by
  unfold numberOf
  split <;> simp [Cause.shift]

/-- Reading a number of words reports mistakes at its span. -/
@[simp] lemma shift_wordCountOf (span : Span) (text : String) :
    Run.shift k (wordCountOf span text) = wordCountOf (span.shift k) text := by
  simp [wordCountOf, Cause.shift]

/-- The years of a date report mistakes at their span. -/
@[simp] lemma shift_daysOf (span : Span) (first last : Int) :
    Run.shift k (daysOf span first last) = daysOf (span.shift k) first last := by
  simp [daysOf, Cause.shift]

/-- Reading a fill reports mistakes at its span. -/
@[simp] lemma shift_fillOf (span : Span) (text : String) :
    Run.shift k (fillOf span text) = fillOf (span.shift k) text := by
  unfold fillOf
  split <;> simp [Cause.shift]

/-- Spans from one span to another move along. -/
@[simp] lemma Span.upTo_shift (first last : Span) :
    (first.shift k).upTo (last.shift k) = (first.upTo last).shift k := by
  simp only [upTo, shift, Span.mk.injEq, true_and]
  omega

/-- A reference reports mistakes at its span. -/
@[simp] lemma Construct.shift_runReference (span : Span) (digits : List Char) :
    Run.shift k (runReference span digits) = runReference (span.shift k) digits := by
  simp only [runReference, Run.shift_bind, Run.shift_get]
  congr 1
  funext p
  split <;> simp [Cause.shift]

/-- The groups of branches do not move. -/
lemma Branches.clearOthers_shift (branches : Branches) (choice : Nat) (groups : GroupTable) :
    (branches.shift k).clearOthers choice groups = branches.clearOthers choice groups := by
  cases branches with
  | one => cases choice <;> rfl
  | more before count body rest =>
    cases choice with
    | zero =>
      rw [Branches.shift, clearOthers, clearOthers, length_shift, clearOthers_shift rest]
    | succ choice => rw [Branches.shift, clearOthers, clearOthers, clearOthers_shift rest]

end Constructs

/-! ## Trees -/

variable (k : Nat) (stream : WordStream)

mutual

/-- A moved tree is generated as the tree. -/
theorem Pattern.samples_shift :
    ∀ t : Pattern, (t.shift k).samples stream = Run.shift k (t.samples stream)
  | .done => by simp [Pattern.shift, Pattern.samples]
  | .stop fault => by simp [Pattern.shift, Pattern.samples]
  | .seq head counts rest => by
    simp [Pattern.shift, Pattern.samples, Construct.prepare_shift head, Pattern.samples_shift rest]

/-- A construct that stands further on is prepared alike. -/
lemma Construct.prepare_shift :
    ∀ c : Construct, (c.shift k).prepare stream = Run.shift k <$> Run.shift k (c.prepare stream)
  | .character c => by simp [Construct.shift, Construct.prepare]
  | .oneOf set => by simp [Construct.shift, Construct.prepare]
  | .reference span digits => by simp [Construct.shift, Construct.prepare_reference]
  | .group number body => by
    simp [Construct.shift, Construct.prepare, Pattern.samples_shift body]
  | .alternation number branches => by
    simp only [Construct.shift, Construct.prepare_alternation, Run.shift_pure, map_pure,
      Run.shift_bind, Run.shift_choose]
    refine congrArg pure (Run.choose_bind_congr stream (Branches.length_shift k branches) _ _
      fun i j hij => ?_)
    simp [Branches.runChoice, hij, Branches.probeOthers_shift _ _ branches,
      Branches.chosen_shift branches, Branches.clearOthers_shift]
  | .encode t argument => by
    simp [Construct.shift, Construct.prepare, Argument.sample_shift argument]
  | .expand argument separator => by
    simp [Construct.shift, Construct.prepare, Argument.sample_shift argument,
      Argument.literal_shift]
  | .byte case => by simp [Construct.shift, Construct.prepare]
  | .words count => by simp [Construct.shift, Construct.prepare, Argument.literal_shift]
  | .date first last separator => by
    simp [Construct.shift, Construct.prepare, Argument.literal_shift]
  | .shuffle argument => by
    simp [Construct.shift, Construct.prepare, Argument.sample_shift argument]
  | .optional argument => by
    simp [Construct.shift, Construct.prepare, Argument.sample_shift argument]
  | .justify alignment argument width fill => by
    simp [Construct.shift, Construct.prepare, Argument.sample_shift argument,
      Argument.literal_shift, Cause.shift, apply_ite (Functor.map (Run.shift k))]

/-- The sample of an argument that stands further on is the moved sample. -/
lemma Argument.sample_shift :
    ∀ a : Argument, (a.shift k).sample stream = Run.shift k (a.sample stream)
  | .mk _ body => by simp [Argument.shift, Argument.sample, Pattern.samples_shift body]

/-- The literal text of an argument that stands further on is read alike. -/
lemma Argument.literal_shift (role : LiteralArgument) :
    ∀ a : Argument, (a.shift k).literal stream role = Run.shift k (a.literal stream role)
  | .mk span body => by
    simp [Argument.shift, Argument.literal, Pattern.samples_shift body, Cause.shift]

/-- Branches that stand further on are probed alike. -/
lemma Branches.probeOthers_shift (choice place : Nat) :
    ∀ b : Branches, (b.shift k).probeOthers stream choice place =
      Run.shift k (b.probeOthers stream choice place)
  | .one _ _ body => by
    simp [Branches.shift, Branches.probeOthers, Pattern.samples_shift body]
  | .more _ _ body rest => by
    simp [Branches.shift, Branches.probeOthers, Pattern.samples_shift body,
      Branches.probeOthers_shift choice (place + 1) rest]

/-- A branch that stands further on is generated alike. -/
lemma Branches.chosen_shift :
    ∀ (b : Branches) (choice : Nat),
      (b.shift k).chosen stream choice = Run.shift k (b.chosen stream choice)
  | .one _ _ body, _ => by simp [Branches.shift, Branches.chosen, Pattern.samples_shift body]
  | .more _ _ body _, 0 => by simp [Branches.shift, Branches.chosen, Pattern.samples_shift body]
  | .more _ _ _ rest, choice + 1 => by
    simp [Branches.shift, Branches.chosen, Branches.chosen_shift rest choice]

end

/-! ## Slices -/

/-- The sample of a slice, behind `opened` opened groups. -/
def Slice.sample (opened : Nat) (s : Slice) : Run Sample := do
  return .join (← (Pattern.ofSlice opened s).samples stream)

/-- A moved slice is generated as the slice. -/
theorem Slice.sample_shift (opened : Nat) (s : Slice) :
    (s.shift k).sample stream opened = Run.shift k (s.sample stream opened) := by
  simp only [Slice.sample, Pattern.ofSlice_shift, Pattern.samples_shift, Run.shift_bind,
    Run.shift_pure]

end PatternSampler
