import Mathlib.Order.Interval.Set.LinearOrder
import PatternSampler.Proofs.Numbering.Tree
import PatternSampler.Proofs.Run.Ends

set_option autoImplicit false

/-!
# The groups that a run fills

A run that ends well gives a text to each group of its tree, also to those in branches that were
not chosen, and it leaves the texts of all other groups as they are.

## Main definitions

* `GroupTable.Fills` — how the table behind a run differs from the one in front of it.
* `Run.Fills` — an action fills a set of groups.

## Main results

* `Pattern.fills_samples` — a tree fills the groups whose numbers stand in it.
-/

namespace PatternSampler

/-! ## Tables -/

/-- The table `t'` has a text for each group of `S`, and agrees with `t` on all others. -/
structure GroupTable.Fills (S : Set Nat) (t t' : GroupTable) : Prop where
  isSome : ∀ n ∈ S, (t'.text? n).isSome
  eq_of_notMem : ∀ n ∉ S, t'.text? n = t.text? n

namespace GroupTable.Fills

variable {S T : Set Nat} {t t' t'' : GroupTable}

/-- No group has to be filled where nothing changes. -/
protected lemma refl (t : GroupTable) : Fills ∅ t t := ⟨fun _ h => h.elim, fun _ _ => rfl⟩

/-- Groups that are filled one after the other. -/
protected lemma trans (h : Fills S t t') (h' : Fills T t' t'') : Fills (S ∪ T) t t'' := by
  refine ⟨fun n hn => ?_, fun n hn => ?_⟩
  · by_cases hT : n ∈ T
    · exact h'.isSome n hT
    · rw [h'.eq_of_notMem n hT]
      exact h.isSome n (hn.resolve_right hT)
  · rw [Set.mem_union, not_or] at hn
    rw [h'.eq_of_notMem n hn.2, h.eq_of_notMem n hn.1]

/-- Filling a part once more changes nothing about what is filled. -/
lemma trans_of_subset (h : Fills S t t') (h' : Fills T t' t'') (hT : T ⊆ S) : Fills S t t'' := by
  have := h.trans h'
  rwa [Set.union_eq_left.2 hT] at this

/-- Recording a text fills the group with its number. -/
protected lemma record (number : Nat) (text : String) (t : GroupTable) :
    Fills {number} t (t.record number text) := by
  refine ⟨fun n hn => ?_, fun n hn => text?_record_of_ne hn text t⟩
  rw [Set.mem_singleton_iff.1 hn, text?_record_self]
  rfl

/-- Making texts empty fills the groups from one number to another. -/
protected lemma clear (before count : Nat) (t : GroupTable) :
    Fills (Set.Ioc before (before + count)) t (t.clear before count) := by
  refine ⟨fun n hn => ?_, fun n hn => ?_⟩
  · rw [text?_clear, if_pos (Set.mem_Ioc.1 hn)]
    rfl
  · rw [text?_clear, if_neg (by simpa using hn)]

end GroupTable.Fills

/-! ## Actions -/

namespace Run

variable {α β : Type} {S T : Set Nat} {a : Run α} {f : α → Run β}

/-- If the action ends well, it has filled the groups of `S`. -/
protected def Fills (a : Run α) (S : Set Nat) : Prop :=
  ∀ p, a.Ends p (fun _ q => p.groups.Fills S q.groups) fun _ _ => True

/-- An action that keeps every condition on the texts of groups fills none. -/
lemma fills_of_keeps {P : α → Prop} (h : ∀ I, a.Keeps I P fun _ => True) : a.Fills ∅ := fun p =>
  (h (p.groups.Fills ∅) p (.refl _)).imp_left fun _ _ h => h.1

/-- An action that does nothing fills no group. -/
lemma fills_pure (x : α) : (pure x : Run α).Fills ∅ := fun p => .refl p.groups

/-- Two actions one behind the other fill the groups of both. -/
lemma Fills.bind (ha : a.Fills S) (hf : ∀ x, (f x).Fills T) : (a >>= f).Fills (S ∪ T) := by
  intro p
  apply (ha p).bind
  intro x q hq
  exact (hf x q).imp_left fun _ _ h => hq.trans h

/-- What follows an action, if it does not fill anything. -/
lemma Fills.bind_left (ha : a.Fills S) (hf : ∀ x, (f x).Fills ∅) : (a >>= f).Fills S := by
  have := ha.bind hf
  rwa [Set.union_empty] at this

/-- An action that fills no group in front of another one. -/
lemma Fills.bind_right (ha : a.Fills ∅) (hf : ∀ x, (f x).Fills T) : (a >>= f).Fills T := by
  have := ha.bind hf
  rwa [Set.empty_union] at this

/-- Nothing is said about an action that fails. -/
lemma fills_throw (fault : Fault) : (throw fault : Run α).Fills S := fun _ => trivial

/-- Recording fills the group with the number. -/
lemma fills_record (number : Nat) (text : String) : (record number text).Fills {number} :=
  fun p => .record number text p.groups

/-- An action fills the groups that its change of the table fills. -/
lemma fills_modify {g : GroupTable → GroupTable} (h : ∀ t : GroupTable, t.Fills S (g t)) :
    (modify fun p => { p with groups := g p.groups } : Run PUnit).Fills S := fun p => h p.groups

/-- A probe takes back whatever its action fills. -/
lemma fills_probe (h : a.Fills S) : (probe a).Fills ∅ := by
  intro p
  rw [ends_probe]
  exact (h p).imp_left fun _ _ _ => .refl p.groups

end Run

open Run

/-! ## Trees -/

/-- Preparing a construct fills some of its groups, and the action that it yields the others. -/
def Construct.FillsBy (stream : WordStream) (c : Construct) (S T : Set Nat) : Prop :=
  ∀ p, (c.prepare stream).Ends p (fun action q => p.groups.Fills S q.groups ∧ action.Fills T)
    fun _ _ => True

/-- The numbers of an interval are its first one and the others. -/
lemma ioc_eq_union_singleton {before after : Nat} (h : before < after) :
    Set.Ioc before after = Set.Ioc (before + 1) after ∪ {before + 1} := by
  ext n
  simp only [Set.mem_Ioc, Set.mem_union, Set.mem_singleton_iff]
  omega

/-- Making empty what was not chosen fills the groups of the other branches. -/
lemma Branches.fills_clearAll {branches : Branches} {before after : Nat}
    (h : branches.Numbered before after) (t : GroupTable) :
    t.Fills (Set.Ioc before after) (branches.clearOthers branches.length t) := by
  match branches, h with
  | .one front count _, ⟨hfront, hafter, _⟩ =>
    rw [← hfront, ← hafter]
    exact .clear front count t
  | .more front count _ rest, ⟨hfront, hbody, hrest⟩ =>
    rw [← hfront] at hbody ⊢
    have := (GroupTable.Fills.clear front count t).trans (fills_clearAll hrest _)
    rwa [Set.Ioc_union_Ioc_eq_Ioc hbody.le hrest.le] at this

/-- Repeating the action of a construct fills no groups but those that it has filled before. -/
lemma Construct.FillsBy.instances {stream : WordStream} {c : Construct} {S T : Set Nat}
    (h : c.FillsBy stream S T) (counts : List RepeatCount) :
    (c.instances stream counts).Fills (S ∪ T) := by
  intro p
  rw [Construct.instances]
  apply (h p).bind
  rintro action q ⟨hq, haction⟩
  apply (haction q).bind
  intro first q' hq'
  have hkeeps : action.Keeps (p.groups.Fills (S ∪ T)) (fun _ => True) fun _ => True := fun r hr =>
    (haction r).imp_left fun _ _ h => ⟨hr.trans_of_subset h Set.subset_union_right, trivial⟩
  exact (keeps_extras stream counts (fun _ _ => trivial) hkeeps q' (hq.trans hq')).bind
    fun _ _ h => h.1

mutual

/-- **Groups of a tree**: a run that ends well gives a text to each group of the tree, and leaves
the texts of all others as they are.

**Proof sketch.** By induction over the tree. Which groups are filled when a construct is prepared
and which by the action that it yields depends on the construct. Together they are all groups of
the construct, and repeating the action fills no others. -/
theorem Pattern.fills_samples (stream : WordStream) {before after : Nat} :
    ∀ {p : Pattern}, p.Numbered before after →
      (p.samples stream).Fills (Set.Ioc before after)
  | .done, h => by
    rw [Pattern.samples, show before = after from h, Set.Ioc_self]
    exact fills_pure _
  | .stop fault, _ => by
    rw [Pattern.samples]
    exact fills_throw fault
  | .seq head counts rest, ⟨mid, hhead, hrest⟩ => by
    rw [Pattern.samples_seq, ← Set.Ioc_union_Ioc_eq_Ioc hhead.le hrest.le]
    obtain ⟨S, T, hST, hprepare⟩ := Construct.fills_prepare stream hhead
    exact (hST ▸ hprepare.instances counts).bind fun _ =>
      (Pattern.fills_samples stream hrest).bind_left fun _ => fills_pure _

/-- A numbered construct fills its groups, some when it is prepared and the others each time it is
generated. -/
lemma Construct.fills_prepare (stream : WordStream) {before after : Nat} :
    ∀ {c : Construct}, c.Numbered before after →
      ∃ S T, S ∪ T = Set.Ioc before after ∧ c.FillsBy stream S T
  | .character c, h => by
    refine ⟨∅, ∅, by simp [show before = after from h], fun p => ?_⟩
    rw [Construct.prepare]
    exact ⟨.refl _, fills_pure _⟩
  | .oneOf set, h => by
    refine ⟨∅, ∅, by simp [show before = after from h], fun p => ?_⟩
    rw [Construct.prepare]
    exact ⟨.refl _, fills_of_keeps fun _ => keeps_charSet_sample stream set⟩
  | .reference span digits, h => by
    refine ⟨∅, ∅, by simp [show before = after from h], fun p => ?_⟩
    rw [Construct.prepare, ends_bind, ends_get]
    split
    · exact ⟨.refl _, fills_pure _⟩
    · trivial
  | .byte case, h => by
    refine ⟨∅, ∅, by simp [show before = after from h], fun p => ?_⟩
    rw [Construct.prepare]
    exact ⟨.refl _, fills_of_keeps fun _ => keeps_sampleByte stream case⟩
  | .group number body, ⟨hnumber, hbody⟩ => by
    have hle := hbody.le
    refine ⟨∅, _, Set.empty_union _, fun p => ?_⟩
    rw [Construct.prepare]
    refine ⟨.refl _, ?_⟩
    rw [ioc_eq_union_singleton (by omega), ← hnumber]
    exact (Pattern.fills_samples stream hbody).bind fun _ =>
      (fills_record number _).bind_left fun _ => fills_pure _
  | .alternation number branches, ⟨hnumber, hbranches⟩ => by
    have hle := hbranches.le
    refine ⟨∅, _, Set.empty_union _, fun p => ?_⟩
    rw [Construct.prepare]
    refine ⟨.refl _, ?_⟩
    rw [ioc_eq_union_singleton (by omega), ← hnumber]
    apply (fills_of_keeps fun _ => keeps_choose stream _).bind_right
    intro choice
    apply (Branches.fills_probeOthers stream hbranches choice 0).bind_right
    intro others
    obtain ⟨S, T, hST, hchosen, hclear⟩ := Branches.fills_chosen stream hbranches choice.isLt
    rw [← hST, Set.union_assoc]
    exact hchosen.bind fun s => (fills_modify hclear).bind fun _ =>
      (fills_record number _).bind_left fun _ => fills_pure _
  | .encode t argument, h => by
    refine ⟨∅, _, Set.empty_union _, fun p => ?_⟩
    rw [Construct.prepare]
    exact ⟨.refl _, (Argument.fills_sample (a := argument) stream h).bind_left fun s =>
      fills_of_keeps fun _ => keeps_transformed _ s fun _ _ => trivial⟩
  | .expand argument separator, ⟨mid, hargument, hseparator⟩ => by
    refine ⟨_, _, (Set.union_comm _ _).trans
      (Set.Ioc_union_Ioc_eq_Ioc hargument.le hseparator.le), fun p => ?_⟩
    rw [Construct.prepare]
    apply (Argument.fills_literal stream .separator hseparator p).bind
    intro sep q hq
    exact ⟨hq, (Argument.fills_sample stream hargument).bind_left fun s =>
      fills_of_keeps fun _ => keeps_transformed _ s fun _ _ => trivial⟩
  | .words count, h => by
    refine ⟨_, ∅, Set.union_empty _, fun p => ?_⟩
    rw [Construct.prepare]
    apply (Argument.fills_literal (a := count) stream .wordCount h p).bind
    intro text q hq
    apply (keeps_wordCountOf (I := p.groups.Fills _) text (fun _ _ => trivial) q hq).bind
    rintro number r ⟨hr, _⟩
    exact ⟨hr, fills_of_keeps fun _ => keeps_sampleWords stream number⟩
  | .date first last separator, ⟨mid, mid', hfirst, hlast, hseparator⟩ => by
    refine ⟨_, ∅, Set.union_empty _, fun p => ?_⟩
    have hle := hlast.le
    have hle' := hseparator.le
    rw [← Set.Ioc_union_Ioc_eq_Ioc hfirst.le (hle.trans hle'),
      ← Set.Ioc_union_Ioc_eq_Ioc hle hle', Construct.prepare]
    apply (Argument.fills_literal stream .year hfirst p).bind
    intro text q hq
    apply (keeps_numberOf (I := p.groups.Fills _) _ text (fun _ _ => trivial) q hq).bind
    rintro firstYear q ⟨hq, _⟩
    apply (Argument.fills_literal stream .year hlast q).bind
    intro text r hr
    apply (keeps_numberOf (I := q.groups.Fills _) _ text (fun _ _ => trivial) r hr).bind
    rintro lastYear r ⟨hr, _⟩
    refine (keeps_daysOf (I := q.groups.Fills _) firstYear lastYear (fun _ _ => trivial) r hr).bind
      fun days r ⟨hr, hdays⟩ => ?_
    apply (Argument.fills_literal stream .separator hseparator r).bind
    intro sep r' hr'
    exact ⟨hq.trans (hr.trans hr'), fills_of_keeps fun _ =>
      keeps_sampleDay stream sep hdays.2⟩
  | .shuffle argument, h => by
    refine ⟨∅, _, Set.empty_union _, fun p => ?_⟩
    rw [Construct.prepare]
    exact ⟨.refl _, (Argument.fills_sample (a := argument) stream h).bind_left fun s =>
      fills_of_keeps fun _ => keeps_shuffled stream s⟩
  | .optional argument, h => by
    refine ⟨∅, _, Set.empty_union _, fun p => ?_⟩
    rw [Construct.prepare]
    exact ⟨.refl _, (Argument.fills_sample (a := argument) stream h).bind_left fun s =>
      fills_of_keeps fun _ => keeps_orNothing stream s⟩
  | .justify alignment argument width fill, ⟨mid, mid', hargument, hwidth, hfill⟩ => by
    have hle := hwidth.le
    have hle' := hfill.le
    refine ⟨_, _, (Set.union_comm _ _).trans
      (Set.Ioc_union_Ioc_eq_Ioc hargument.le (hle.trans hle')), fun p => ?_⟩
    rw [← Set.Ioc_union_Ioc_eq_Ioc hle hle', Construct.prepare]
    apply (Argument.fills_literal stream .width hwidth p).bind
    intro text q hq
    apply (keeps_numberOf (I := p.groups.Fills _) _ text (fun _ _ => trivial) q hq).bind
    rintro columns q ⟨hq, _⟩
    apply (Argument.fills_literal stream .fill hfill q).bind
    intro text r hr
    apply (keeps_fillOf (I := q.groups.Fills _) text (fun _ _ => trivial) r hr).bind
    rintro filling r ⟨hr, _⟩
    refine ends_ite (fun _ => trivial) ?_
    intro _
    exact ⟨hq.trans hr, (Argument.fills_sample stream hargument).bind_left fun _ => fills_pure _⟩

/-- The sample of an argument fills the groups of the argument. -/
lemma Argument.fills_sample (stream : WordStream) {before after : Nat} :
    ∀ {a : Argument}, a.Numbered before after → (a.sample stream).Fills (Set.Ioc before after)
  | .mk _ body, h => by
    rw [Argument.sample]
    exact (Pattern.fills_samples (p := body) stream h).bind_left fun _ => fills_pure _

/-- Reading a literal argument fills its groups. -/
lemma Argument.fills_literal (stream : WordStream) (role : LiteralArgument) {before after : Nat} :
    ∀ {a : Argument}, a.Numbered before after →
      (a.literal stream role).Fills (Set.Ioc before after)
  | .mk span body, h => by
    rw [Argument.literal]
    apply (Pattern.fills_samples (p := body) stream h).bind_left
    intro samples p
    exact ends_ite (fun _ => trivial) fun _ => .refl _

/-- Probing the branches that are not chosen leaves the table as it was. -/
lemma Branches.fills_probeOthers (stream : WordStream) {before after : Nat} :
    ∀ {branches : Branches}, branches.Numbered before after → ∀ choice place : Nat,
      (branches.probeOthers stream choice place).Fills ∅
  | .one _ _ body, ⟨_, _, hbody⟩, choice, place => by
    rw [Branches.probeOthers]
    split
    · exact fills_pure _
    · exact (fills_probe (Pattern.fills_samples stream hbody)).bind_left fun _ => fills_pure _
  | .more _ _ body rest, ⟨_, hbody, hrest⟩, choice, place => by
    rw [Branches.probeOthers]
    split
    · exact Branches.fills_probeOthers stream hrest choice (place + 1)
    · exact (fills_probe (Pattern.fills_samples stream hbody)).bind_left fun _ =>
        (Branches.fills_probeOthers stream hrest choice (place + 1)).bind_left fun _ =>
          fills_pure _

/-- The chosen branch fills its own groups, and the texts of the others are made empty. -/
lemma Branches.fills_chosen (stream : WordStream) {before after : Nat} :
    ∀ {branches : Branches}, branches.Numbered before after →
      ∀ {choice : Nat}, choice < branches.length →
        ∃ S T, S ∪ T = Set.Ioc before after ∧ (branches.chosen stream choice).Fills S ∧
          ∀ t : GroupTable, t.Fills T (branches.clearOthers choice t)
  | .one _ count body, ⟨_, _, hbody⟩, 0, _ => by
    refine ⟨_, ∅, Set.union_empty _, ?_, fun t => .refl t⟩
    rw [Branches.chosen]
    exact (Pattern.fills_samples stream hbody).bind_left fun _ => fills_pure _
  | .one _ _ _, _, _ + 1, hchoice => by
    simp [Branches.length] at hchoice
  | .more front count body rest, ⟨hfront, hbody, hrest⟩, 0, _ => by
    rw [← hfront] at hbody ⊢
    refine ⟨_, _, Set.Ioc_union_Ioc_eq_Ioc hbody.le hrest.le, ?_,
      fun t => Branches.fills_clearAll hrest t⟩
    rw [Branches.chosen]
    exact (Pattern.fills_samples stream hbody).bind_left fun _ => fills_pure _
  | .more front count body rest, ⟨hfront, hbody, hrest⟩, choice + 1, hchoice => by
    rw [← hfront] at hbody ⊢
    have hlater : choice < rest.length := by simpa [Branches.length] using hchoice
    obtain ⟨S, T, hST, hchosen, hclear⟩ := Branches.fills_chosen stream hrest hlater
    refine ⟨S, _, ?_, ?_, fun t => (GroupTable.Fills.clear front count t).trans (hclear _)⟩
    · rw [Set.union_left_comm, hST, Set.Ioc_union_Ioc_eq_Ioc hbody.le hrest.le]
    · rw [Branches.chosen]
      exact hchosen

end

end PatternSampler
