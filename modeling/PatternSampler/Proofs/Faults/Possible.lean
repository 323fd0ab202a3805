import Mathlib.Order.Interval.Set.LinearOrder
import Mathlib.Tactic.Common
import PatternSampler.Proofs.Numbering.Tree

set_option autoImplicit false

/-!
# Possible faults

Whether a text is random, which groups have a text, and which mistakes can be reported are read off
the tree of a pattern. None of this looks at random words.

## Main definitions

* `Pattern.CallsIn` — the functions that a pattern calls have a property.
* `Builtin.failFree` — the functions that yield a text for any text.
* `Pattern.isRandom` — whether the text of a pattern depends on random words.
* `Pattern.opens` — whether a group belongs to a pattern.
* `Pattern.faults` — the mistakes that a run of a pattern can end with.

## Main results

* `Pattern.opens_iff` — the groups of a pattern without faults are those that it is numbered with.
* `Pattern.faults_mono` — a pattern without faults has none behind further groups.

## Implementation notes

The mistakes of calls that can fail depend on generated texts. They are left out here, and all
results are about patterns whose calls cannot fail.
-/

namespace PatternSampler

/-! ## Calls -/

mutual

/-- All functions that a pattern calls have the property `P`. -/
def Pattern.CallsIn (P : Builtin → Prop) : Pattern → Prop
  | .done | .stop _ => True
  | .seq head _ rest => head.CallsIn P ∧ rest.CallsIn P

/-- All functions that are called in a construct have the property `P`. -/
def Construct.CallsIn (P : Builtin → Prop) : Construct → Prop
  | .character _ | .oneOf _ | .reference _ _ => True
  | .group _ body => body.CallsIn P
  | .alternation _ branches => branches.CallsIn P
  | .encode t argument => P (.encode t) ∧ argument.CallsIn P
  | .expand argument separator => P .expand ∧ argument.CallsIn P ∧ separator.CallsIn P
  | .byte case => P (.byte case)
  | .words count => P .words ∧ count.CallsIn P
  | .date first last separator =>
    P .date ∧ first.CallsIn P ∧ last.CallsIn P ∧ separator.CallsIn P
  | .shuffle argument => P .shuffle ∧ argument.CallsIn P
  | .optional argument => P .optional ∧ argument.CallsIn P
  | .justify alignment argument width fill =>
    P (.justify alignment) ∧ argument.CallsIn P ∧ width.CallsIn P ∧ fill.CallsIn P

/-- All functions that are called in an argument have the property `P`. -/
def Argument.CallsIn (P : Builtin → Prop) : Argument → Prop
  | .mk _ body => body.CallsIn P

/-- All functions that are called in branches have the property `P`. -/
def Branches.CallsIn (P : Builtin → Prop) : Branches → Prop
  | .one _ _ body => body.CallsIn P
  | .more _ _ body rest => body.CallsIn P ∧ rest.CallsIn P

end

section Imp

variable {P P' : Builtin → Prop}

mutual

/-- Functions with a property have any weaker property. -/
lemma Pattern.CallsIn.imp (h : ∀ f, P f → P' f) : ∀ {p : Pattern}, p.CallsIn P → p.CallsIn P'
  | .done, _ | .stop _, _ => trivial
  | .seq _ _ _, hp => ⟨Construct.CallsIn.imp h hp.1, Pattern.CallsIn.imp h hp.2⟩

/-- Functions called in a construct with a property have any weaker property. -/
lemma Construct.CallsIn.imp (h : ∀ f, P f → P' f) :
    ∀ {c : Construct}, c.CallsIn P → c.CallsIn P'
  | .character _, _ | .oneOf _, _ | .reference _ _, _ => trivial
  | .group _ body, hc => Pattern.CallsIn.imp (p := body) h hc
  | .alternation _ branches, hc => Branches.CallsIn.imp (b := branches) h hc
  | .byte _, hc => h _ hc
  | .encode _ _, hc | .words _, hc | .shuffle _, hc | .optional _, hc =>
    ⟨h _ hc.1, Argument.CallsIn.imp h hc.2⟩
  | .expand _ _, hc =>
    ⟨h _ hc.1, Argument.CallsIn.imp h hc.2.1, Argument.CallsIn.imp h hc.2.2⟩
  | .date _ _ _, hc | .justify _ _ _ _, hc =>
    ⟨h _ hc.1, Argument.CallsIn.imp h hc.2.1, Argument.CallsIn.imp h hc.2.2.1,
      Argument.CallsIn.imp h hc.2.2.2⟩

/-- Functions called in an argument with a property have any weaker property. -/
lemma Argument.CallsIn.imp (h : ∀ f, P f → P' f) :
    ∀ {a : Argument}, a.CallsIn P → a.CallsIn P'
  | .mk _ body, ha => Pattern.CallsIn.imp (p := body) h ha

/-- Functions called in branches with a property have any weaker property. -/
lemma Branches.CallsIn.imp (h : ∀ f, P f → P' f) :
    ∀ {b : Branches}, b.CallsIn P → b.CallsIn P'
  | .one _ _ body, hb => Pattern.CallsIn.imp (p := body) h hb
  | .more _ _ _ _, hb => ⟨Pattern.CallsIn.imp h hb.1, Branches.CallsIn.imp h hb.2⟩

end

end Imp

/-- The functions that yield a text for any text. -/
def Builtin.failFree : List Builtin :=
  ["hex", "HEX", "escape", "json", "space", "expand", "romaji", "shuffle", "?", "byte",
    "BYTE"].filterMap ofName?

/-- A pattern whose calls cannot fail by themselves. -/
abbrev Pattern.FailFree (p : Pattern) : Prop := p.CallsIn (· ∈ Builtin.failFree)

/-- A pattern without calls. -/
abbrev Pattern.CallFree (p : Pattern) : Prop := p.CallsIn fun _ => False

/-- A pattern without calls has no calls that fail. -/
lemma Pattern.CallFree.failFree {p : Pattern} (h : p.CallFree) : p.FailFree :=
  h.imp fun _ => False.elim

/-! ## Randomness -/

mutual

/-- Whether the text of a pattern depends on random words. -/
def Pattern.isRandom : Pattern → Bool
  | .done | .stop _ => false
  | .seq head _ rest => head.isRandom || rest.isRandom

/-- Whether the text of a construct depends on random words. -/
def Construct.isRandom : Construct → Bool
  | .character _ | .reference _ _ => false
  | .oneOf set => 2 ≤ set.size
  | .group _ body => body.isRandom
  | .alternation _ branches => branches.isRandom
  | .encode _ argument | .expand argument _ | .shuffle argument | .justify _ argument _ _ =>
    argument.isRandom
  | .byte _ | .words _ | .date _ _ _ | .optional _ => true

/-- Whether the text of an argument depends on random words. -/
def Argument.isRandom : Argument → Bool
  | .mk _ body => body.isRandom

/-- Whether the text of one of several branches depends on random words. A choice always does. -/
def Branches.isRandom : Branches → Bool
  | .one _ _ body => body.isRandom
  | .more _ _ _ _ => true

end

/-! ## Groups -/

mutual

/-- Whether the group with a number belongs to a pattern. -/
def Pattern.opens : Pattern → Nat → Bool
  | .done, _ | .stop _, _ => false
  | .seq head _ rest, n => head.opens n || rest.opens n

/-- Whether the group with a number belongs to a construct. -/
def Construct.opens : Construct → Nat → Bool
  | .character _, _ | .oneOf _, _ | .reference _ _, _ | .byte _, _ => false
  | .group number body, n => n = number || body.opens n
  | .alternation number branches, n => n = number || branches.opens n
  | .encode _ argument, n | .words argument, n | .shuffle argument, n | .optional argument, n =>
    argument.opens n
  | .expand argument separator, n => argument.opens n || separator.opens n
  | .date first last separator, n => first.opens n || last.opens n || separator.opens n
  | .justify _ argument width fill, n => argument.opens n || width.opens n || fill.opens n

/-- Whether the group with a number belongs to an argument. -/
def Argument.opens : Argument → Nat → Bool
  | .mk _ body, n => body.opens n

/-- Whether the group with a number belongs to one of several branches. -/
def Branches.opens : Branches → Nat → Bool
  | .one _ _ body, n => body.opens n
  | .more _ _ body rest, n => body.opens n || rest.opens n

end

/-- The groups that preparing a construct gives a text to. -/
def Construct.earlyOpens : Construct → Nat → Bool
  | .expand _ separator, n => separator.opens n
  | _, _ => false

/-- The groups that have a text behind a part which opens some. -/
def extended (known opens : Nat → Bool) : Nat → Bool := fun n => known n || opens n

/-! ## Faults -/

/-- The faults of a part, or, if it has none, those of what follows it. -/
def orLater (faults later : List Fault) : List Fault :=
  match faults with
  | [] => later
  | faults => faults

/-- Behind a part without faults come those of what follows it. -/
@[simp] lemma orLater_nil (later : List Fault) : orLater [] later = later := rfl

/-- There are no faults if neither part has any. -/
@[simp] lemma orLater_eq_nil {faults later : List Fault} :
    orLater faults later = [] ↔ faults = [] ∧ later = [] := by
  cases faults <;> simp [orLater]

/-- A fault of the first part is a fault, and one of the second part is if the first one has none.
-/
lemma mem_orLater {faults later : List Fault} {fault : Fault} :
    fault ∈ orLater faults later ↔ fault ∈ faults ∨ faults = [] ∧ fault ∈ later := by
  cases faults <;> simp [orLater]

mutual

/-- The mistakes that a run of a pattern can end with, if the groups `known` have a text in front
of it. What comes behind a construct with faults is not reached. -/
def Pattern.faults : Pattern → (known : Nat → Bool) → List Fault
  | .done, _ => []
  | .stop fault, _ => [fault]
  | .seq head _ rest, known =>
    orLater (orLater (head.earlyFaults known) (head.lateFaults (extended known head.earlyOpens)))
      (rest.faults (extended known head.opens))

/-- The mistakes that preparing a construct can end with. -/
def Construct.earlyFaults : Construct → (known : Nat → Bool) → List Fault
  | .reference span digits, known =>
    if (decimal? digits).any known then []
    else [.within (.invalidReference (String.ofList digits)) span]
  | .expand _ separator, known =>
    orLater (separator.faults known)
      (if separator.isRandom then [.within (.randomArgument .separator) separator.span] else [])
  | _, _ => []

/-- The mistakes that generating a prepared construct can end with. Those of an alternation depend
on the branch that is chosen. -/
def Construct.lateFaults : Construct → (known : Nat → Bool) → List Fault
  | .group _ body, known => body.faults known
  | .alternation _ branches, known =>
    (List.range branches.length).flatMap fun choice =>
      orLater (branches.othersFaults choice 0 known) (branches.chosenFaults choice known)
  | .encode _ argument, known | .expand argument _, known | .shuffle argument, known
  | .optional argument, known => argument.faults known
  | _, _ => []

/-- The mistakes that a run of an argument can end with. -/
def Argument.faults : Argument → (known : Nat → Bool) → List Fault
  | .mk _ body, known => body.faults known

/-- The mistakes that runs of the branches which are not chosen can end with. The first branch
stands at `place`. -/
def Branches.othersFaults : Branches → (choice place : Nat) → (known : Nat → Bool) → List Fault
  | .one _ _ body, choice, place, known => if place = choice then [] else body.faults known
  | .more _ _ body rest, choice, place, known =>
    orLater (if place = choice then [] else body.faults known)
      (rest.othersFaults choice (place + 1) known)

/-- The mistakes that a run of the chosen branch can end with. -/
def Branches.chosenFaults : Branches → (choice : Nat) → (known : Nat → Bool) → List Fault
  | .one _ _ body, _, known => body.faults known
  | .more _ _ body _, 0, known => body.faults known
  | .more _ _ _ rest, choice + 1, known => rest.chosenFaults choice known

end

/-! ## Patterns without faults -/

/-- A fault under a condition is missing exactly where the condition holds. -/
lemma faults_ite_eq_nil {c : Prop} [Decidable c] {fault : Fault} :
    (if c then [] else [fault]) = [] ↔ c := by
  split <;> simp_all

/-- An alternation has no faults if no choice leads to any. -/
lemma Construct.lateFaults_alternation_eq_nil {number : Nat} {branches : Branches}
    {known : Nat → Bool} :
    (Construct.alternation number branches).lateFaults known = [] ↔
      ∀ choice < branches.length, branches.othersFaults choice 0 known = [] ∧
        branches.chosenFaults choice known = [] := by
  simp [Construct.lateFaults]

/-- The patterns of the branches. -/
def Branches.bodies : Branches → List Pattern
  | .one _ _ body => [body]
  | .more _ _ body rest => body :: rest.bodies

/-- Behind the chosen place the faults are those of all branches. -/
lemma Branches.othersFaults_eq_nil_of_lt {known : Nat → Bool} {choice : Nat} :
    ∀ {branches : Branches} {place : Nat}, choice < place →
      (branches.othersFaults choice place known = [] ↔
        ∀ body ∈ branches.bodies, body.faults known = [])
  | .one _ _ body, place, h => by
    rw [Branches.othersFaults, if_neg (by omega), Branches.bodies, List.forall_mem_singleton]
  | .more _ _ body rest, place, h => by
    rw [Branches.othersFaults, if_neg (by omega), orLater_eq_nil, Branches.bodies,
      List.forall_mem_cons, othersFaults_eq_nil_of_lt (Nat.lt_succ_of_lt h)]

/-- Whichever branch is chosen, all of them are run. -/
lemma Branches.faults_eq_nil_iff {known : Nat → Bool} :
    ∀ {branches : Branches} {choice : Nat} (place : Nat), choice < branches.length →
      (branches.othersFaults (place + choice) place known = [] ∧
          branches.chosenFaults choice known = [] ↔
        ∀ body ∈ branches.bodies, body.faults known = [])
  | .one _ _ body, choice, place, h => by
    obtain rfl : choice = 0 := by simpa [Branches.length] using h
    simp [Branches.othersFaults, Branches.chosenFaults, Branches.bodies]
  | .more _ _ body rest, 0, place, _ => by
    rw [Branches.othersFaults, if_pos (by omega), orLater_nil, Branches.chosenFaults,
      Branches.bodies, List.forall_mem_cons, othersFaults_eq_nil_of_lt (by omega), and_comm]
  | .more _ _ body rest, choice + 1, place, h => by
    have hrest := @faults_eq_nil_iff known rest _ (place + 1) (Nat.lt_of_succ_lt_succ h)
    rw [Nat.add_right_comm, Nat.add_assoc] at hrest
    rw [Branches.othersFaults, if_neg (by omega), orLater_eq_nil, Branches.chosenFaults,
      Branches.bodies, List.forall_mem_cons, and_assoc, hrest]

/-- An alternation has no faults if one choice shows none. -/
lemma Construct.lateFaults_eq_nil_of_choice {number : Nat} {branches : Branches}
    {known : Nat → Bool} {choice : Nat} (h : choice < branches.length)
    (hothers : branches.othersFaults choice 0 known = [])
    (hchosen : branches.chosenFaults choice known = []) :
    (Construct.alternation number branches).lateFaults known = [] := by
  rw [lateFaults_alternation_eq_nil]
  intro choice' h'
  have hall := (Branches.faults_eq_nil_iff 0 h).1 ⟨by rwa [Nat.zero_add], hchosen⟩
  have := (Branches.faults_eq_nil_iff 0 h').2 hall
  rwa [Nat.zero_add] at this

mutual

/-- A pattern without faults has none behind further groups. -/
lemma Pattern.faults_mono {known known' : Nat → Bool} (h : ∀ n, known n → known' n) :
    ∀ {p : Pattern}, p.faults known = [] → p.faults known' = []
  | .done, _ => rfl
  | .stop _, hp => by simp [Pattern.faults] at hp
  | .seq head _ rest, hp => by
    simp only [Pattern.faults, orLater_eq_nil] at hp ⊢
    have hextended : ∀ opens n, extended known opens n → extended known' opens n := by
      intro opens n
      simp only [extended, Bool.or_eq_true]
      exact Or.imp_left (h n)
    exact ⟨⟨Construct.earlyFaults_mono h hp.1.1, Construct.lateFaults_mono (hextended _) hp.1.2⟩,
      Pattern.faults_mono (hextended _) hp.2⟩

/-- A construct without early faults has none either where more groups have texts. -/
lemma Construct.earlyFaults_mono {known known' : Nat → Bool} (h : ∀ n, known n → known' n) :
    ∀ {c : Construct}, c.earlyFaults known = [] → c.earlyFaults known' = []
  | .reference _ digits, hc => by
    simp only [Construct.earlyFaults, faults_ite_eq_nil] at hc ⊢
    cases hdigits : decimal? digits with
    | none => simp [hdigits] at hc
    | some n =>
      rw [hdigits] at hc
      exact h n hc
  | .expand _ separator, hc => by
    simp only [Construct.earlyFaults, orLater_eq_nil] at hc ⊢
    exact ⟨Argument.faults_mono h hc.1, hc.2⟩
  | .character _, _ | .oneOf _, _ | .group _ _, _ | .alternation _ _, _ | .encode _ _, _
  | .byte _, _ | .words _, _ | .date _ _ _, _ | .shuffle _, _ | .optional _, _
  | .justify _ _ _ _, _ => rfl

/-- A construct without late faults has none either where more groups have texts. -/
lemma Construct.lateFaults_mono {known known' : Nat → Bool} (h : ∀ n, known n → known' n) :
    ∀ {c : Construct}, c.lateFaults known = [] → c.lateFaults known' = []
  | .group _ body, hc => Pattern.faults_mono (p := body) h hc
  | .alternation _ branches, hc => by
    rw [Construct.lateFaults_alternation_eq_nil] at hc ⊢
    exact fun choice hchoice => ⟨Branches.othersFaults_mono h (hc choice hchoice).1,
      Branches.chosenFaults_mono h (hc choice hchoice).2⟩
  | .encode _ argument, hc | .expand argument _, hc | .shuffle argument, hc
  | .optional argument, hc => Argument.faults_mono (a := argument) h hc
  | .character _, _ | .oneOf _, _ | .reference _ _, _ | .byte _, _ | .words _, _
  | .date _ _ _, _ | .justify _ _ _ _, _ => rfl

/-- An argument without faults has none either where more groups have texts. -/
lemma Argument.faults_mono {known known' : Nat → Bool} (h : ∀ n, known n → known' n) :
    ∀ {a : Argument}, a.faults known = [] → a.faults known' = []
  | .mk _ body, ha => Pattern.faults_mono (p := body) h ha

/-- Branches that are not chosen and have no faults have none either where more groups have texts.
-/
lemma Branches.othersFaults_mono {known known' : Nat → Bool} (h : ∀ n, known n → known' n) :
    ∀ {branches : Branches} {choice place : Nat}, branches.othersFaults choice place known = [] →
      branches.othersFaults choice place known' = []
  | .one _ _ body, choice, place, hb => by
    simp only [Branches.othersFaults] at hb ⊢
    split
    · rfl
    · rename_i hne
      rw [if_neg hne] at hb
      exact Pattern.faults_mono h hb
  | .more _ _ body rest, choice, place, hb => by
    simp only [Branches.othersFaults, orLater_eq_nil] at hb ⊢
    refine ⟨?_, Branches.othersFaults_mono h hb.2⟩
    split
    · rfl
    · rename_i hne
      rw [if_neg hne] at hb
      exact Pattern.faults_mono h hb.1

/-- A chosen branch without faults has none either where more groups have texts. -/
lemma Branches.chosenFaults_mono {known known' : Nat → Bool} (h : ∀ n, known n → known' n) :
    ∀ {branches : Branches} {choice : Nat}, branches.chosenFaults choice known = [] →
      branches.chosenFaults choice known' = []
  | .one _ _ body, _, hb => Pattern.faults_mono (p := body) h hb
  | .more _ _ body _, 0, hb => Pattern.faults_mono (p := body) h hb
  | .more _ _ _ rest, _ + 1, hb => @Branches.chosenFaults_mono _ _ h rest _ hb

end

/-- The functions that cannot fail are none of those with further conditions on their arguments. -/
lemma Builtin.failFree_eq : failFree =
    [encode (.hex .lower), encode (.hex .upper), encode .escape, encode .json,
      encode (.expand " "), expand, encode .romaji, shuffle, optional, byte .lower,
      byte .upper] := by
  rfl

mutual

/-- The groups of a pattern without faults are those that it is numbered with. -/
lemma Pattern.opens_iff {known : Nat → Bool} {before after : Nat} :
    ∀ {p : Pattern}, p.FailFree → p.Numbered before after → p.faults known = [] →
      ∀ n, p.opens n ↔ n ∈ Set.Ioc before after
  | .done, _, hnum, _, n => by simp [Pattern.opens, show before = after from hnum]
  | .stop _, _, _, hp, _ => by simp [Pattern.faults] at hp
  | .seq head _ rest, hcalls, ⟨mid, hhead, hrest⟩, hp, n => by
    simp only [Pattern.faults, orLater_eq_nil] at hp
    rw [Pattern.opens, Bool.or_eq_true, Construct.opens_iff hcalls.1 hhead hp.1.1 hp.1.2 n,
      Pattern.opens_iff hcalls.2 hrest hp.2 n, ← Set.mem_union,
      Set.Ioc_union_Ioc_eq_Ioc hhead.le hrest.le]

/-- The groups that belong to a construct without faults are those with its numbers. -/
lemma Construct.opens_iff {known known' : Nat → Bool} {before after : Nat} :
    ∀ {c : Construct}, c.CallsIn (· ∈ Builtin.failFree) → c.Numbered before after →
      c.earlyFaults known = [] → c.lateFaults known' = [] →
        ∀ n, c.opens n ↔ n ∈ Set.Ioc before after
  | .character _, _, hnum, _, _, n | .oneOf _, _, hnum, _, _, n | .reference _ _, _, hnum, _, _, n
  | .byte _, _, hnum, _, _, n => by
    simp [Construct.opens, show before = after from hnum]
  | .group number body, hcalls, ⟨hnumber, hbody⟩, _, hlate, n => by
    have hle := hbody.le
    rw [Construct.opens, Bool.or_eq_true, decide_eq_true_eq,
      Pattern.opens_iff hcalls hbody hlate n, Set.mem_Ioc, Set.mem_Ioc]
    omega
  | .alternation number branches, hcalls, ⟨hnumber, hbranches⟩, _, hlate, n => by
    rw [Construct.lateFaults_alternation_eq_nil] at hlate
    have hle := hbranches.le
    rw [Construct.opens, Bool.or_eq_true, decide_eq_true_eq,
      Branches.opens_iff hcalls hbranches (fun choice hchoice => (hlate choice hchoice).2) n,
      Set.mem_Ioc, Set.mem_Ioc]
    omega
  | .encode _ argument, hcalls, hnum, _, hlate, n | .shuffle argument, hcalls, hnum, _, hlate, n
  | .optional argument, hcalls, hnum, _, hlate, n =>
    Argument.opens_iff (a := argument) hcalls.2 hnum hlate n
  | .expand argument separator, hcalls, ⟨mid, hargument, hseparator⟩, hearly, hlate, n => by
    simp only [Construct.earlyFaults, orLater_eq_nil] at hearly
    rw [Construct.opens, Bool.or_eq_true, Argument.opens_iff hcalls.2.1 hargument hlate n,
      Argument.opens_iff hcalls.2.2 hseparator hearly.1 n, ← Set.mem_union,
      Set.Ioc_union_Ioc_eq_Ioc hargument.le hseparator.le]
  | .words _, hcalls, _, _, _, _ | .date _ _ _, hcalls, _, _, _, _ => by
    have := hcalls.1
    simp [Builtin.failFree_eq] at this
  | .justify _ _ _ _, hcalls, _, _, _, _ => by
    have := hcalls.1
    simp [Builtin.failFree_eq] at this

/-- The groups that belong to an argument without faults are those with its numbers. -/
lemma Argument.opens_iff {known : Nat → Bool} {before after : Nat} :
    ∀ {a : Argument}, a.CallsIn (· ∈ Builtin.failFree) → a.Numbered before after →
      a.faults known = [] → ∀ n, a.opens n ↔ n ∈ Set.Ioc before after
  | .mk _ body, hcalls, hnum, ha, n => Pattern.opens_iff (p := body) hcalls hnum ha n

/-- The groups that belong to branches without faults are those with their numbers. -/
lemma Branches.opens_iff {known : Nat → Bool} {before after : Nat} :
    ∀ {branches : Branches}, branches.CallsIn (· ∈ Builtin.failFree) →
      branches.Numbered before after →
        (∀ choice < branches.length, branches.chosenFaults choice known = []) →
          ∀ n, branches.opens n ↔ n ∈ Set.Ioc before after
  | .one _ _ body, hcalls, ⟨_, _, hbody⟩, hchosen, n =>
    Pattern.opens_iff (p := body) hcalls hbody (hchosen 0 Nat.one_pos) n
  | .more front count body rest, hcalls, ⟨hfront, hbody, hrest⟩, hchosen, n => by
    have hlater : ∀ choice < rest.length, rest.chosenFaults choice known = [] := by
      intro choice hchoice
      exact hchosen (choice + 1) (Nat.succ_lt_succ hchoice)
    rw [Branches.opens, Bool.or_eq_true,
      Pattern.opens_iff hcalls.1 hbody (hchosen 0 (Nat.succ_pos _)) n,
      Branches.opens_iff hcalls.2 hrest hlater n, ← Set.mem_union,
      Set.Ioc_union_Ioc_eq_Ioc hbody.le hrest.le]

end

end PatternSampler
