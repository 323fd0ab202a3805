import PatternSampler.Proofs.Reading.Parts

set_option autoImplicit false

/-!
# The counts in a pattern

A property of all repeat counts of a tree, those in arguments and in branches included. The counts
that are read from a text ask for at least one instance and have their bounds in order.

## Main definitions

* `Pattern.CountsIn` — all repeat counts in a pattern have a property.

## Main results

* `Pattern.countsIn_ofSlice` — the counts in the tree of a slice are valid.
-/

namespace PatternSampler

mutual

/-- All repeat counts in a pattern have the property `P`. -/
def Pattern.CountsIn (P : RepeatCount → Prop) : Pattern → Prop
  | .done | .stop _ => True
  | .seq head counts rest => head.CountsIn P ∧ (∀ count ∈ counts, P count) ∧ rest.CountsIn P

/-- All repeat counts in a construct have the property `P`. -/
def Construct.CountsIn (P : RepeatCount → Prop) : Construct → Prop
  | .character _ | .oneOf _ | .reference _ _ | .byte _ => True
  | .group _ body => body.CountsIn P
  | .alternation _ branches => branches.CountsIn P
  | .encode _ argument | .words argument | .shuffle argument | .optional argument =>
    argument.CountsIn P
  | .expand argument separator => argument.CountsIn P ∧ separator.CountsIn P
  | .date first second third | .justify _ first second third =>
    first.CountsIn P ∧ second.CountsIn P ∧ third.CountsIn P

/-- All repeat counts in an argument have the property `P`. -/
def Argument.CountsIn (P : RepeatCount → Prop) : Argument → Prop
  | .mk _ body => body.CountsIn P

/-- All repeat counts in branches have the property `P`. -/
def Branches.CountsIn (P : RepeatCount → Prop) : Branches → Prop
  | .one _ _ body => body.CountsIn P
  | .more _ _ body rest => body.CountsIn P ∧ rest.CountsIn P

end

variable {P : RepeatCount → Prop}

/-- The repeat counts in an argument are those in its pattern. -/
lemma Argument.countsIn_iff {a : Argument} : a.CountsIn P ↔ a.body.CountsIn P := by
  cases a
  rfl

/-- What holds of the repeat counts in every branch holds in all of them. -/
lemma Branches.countsIn_of_bodies :
    ∀ {b : Branches}, (∀ body ∈ b.bodies, body.CountsIn P) → b.CountsIn P
  | .one _ _ _, h => h _ (List.mem_singleton_self _)
  | .more _ _ _ _, h =>
    have h := List.forall_mem_cons.1 h
    ⟨h.1, countsIn_of_bodies h.2⟩

/-- The counts in a construct are those in its patterns. -/
lemma Construct.countsIn_of_bodies {c : Construct} (h : ∀ body ∈ c.bodies, body.CountsIn P) :
    c.CountsIn P := by
  cases c with
  | character | oneOf | reference | byte => exact trivial
  | group number body => exact h body (List.mem_singleton_self _)
  | alternation number branches => exact Branches.countsIn_of_bodies h
  | encode | words | shuffle | optional | expand | date | justify =>
    simpa [Construct.bodies, Construct.arguments, Construct.CountsIn, Argument.countsIn_iff]
      using h

/-- The counts in the tree of a slice are valid.

**Proof sketch.** By strong induction on the length of the slice. The patterns in a construct are
read from parts of the inner part of its token. -/
theorem Pattern.countsIn_ofSlice (opened : Nat) (s : Slice) :
    (Pattern.ofSlice opened s).CountsIn RepeatCount.Valid := by
  induction hn : s.length using Nat.strong_induction_on generalizing opened s with
  | _ n ih =>
    rw [Pattern.ofSlice]
    split
    · exact trivial
    · exact trivial
    · rename_i t rest hnext
      have hrest := (Token.room_next hnext).2
      split
      · exact trivial
      · rename_i c hc
        refine ⟨Construct.countsIn_of_bodies fun body hbody => ?_, valid_readCounts 1 rest, ?_⟩
        · obtain ⟨inner, part, opened', hinner, hpart, rfl⟩ | ⟨ch, rfl⟩ :=
            Construct.bodies_ofToken hc body hbody
          · obtain ⟨hin, hfront, -⟩ := Token.inner_isPart hnext hinner
            have hlength := hpart.length_le
            have hstop := hin.stop_le
            simp only [Slice.stop] at hstop
            exact ih part.length (by omega) opened' part rfl
          · exact ⟨trivial, by simp, trivial⟩
        · have hlength := length_readCounts_le 1 rest
          split
          · exact trivial
          · exact ih _ (by omega) _ (readCounts 1 rest).rest rfl

end PatternSampler
