import PatternSampler.CharSet.Basic
import PatternSampler.Pattern.Builtin
import PatternSampler.Pattern.RepeatCount

set_option autoImplicit false

/-!
# The syntax of patterns

A pattern is a row of constructs, each with the repeat counts behind it. It ends with the end of
its text or with a mistake.

## Main definitions

* `Pattern`, `Construct`, `Argument`, `Branches` — the trees.
* `Argument.ofChar` — an argument that stands for a fixed character.
* `Branches.length` — the number of branches.

## Implementation notes

Whatever stands in front of a mistake is generated before the mistake is reported, since it may
contain a mistake that only shows when it is generated. A mistake is therefore a way for a pattern
to end, and reading a pattern always succeeds.

The number of a group is fixed by its place in the text. It is written into the tree, so that it
is the same in each repetition and in each branch.
-/

namespace PatternSampler

mutual

/-- A row of constructs. -/
inductive Pattern
  /-- The end of the text. -/
  | done
  /-- A mistake, behind which nothing is read. -/
  | stop (fault : Fault)
  /-- A construct, the repeat counts behind it, and what follows. -/
  | seq (head : Construct) (counts : List RepeatCount) (rest : Pattern)

/-- What a pattern generates text from. -/
inductive Construct
  /-- The character itself. -/
  | character (c : Char)
  /-- A member of a set. -/
  | oneOf (set : CharSet)
  /-- The text of the group with a number. -/
  | reference (span : Span) (digits : List Char)
  /-- The text of a pattern, kept under a number. -/
  | group (number : Nat) (body : Pattern)
  /-- The text of one of several branches, kept under a number. -/
  | alternation (number : Nat) (branches : Branches)
  /-- A transform of the text of an argument. -/
  | encode (t : Transform) (argument : Argument)
  /-- The characters of an argument with a separator between them. -/
  | expand (argument separator : Argument)
  /-- A random byte. -/
  | byte (case : LetterCase)
  /-- Random mnemonic words. -/
  | words (count : Argument)
  /-- A random day from the first year to the last one. -/
  | date (first last separator : Argument)
  /-- The characters of an argument in random order. -/
  | shuffle (argument : Argument)
  /-- An argument or nothing. -/
  | optional (argument : Argument)
  /-- An argument in a field of a given width. -/
  | justify (alignment : Alignment) (argument width fill : Argument)

/-- A pattern as an argument, and where it stands. -/
inductive Argument
  | mk (span : Span) (body : Pattern)

/-- The branches of an alternation, one at least. Each one carries the number of groups opened in
front of it and the number of groups that it opens itself. -/
inductive Branches
  | one (before count : Nat) (body : Pattern)
  | more (before count : Nat) (body : Pattern) (rest : Branches)

end

namespace Argument

/-- Where an argument stands. -/
def span : Argument → Span
  | mk span _ => span

/-- The pattern of an argument. -/
def body : Argument → Pattern
  | mk _ body => body

/-- An argument that stands for the single character `c`. -/
def ofChar (span : Span) (c : Char) : Argument := ⟨span, .seq (.character c) [] .done⟩

end Argument

namespace Branches

/-- The number of branches. -/
def length : Branches → Nat
  | one .. => 1
  | more _ _ _ rest => rest.length + 1

/-- An alternation has at least one branch. -/
theorem length_pos (branches : Branches) : 0 < branches.length := by
  cases branches <;> simp [length]

end Branches

end PatternSampler
