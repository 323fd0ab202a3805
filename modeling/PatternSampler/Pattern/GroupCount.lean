import PatternSampler.Pattern.Builtin
import PatternSampler.Text.Zone

set_option autoImplicit false

/-!
# Counting groups

Groups are numbered by their opening parentheses, in the order of the text. The number of groups
that a part of a pattern opens can therefore be read off its text, whatever is generated from it.

## Main definitions

* `CallHead` — how much of the head of a call has been read.
* `GroupScan` — the state of the count between two characters.
* `countGroups` — the number of groups that a text opens.

## Implementation notes

The parenthesis behind the name of a function opens its arguments and not a group. What stands
between the dollar sign and this parenthesis is followed by `CallHead`.
-/

namespace PatternSampler

/-- How much of the head of a call stands right in front of a position. -/
inductive CallHead
  /-- No part of a head. -/
  | outside
  /-- The dollar sign. -/
  | dollar
  /-- The dollar sign and some characters of a name. -/
  | name
  /-- The dollar sign and the question mark. -/
  | complete
deriving DecidableEq, Repr, Inhabited

namespace CallHead

/-- Whether the character `c` continues the head, and with what. -/
def continued? (head : CallHead) (c : Char) : Option CallHead :=
  match head with
  | outside => none
  | dollar =>
    if c = '?' then some complete
    else if isNameCharacter c then some name
    else if c = '(' then some outside
    else none
  | name =>
    if isNameCharacter c then some name
    else if c = '(' then some outside
    else none
  | complete => if c = '(' then some outside else none

end CallHead

/-- The state of the count between two characters. -/
structure GroupScan where
  zone : Zone
  head : CallHead
deriving DecidableEq, Repr, Inhabited

namespace GroupScan

/-- The state at the start of a text. -/
def start : GroupScan := ⟨.plain, .outside⟩

/-- The state behind the character `c`. -/
def next (s : GroupScan) (c : Char) : GroupScan :=
  match s.head.continued? c with
  | some head => ⟨.plain, head⟩
  | none => ⟨s.zone.next c, if s.zone = .plain ∧ c = '$' then .dollar else .outside⟩

/-- Whether the character `c` opens a group. -/
def opensGroup (s : GroupScan) (c : Char) : Bool :=
  c == '(' && s.zone == .plain && (s.head.continued? c).isNone

/-- The number of groups that a text opens behind the state `s`. -/
def count (s : GroupScan) : List Char → Nat
  | [] => 0
  | c :: rest => (s.next c).count rest + if s.opensGroup c then 1 else 0

end GroupScan

/-- The number of groups that a text opens. -/
def countGroups (text : List Char) : Nat := GroupScan.start.count text

end PatternSampler
