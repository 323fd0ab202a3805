import PatternSampler.Pattern.Syntax
import PatternSampler.Pattern.Token

set_option autoImplicit false

/-!
# Reading patterns

A pattern is read token by token. The parts of groups and calls are patterns of their own, which
are cut out of the text at top-level separators and read in turn.

## Main definitions

* `Counts`, `readCounts` — the repeat counts behind a construct.
* `Pattern.ofSlice` — the pattern that a slice spells.
* `Construct.ofToken` — the construct that a token stands for.

## Implementation notes

`opened` is the number of groups opened in front of a slice. It grows with each token by the
number of groups in the text of the token.

An argument that is left out stands for a fixed character.
-/

namespace PatternSampler

/-! ## Repeat counts -/

/-- The repeat counts behind a construct, what follows them, and the mistake among them, if any. -/
structure Counts where
  counts : List RepeatCount
  rest : Slice
  fault : Option Fault

/-- Reads repeat counts. The counts in front already ask for up to `product` instances. -/
def readCounts (product : Nat) (s : Slice) : Counts :=
  match _h : Token.next s with
  | .ok (some (.repetition count, rest)) =>
    if maxRepeat < product * count.high then
      ⟨[], rest, some (.located .repeatTooLarge s.start (rest.start - s.start))⟩
    else
      let later := readCounts (product * count.high) rest
      { later with counts := count :: later.counts }
  | _ => ⟨[], s, none⟩
termination_by s.length
decreasing_by
  exact (Token.room_next _h).2

/-- Reading counts does not put characters back. -/
theorem length_readCounts_le (product : Nat) (s : Slice) :
    (readCounts product s).rest.length ≤ s.length := by
  fun_induction readCounts product s with
  | case1 product s count rest h => exact Nat.le_of_lt (Token.room_next h).2
  | case2 product s count rest h hle later ih =>
    have := (Token.room_next h).2
    simp only [later] at ih ⊢
    omega
  | case3 => exact Nat.le_refl _

/-! ## Patterns -/

/-- The parts of a slice, or the mistake that they are not balanced. -/
def splitParts (separator : Char) (s : Slice) : Except Fault (List Slice) :=
  match s.split separator with
  | .ok parts => .ok parts
  | .error imbalance => .error (.located (.unbalanced imbalance) imbalance.position 1)

/-- Parts and the separators between them take up the room of the slice. -/
theorem roomOf_splitParts {separator : Char} {s : Slice} {parts : List Slice}
    (h : splitParts separator s = .ok parts) : roomOf parts = s.length + 1 := by
  unfold splitParts at h
  split at h
  · rename_i hsplit
    simp only [Except.ok.injEq] at h
    subst h
    exact roomOf_split hsplit
  · simp at h

mutual

/-- The pattern that a slice spells, behind `opened` opened groups. -/
def Pattern.ofSlice (opened : Nat) (s : Slice) : Pattern :=
  match _h : Token.next s with
  | .error fault => .stop fault
  | .ok none => .done
  | .ok (some (token, rest)) =>
    match Construct.ofToken opened ⟨s.start, rest.start - s.start⟩ token with
    | .error fault => .stop fault
    | .ok head =>
      let behind := readCounts 1 rest
      .seq head behind.counts <|
        match behind.fault with
        | some fault => .stop fault
        | none => Pattern.ofSlice (opened + token.groups) behind.rest
termination_by 3 * s.length + 2
decreasing_by
  · have := (Token.room_next _h).1
    omega
  · have := (Token.room_next _h).2
    have := length_readCounts_le 1 rest
    omega

/-- The construct that a token stands for, behind `opened` opened groups. -/
def Construct.ofToken (opened : Nat) (span : Span) (token : Token) : Except Fault Construct :=
  match token with
  | .character c => .ok (.character c)
  | .oneOf set => .ok (.oneOf set)
  | .reference digits => .ok (.reference span digits)
  | .repetition _ => .error (.within .nothingToRepeat span)
  | .group body =>
    match _h : splitParts '|' body with
    | .error fault => .error fault
    | .ok [] => .ok (.group (opened + 1) .done)
    | .ok [_] => .ok (.group (opened + 1) (Pattern.ofSlice (opened + 1) body))
    | .ok (first :: second :: rest) =>
      .ok (.alternation (opened + 1) (Branches.ofSlices (opened + 1) first (second :: rest)))
  | .call f arguments =>
    match f with
    | .encode t => .ok (.encode t ⟨arguments.span, Pattern.ofSlice opened arguments⟩)
    | .shuffle => .ok (.shuffle ⟨arguments.span, Pattern.ofSlice opened arguments⟩)
    | .optional => .ok (.optional ⟨arguments.span, Pattern.ofSlice opened arguments⟩)
    | .byte case =>
      if arguments.text.isEmpty then .ok (.byte case) else .error (.within .byteArguments span)
    | .words =>
      if arguments.text.isEmpty then .ok (.words (.ofChar span '1'))
      else .ok (.words ⟨arguments.span, Pattern.ofSlice opened arguments⟩)
    | .expand =>
      match _h : splitParts ',' arguments with
      | .error fault => .error fault
      | .ok [first, second] =>
        .ok (.expand ⟨first.span, Pattern.ofSlice opened first⟩
          ⟨second.span, Pattern.ofSlice (opened + countGroups first.text) second⟩)
      | .ok _ => .error (.within .expandArguments span)
    | .date =>
      match _h : splitParts ',' arguments with
      | .error fault => .error fault
      | .ok [first, second] =>
        .ok (.date ⟨first.span, Pattern.ofSlice opened first⟩
          ⟨second.span, Pattern.ofSlice (opened + countGroups first.text) second⟩
          (.ofChar span '-'))
      | .ok [first, second, third] =>
        .ok (.date ⟨first.span, Pattern.ofSlice opened first⟩
          ⟨second.span, Pattern.ofSlice (opened + countGroups first.text) second⟩
          ⟨third.span, Pattern.ofSlice
            (opened + countGroups first.text + countGroups second.text) third⟩)
      | .ok _ => .error (.within .dateArguments span)
    | .justify alignment =>
      match _h : splitParts ',' arguments with
      | .error fault => .error fault
      | .ok [first, second] =>
        .ok (.justify alignment ⟨first.span, Pattern.ofSlice opened first⟩
          ⟨second.span, Pattern.ofSlice (opened + countGroups first.text) second⟩
          (.ofChar span ' '))
      | .ok [first, second, third] =>
        .ok (.justify alignment ⟨first.span, Pattern.ofSlice opened first⟩
          ⟨second.span, Pattern.ofSlice (opened + countGroups first.text) second⟩
          ⟨third.span, Pattern.ofSlice
            (opened + countGroups first.text + countGroups second.text) third⟩)
      | .ok _ => .error (.within .justifyArguments span)
termination_by 3 * token.room + 4
decreasing_by
  all_goals simp only [Token.room]
  all_goals try have hroom := roomOf_splitParts _h
  all_goals try simp only [roomOf_cons, roomOf_nil] at hroom
  all_goals try simp only [roomOf_cons]
  all_goals omega

/-- The branches that slices spell, behind `opened` opened groups. -/
def Branches.ofSlices (opened : Nat) (first : Slice) (others : List Slice) : Branches :=
  let count := countGroups first.text
  match others with
  | [] => .one opened count (Pattern.ofSlice opened first)
  | second :: rest =>
    .more opened count (Pattern.ofSlice opened first)
      (Branches.ofSlices (opened + count) second rest)
termination_by 3 * roomOf (first :: others)
decreasing_by
  all_goals simp only [roomOf_cons]
  all_goals omega

end

/-- The pattern that a text spells. -/
def Pattern.ofText (text : List Char) : Pattern := Pattern.ofSlice 0 (.whole text)

end PatternSampler
