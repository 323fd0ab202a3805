import PatternSampler.Pattern.Escape

set_option autoImplicit false

/-!
# Bracket expressions

A bracket expression lists the members of a character set: single characters, ranges, named sets
and escapes. With a caret in front it denotes the printable ASCII characters that are not listed.

## Main definitions

* `Draft` — what has been read of a bracket expression.
* `Draft.step` — reads the next item.
* `readBracket` — reads items up to the closing bracket.

## Main results

* `length_readBracket_lt` — a bracket expression takes at least its closing bracket.

## Implementation notes

A dash makes a range only between a single character and an item that can end a range; elsewhere
it is a member. A colon is a member unless it starts a name that ends with a colon.
-/

namespace PatternSampler

/-- What has been read of a bracket expression. -/
structure Draft where
  members : CharSet
  negated : Bool
  /-- The single character read last, with which a range can start. -/
  rangeStart : Option Char
deriving DecidableEq, Inhabited

/-- What comes behind an item. -/
inductive BracketStep
  /-- The closing bracket has been read. -/
  | closed (rest : Slice)
  /-- There are more items. -/
  | more (draft : Draft) (rest : Slice)

namespace BracketStep

/-- What is left to be read. -/
def rest : BracketStep → Slice
  | closed rest => rest
  | more _ rest => rest

end BracketStep

namespace Draft

/-- Nothing has been read. -/
def start : Draft := ⟨.empty, false, none⟩

/-- Whether nothing has been read. Only here a caret negates. -/
def isFresh (d : Draft) : Bool := d.members.isEmpty && !d.negated

/-- Adds a single character. -/
def push (c : Char) (d : Draft) : Draft :=
  { d with members := d.members.insert (.singleton c), rangeStart := some c }

/-- Adds the members of ranges. -/
def extend (ranges : List CharRange) (d : Draft) : Draft :=
  { d with members := d.members.insertAll ranges, rangeStart := none }

/-- Adds what an escape stands for. -/
def pushEscape (e : Escape) (d : Draft) : Draft :=
  match e with
  | .digits => d.extend CharSet.digitRanges
  | .wordCharacters => d.extend CharSet.wordRanges
  | .character c => d.push c

/-- The set that a bracket expression denotes. -/
def finish (d : Draft) : CharSet := if d.negated then d.members.complement else d.members

/-! ## Items -/

/-- The name at the start of a text, if a colon ends it. -/
def setName? (text : List Char) : Option (List Char) :=
  let name := text.takeWhile Char.isAlphanum
  match text.drop name.length with
  | ':' :: _ => if name.isEmpty then none else some name
  | _ => none

/-- Reads a colon at `position` and the name of a set behind it. -/
def stepName (position : Nat) (rest : Slice) (d : Draft) : Except Fault BracketStep :=
  match setName? rest.text with
  | none => .ok (.more (d.push ':') rest)
  | some name =>
    match CharSet.rangesOfName? (String.ofList name) with
    | some ranges => .ok (.more (d.extend ranges) (rest.drop (name.length + 1)))
    | none => .error (.located (.unknownSet (String.ofList name)) position (name.length + 2))

/-- Adds the range from `low` to `high`, whose dash stands at `position`. -/
def closeRange (position : Nat) (low high : Char) (rest : Slice) (d : Draft) :
    Except Fault BracketStep :=
  match CharRange.ofChars? low high with
  | some range => .ok (.more (d.extend [range]) rest)
  | none => .error (.located .reversedRange position (rest.start - position))

/-- Reads the end of a range from `low` on, whose dash stands at `position`. -/
def stepRangeEnd (position : Nat) (low c : Char) (rest : Slice) (d : Draft) :
    Except Fault BracketStep :=
  if c = '[' then .error (.located .nestedBracket (position + 1) 1)
  else if c = '\x7b' ∨ c = '$' then .error (.located (.forbiddenInBracket c) (position + 1) 1)
  else if c = '\\' then
    match readEscape (position + 1) rest with
    | .error fault => .error fault
    | .ok none => .ok (.more d rest)
    | .ok (some (.character high, rest)) => d.closeRange position low high rest
    | .ok (some _) => .error (.located .setInRange (position + 1) 2)
  else d.closeRange position low c rest

/-- Reads a dash at `position` and, if it makes a range, the end of the range. -/
def stepRange (position : Nat) (rest : Slice) (d : Draft) : Except Fault BracketStep :=
  match d.rangeStart, rest.text with
  | some low, c :: _ =>
    if c = ']' then .ok (.more (d.push '-') rest)
    else d.stepRangeEnd position low c (rest.drop 1)
  | _, _ => .ok (.more (d.push '-') rest)

/-- Reads an item that starts with `c` at `position`. -/
def step (position : Nat) (c : Char) (rest : Slice) (d : Draft) : Except Fault BracketStep :=
  if c = ']' then .ok (.closed rest)
  else if c = '^' ∧ d.isFresh then .ok (.more { d with negated := true } rest)
  else if c = '[' then .error (.located .nestedBracket position 1)
  else if c = '\x7b' ∨ c = '$' then .error (.located (.forbiddenInBracket c) position 1)
  else if c = '\\' then
    match readEscape position rest with
    | .error fault => .error fault
    | .ok none => .ok (.more d rest)
    | .ok (some (e, rest)) => .ok (.more (d.pushEscape e) rest)
  else if c = ':' then d.stepName position rest
  else if c = '-' then d.stepRange position rest
  else .ok (.more (d.push c) rest)

/-! ## An item never gives anything back -/

/-- Behind the end of a range there is no more to read than in front of it. -/
theorem length_closeRange_le {position : Nat} {low high : Char} {rest : Slice} {d : Draft}
    {b : BracketStep} (h : d.closeRange position low high rest = .ok b) :
    b.rest.length ≤ rest.length := by
  unfold closeRange at h
  split at h
  · simp only [Except.ok.injEq] at h
    subst h
    exact Nat.le_refl _
  · simp at h

/-- Reading the end of a range does not put characters back. -/
theorem length_stepRangeEnd_le {position : Nat} {low c : Char} {rest : Slice} {d : Draft}
    {b : BracketStep} (h : d.stepRangeEnd position low c rest = .ok b) :
    b.rest.length ≤ rest.length := by
  unfold stepRangeEnd at h
  split at h
  · simp at h
  split at h
  · simp at h
  split at h
  · split at h
    · simp at h
    · simp only [Except.ok.injEq] at h
      subst h
      exact Nat.le_refl _
    · rename_i hread
      have := length_readEscape_lt hread
      have := length_closeRange_le h
      omega
    · simp at h
  · exact length_closeRange_le h

/-- Reading what follows a hyphen does not put characters back. -/
theorem length_stepRange_le {position : Nat} {rest : Slice} {d : Draft} {b : BracketStep}
    (h : d.stepRange position rest = .ok b) : b.rest.length ≤ rest.length := by
  unfold stepRange at h
  split at h
  · split at h
    · simp only [Except.ok.injEq] at h
      subst h
      exact Nat.le_refl _
    · have := length_stepRangeEnd_le h
      rw [Slice.length_drop] at this
      omega
  · simp only [Except.ok.injEq] at h
    subst h
    exact Nat.le_refl _

/-- Reading a named class does not put characters back. -/
theorem length_stepName_le {position : Nat} {rest : Slice} {d : Draft} {b : BracketStep}
    (h : d.stepName position rest = .ok b) : b.rest.length ≤ rest.length := by
  unfold stepName at h
  split at h
  · simp only [Except.ok.injEq] at h
    subst h
    exact Nat.le_refl _
  · split at h
    · simp only [Except.ok.injEq] at h
      subst h
      simp only [BracketStep.rest, Slice.length_drop]
      omega
    · simp at h

/-- One step inside brackets does not put characters back. -/
theorem length_step_le {position : Nat} {c : Char} {rest : Slice} {d : Draft} {b : BracketStep}
    (h : d.step position c rest = .ok b) : b.rest.length ≤ rest.length := by
  unfold step at h
  split at h
  · simp only [Except.ok.injEq] at h
    subst h
    exact Nat.le_refl _
  split at h
  · simp only [Except.ok.injEq] at h
    subst h
    exact Nat.le_refl _
  split at h
  · simp at h
  split at h
  · simp at h
  split at h
  · split at h
    · simp at h
    · simp only [Except.ok.injEq] at h
      subst h
      exact Nat.le_refl _
    · rename_i hread
      simp only [Except.ok.injEq] at h
      subst h
      exact Nat.le_of_lt (length_readEscape_lt hread)
  split at h
  · exact length_stepName_le h
  split at h
  · exact length_stepRange_le h
  · simp only [Except.ok.injEq] at h
    subst h
    exact Nat.le_refl _

end Draft

/-! ## The whole expression -/

/-- The set of a bracket expression that was opened at `opening`, and the text behind it. -/
def readBracket (opening : Nat) (d : Draft) (s : Slice) : Except Fault (CharSet × Slice) :=
  match _htext : s.text with
  | [] => .error (.located .unterminatedBracket opening (s.stop - opening))
  | c :: _ =>
    match _hstep : d.step s.start c (s.drop 1) with
    | .error fault => .error fault
    | .ok (.closed rest) => .ok (d.finish, rest)
    | .ok (.more d' rest) => readBracket opening d' rest
termination_by s.length
decreasing_by
  have := Draft.length_step_le _hstep
  rw [Slice.length_drop] at this
  have : 0 < s.length := by simp [Slice.length, _htext]
  simp only [BracketStep.rest] at *
  omega

/-- Brackets that have not been closed at the end of the text are a mistake. -/
theorem readBracket_nil {opening : Nat} {d : Draft} {s : Slice} (h : s.text = []) :
    readBracket opening d s =
      .error (.located .unterminatedBracket opening (s.stop - opening)) := by
  rw [readBracket]
  split
  · rfl
  · rename_i htext
    rw [h] at htext
    cases htext

/-- Brackets are read one step at a time. -/
theorem readBracket_cons {opening : Nat} {d : Draft} {s : Slice} {c : Char} {tail : List Char}
    (h : s.text = c :: tail) :
    readBracket opening d s = match d.step s.start c (s.drop 1) with
      | .error fault => .error fault
      | .ok (.closed rest) => .ok (d.finish, rest)
      | .ok (.more d' rest) => readBracket opening d' rest := by
  rw [readBracket]
  split
  · rename_i htext
    rw [h] at htext
    cases htext
  · rename_i htext
    obtain ⟨rfl, -⟩ := List.cons.inj (h.symm.trans htext)
    split <;> simp_all only

/-- A bracket expression has at least its closing bracket. -/
theorem length_readBracket_lt {opening : Nat} {d : Draft} {s rest : Slice} {set : CharSet}
    (h : readBracket opening d s = .ok (set, rest)) : rest.length < s.length := by
  fun_induction readBracket opening d s with
  | case1 => simp at h
  | case2 => simp at h
  | case3 d s c tail htext rest' hstep =>
    simp only [Except.ok.injEq, Prod.mk.injEq] at h
    have := Draft.length_step_le hstep
    rw [Slice.length_drop] at this
    have : 0 < s.length := by simp [Slice.length, htext]
    simp only [BracketStep.rest] at *
    rw [← h.2]
    omega
  | case4 d s c tail htext d' rest' hstep ih =>
    have := ih h
    have := Draft.length_step_le hstep
    rw [Slice.length_drop] at this
    simp only [BracketStep.rest] at *
    omega

end PatternSampler
