import PatternSampler.Pattern.Bracket
import PatternSampler.Pattern.GroupCount
import PatternSampler.Pattern.RepeatCount

set_option autoImplicit false

/-!
# Tokens

A pattern is read as a row of tokens. The parts that are patterns themselves, the bodies of groups
and the arguments of calls, are kept as slices of the text.

## Main definitions

* `Token` — the tokens.
* `Token.next` — the first token of a slice and what follows it.
* `Token.groups` — the number of groups that a token opens.
* `Token.room` — the length of the part that is a pattern itself.

## Main results

* `Token.room_next` — a token and its inner part are shorter than the slice.
-/

namespace PatternSampler

/-- The unit of a pattern. -/
inductive Token
  /-- A character that stands for itself, as it is or by an escape. -/
  | character (c : Char)
  /-- A member of a set. -/
  | oneOf (set : CharSet)
  /-- The text of a group. -/
  | reference (digits : List Char)
  /-- Repetition of what stands in front. -/
  | repetition (count : RepeatCount)
  /-- A group. -/
  | group (body : Slice)
  /-- A call. -/
  | call (f : Builtin) (arguments : Slice)
deriving Inhabited

namespace Token

/-- The number of groups that a token opens. -/
def groups : Token → Nat
  | group body => 1 + countGroups body.text
  | call _ arguments => countGroups arguments.text
  | _ => 0

/-- The length of the part of a token that is a pattern itself. -/
def room : Token → Nat
  | group body => body.length
  | call _ arguments => arguments.length
  | _ => 0

/-! ## Reading -/

/-- A token and the slice behind it. -/
abbrev Reading := Except Fault (Token × Slice)

/-- Reads an escape, given the slice from its backslash on. -/
def readEscaped (s : Slice) : Reading :=
  let digits := (s.text.drop 1).takeWhile Char.isDigit
  if digits.isEmpty then
    match readEscape s.start (s.drop 1) with
    | .error fault => .error fault
    | .ok none => .error (.located .loneBackslash s.start 1)
    | .ok (some (.digits, rest)) => .ok (.oneOf CharSet.digits, rest)
    | .ok (some (.wordCharacters, rest)) => .ok (.oneOf CharSet.wordCharacters, rest)
    | .ok (some (.character c, rest)) => .ok (.character c, rest)
  else .ok (.reference digits, s.drop (digits.length + 1))

/-- Reads a bracket expression, given the slice from its bracket on. -/
def readSet (s : Slice) : Reading :=
  (readBracket s.start .start (s.drop 1)).map fun (set, rest) => (.oneOf set, rest)

/-- Reads a repeat count, given the slice from its brace on. -/
def readRepetition (s : Slice) : Reading :=
  let body := (s.text.drop 1).takeWhile (· != '\x7d')
  if s.length ≤ body.length + 1 then .error (.located .unterminatedRepeat s.start s.length)
  else
    match RepeatCount.ofText body with
    | .ok count => .ok (.repetition count, s.drop (body.length + 2))
    | .error cause => .error (.located cause s.start (body.length + 2))

/-- Reads a group, given the slice from its parenthesis on. -/
def readGroup (s : Slice) : Reading :=
  match closeParenthesis .plain 0 (s.text.drop 1) with
  | none => .error (.located .unterminatedGroup s.start s.length)
  | some (body, _) => .ok (.group ⟨s.start + 1, body⟩, s.drop (body.length + 2))

/-- Reads the arguments of a call with the given name, given the slice from the
dollar sign on. -/
def readArguments (name : List Char) (s : Slice) : Reading :=
  match closeParenthesis .plain 0 (s.text.drop (name.length + 2)) with
  | none => .error (.located .unterminatedCall s.start s.length)
  | some (body, _) =>
    match Builtin.ofName? (String.ofList name) with
    | none =>
      .error (.located (.unknownFunction (String.ofList name)) s.start (name.length + 2))
    | some f =>
      .ok (.call f ⟨s.start + name.length + 2, body⟩, s.drop (name.length + body.length + 3))

/-- Reads a call, given the slice from its dollar sign on. -/
def readCall (s : Slice) : Reading :=
  let name := callName (s.text.drop 1)
  match s.text.drop (name.length + 1) with
  | [] => .error (.located .unterminatedCall s.start (name.length + 1))
  | c :: _ =>
    if c ≠ '(' then .error (.located .missingParenthesis s.start (name.length + 2))
    else if name.isEmpty then .error (.located .missingName s.start 1)
    else readArguments name s

/-- Reads the token that starts with the character `c`, given the slice from it on. -/
def readFrom (c : Char) (s : Slice) : Reading :=
  match c with
  | '\\' => readEscaped s
  | '[' => readSet s
  | '(' => readGroup s
  | '\x7b' => readRepetition s
  | '$' => readCall s
  | ')' => .error (.located (.unmatched ')') s.start 1)
  | '\x7d' => .error (.located (.unmatched '\x7d') s.start 1)
  | c => .ok (.character c, s.drop 1)

/-- The first token of a slice and the slice behind it. An empty slice has no token. -/
def next (s : Slice) : Except Fault (Option (Token × Slice)) :=
  match s.text with
  | [] => .ok none
  | c :: _ => (readFrom c s).map some

/-! ## Tokens take room -/

/-- Dropping characters makes a slice shorter. -/
theorem length_drop_lt {n : Nat} {s : Slice} (hs : 0 < s.length) (hn : 0 < n) :
    (s.drop n).length < s.length := by
  rw [Slice.length_drop]
  omega

/-- An escaped character has no inner part. -/
theorem room_readEscaped {s rest : Slice} {t : Token} (hs : 0 < s.length)
    (h : readEscaped s = .ok (t, rest)) : t.room = 0 ∧ rest.length < s.length := by
  simp only [readEscaped] at h
  split at h
  · split at h
    · simp at h
    · simp at h
    all_goals
      rename_i hread
      have hlt := length_readEscape_lt hread
      rw [Slice.length_drop] at hlt
      simp only [Except.ok.injEq, Prod.mk.injEq] at h
      obtain ⟨rfl, rfl⟩ := h
      exact ⟨rfl, by omega⟩
  · simp only [Except.ok.injEq, Prod.mk.injEq] at h
    obtain ⟨rfl, rfl⟩ := h
    exact ⟨rfl, length_drop_lt hs (Nat.succ_pos _)⟩

/-- A bracket expression has no inner part. -/
theorem room_readSet {s rest : Slice} {t : Token}
    (h : readSet s = .ok (t, rest)) : t.room = 0 ∧ rest.length < s.length := by
  unfold readSet at h
  generalize hr : readBracket s.start .start (s.drop 1) = r at h
  cases r with
  | error f => simp [Except.map] at h
  | ok p =>
    have hlt := length_readBracket_lt hr
    rw [Slice.length_drop] at hlt
    simp only [Except.map, Except.ok.injEq, Prod.mk.injEq] at h
    obtain ⟨rfl, rfl⟩ := h
    exact ⟨rfl, by omega⟩

/-- A repeat count has no inner part. -/
theorem room_readRepetition {s rest : Slice} {t : Token} (hs : 0 < s.length)
    (h : readRepetition s = .ok (t, rest)) : t.room = 0 ∧ rest.length < s.length := by
  simp only [readRepetition] at h
  split at h
  · simp at h
  · split at h
    · simp only [Except.ok.injEq, Prod.mk.injEq] at h
      obtain ⟨rfl, rfl⟩ := h
      exact ⟨rfl, length_drop_lt hs (Nat.succ_pos _)⟩
    · simp at h

/-- The body of a group is shorter than the group by its parentheses. -/
theorem room_readGroup {s rest : Slice} {t : Token}
    (h : readGroup s = .ok (t, rest)) : t.room + 2 ≤ s.length ∧ rest.length < s.length := by
  unfold readGroup at h
  split at h
  · simp at h
  · rename_i body tail hclose
    have happ := congrArg List.length (closeParenthesis_append hclose)
    simp only [Except.ok.injEq, Prod.mk.injEq] at h
    obtain ⟨rfl, rfl⟩ := h
    simp only [List.length_append, List.length_cons, List.length_drop] at happ
    refine ⟨?_, ?_⟩
    · simp only [room, Slice.length]
      omega
    · rw [Slice.length_drop]
      simp only [Slice.length]
      omega

/-- The arguments of a call are shorter than the call by their parentheses. -/
theorem room_readArguments {name : List Char} {s rest : Slice} {t : Token}
    (h : readArguments name s = .ok (t, rest)) :
    t.room + 2 ≤ s.length ∧ rest.length < s.length := by
  unfold readArguments at h
  split at h
  · simp at h
  · rename_i body tail hclose
    have happ := congrArg List.length (closeParenthesis_append hclose)
    simp only [List.length_append, List.length_cons, List.length_drop] at happ
    split at h
    · simp at h
    · simp only [Except.ok.injEq, Prod.mk.injEq] at h
      obtain ⟨rfl, rfl⟩ := h
      refine ⟨?_, ?_⟩
      · simp only [room, Slice.length]
        omega
      · rw [Slice.length_drop]
        simp only [Slice.length]
        omega

/-- A call is longer than its arguments, and something of the slice is read. -/
theorem room_readCall {s rest : Slice} {t : Token}
    (h : readCall s = .ok (t, rest)) : t.room + 2 ≤ s.length ∧ rest.length < s.length := by
  simp only [readCall] at h
  split at h
  · simp at h
  · split at h
    · simp at h
    · split at h
      · simp at h
      · exact room_readArguments h

/-- A token that starts with a given character is longer than its inner part, and it is not empty.
-/
theorem room_readFrom {c : Char} {s rest : Slice} {t : Token} (hs : 0 < s.length)
    (h : readFrom c s = .ok (t, rest)) : t.room < s.length ∧ rest.length < s.length := by
  unfold readFrom at h
  split at h
  · have := room_readEscaped hs h
    omega
  · have := room_readSet h
    omega
  · have := room_readGroup h
    omega
  · have := room_readRepetition hs h
    omega
  · have := room_readCall h
    omega
  · simp at h
  · simp at h
  · simp only [Except.ok.injEq, Prod.mk.injEq] at h
    obtain ⟨rfl, rfl⟩ := h
    exact ⟨hs, length_drop_lt hs Nat.one_pos⟩

/-- The inner part of a token and what follows the token are shorter than the slice. -/
theorem room_next {s rest : Slice} {t : Token} (h : next s = .ok (some (t, rest))) :
    t.room < s.length ∧ rest.length < s.length := by
  unfold next at h
  split at h
  · simp at h
  · rename_i c tail htext
    have hs : 0 < s.length := by simp [Slice.length, htext]
    generalize hr : readFrom c s = r at h
    cases r with
    | error f => simp [Except.map] at h
    | ok p =>
      simp only [Except.map, Except.ok.injEq, Option.some.injEq] at h
      subst h
      exact room_readFrom hs hr

end Token

end PatternSampler
