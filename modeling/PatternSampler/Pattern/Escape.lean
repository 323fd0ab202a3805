import PatternSampler.CharSet.Named
import PatternSampler.Pattern.Fault

set_option autoImplicit false

/-!
# Escapes

What a backslash and the characters behind it stand for, in patterns and in bracket expressions
alike.

## Main definitions

* `Escape` — a named set or a character.
* `readEscape` — the escape behind a backslash and what follows it.

## Main results

* `length_readEscape_lt` — an escape takes at least one character.
-/

namespace PatternSampler

/-- What an escape stands for. -/
inductive Escape
  /-- The decimal digits. -/
  | digits
  /-- The characters of words. -/
  | wordCharacters
  /-- A single character. -/
  | character (c : Char)
deriving DecidableEq, Repr, Inhabited

/-- The character that a backslash and `c` stand for, apart from sets and code points. -/
def controlOf (c : Char) : Char :=
  match c with
  | 't' => '\t'
  | 'r' => '\r'
  | 'n' => '\n'
  | 'v' => '\x0b'
  | 'f' => '\x0c'
  | c => c

/-- The character whose code point is spelled by the first `count` characters of `s`, in an escape
that starts at `start`. -/
def readCodePoint (start count : Nat) (s : Slice) : Except Fault (Char × Slice) :=
  if s.length < count then .error (.located .incompleteEscape start (s.stop - start))
  else
    let digits := s.text.take count
    match codePoint? digits with
    | some c => .ok (c, s.drop count)
    | none =>
      .error (.located (.invalidEscape (String.ofList digits)) start (s.start + count - start))

/-- The escape whose backslash stands at `start` and whose other characters are the first ones of
`s`. There is none at the end of a text. -/
def readEscape (start : Nat) (s : Slice) : Except Fault (Option (Escape × Slice)) :=
  match s.text with
  | [] => .ok none
  | 'd' :: _ => .ok (some (.digits, s.drop 1))
  | 'w' :: _ => .ok (some (.wordCharacters, s.drop 1))
  | 'u' :: _ => (readCodePoint start 4 (s.drop 1)).map fun (c, rest) => some (.character c, rest)
  | 'U' :: _ => (readCodePoint start 8 (s.drop 1)).map fun (c, rest) => some (.character c, rest)
  | c :: _ => .ok (some (.character (controlOf c), s.drop 1))

/-- Reading a code point does not put characters back. -/
theorem length_readCodePoint_le {start count : Nat} {s rest : Slice} {c : Char}
    (h : readCodePoint start count s = .ok (c, rest)) : rest.length ≤ s.length := by
  simp only [readCodePoint] at h
  split at h
  · simp at h
  · split at h
    · simp only [Except.ok.injEq, Prod.mk.injEq] at h
      rw [← h.2, Slice.length_drop]
      omega
    · simp at h

/-- An escape has at least one character behind its backslash. -/
theorem length_readEscape_lt {start : Nat} {s rest : Slice} {e : Escape}
    (h : readEscape start s = .ok (some (e, rest))) : rest.length < s.length := by
  have hpoint : ∀ {count : Nat} {c : Char} {r : Slice},
      0 < s.length → readCodePoint start count (s.drop 1) = .ok (c, r) → r.length < s.length := by
    intro count c r hs hr
    have := length_readCodePoint_le hr
    rw [Slice.length_drop] at this
    omega
  unfold readEscape at h
  split at h
  · simp at h
  all_goals
    rename_i htext
    have hs : 0 < s.length := by simp [Slice.length, htext]
  case h_4 | h_5 =>
    generalize hr : readCodePoint start _ (s.drop 1) = r at h
    cases r with
    | error f => simp [Except.map] at h
    | ok p =>
      simp only [Except.map, Except.ok.injEq, Option.some.injEq, Prod.mk.injEq] at h
      rw [← h.2]
      exact hpoint hs hr
  all_goals
    simp only [Except.ok.injEq, Option.some.injEq, Prod.mk.injEq] at h
    rw [← h.2, Slice.length_drop]
    omega

end PatternSampler
