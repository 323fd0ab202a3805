import PatternSampler.Text.Slice
import PatternSampler.Text.Zone

set_option autoImplicit false

/-!
# Balanced text

Arguments and branches are cut at separators that stand outside every bracket. Cutting checks on
the way that parentheses and braces are properly nested and that every bracket expression ends.

## Main definitions

* `Imbalance` — the character that keeps a text from being balanced.
* `Nesting` — the openers that are still open at a position.
* `Slice.split` — the parts of a slice between top-level separators, each at its own position.
* `closeParenthesis` — the body of a parenthesis and what follows it.

## Implementation notes

The parts of a slice are slices of the same text: escapes stay in them as they are, so that each
part can be read as a pattern.
-/

namespace PatternSampler

/-- Why a text is not balanced. -/
inductive Imbalance
  /-- A closer that does not match the innermost opener. -/
  | unexpected (position : Nat) (closer : Char)
  /-- An opener that is never closed. -/
  | unterminated (position : Nat) (opener : Char)
deriving DecidableEq, Repr, Inhabited

namespace Imbalance

/-- The position of the character at fault. -/
def position : Imbalance → Nat
  | unexpected position _ => position
  | unterminated position _ => position

/-- The character at fault. -/
def character : Imbalance → Char
  | unexpected _ closer => closer
  | unterminated _ opener => opener

/-- The imbalance in words. -/
def message : Imbalance → String
  | unexpected _ closer => "unexpected '" ++ closer.toString ++ "'"
  | unterminated _ opener => "unterminated '" ++ opener.toString ++ "'"

end Imbalance

/-! ## Nesting -/

/-- The zone of a position and the openers still open there, innermost first. -/
structure Nesting where
  zone : Zone
  opens : List (Nat × Char)
deriving DecidableEq, Repr, Inhabited

namespace Nesting

/-- Nothing is open at the start of a text. -/
def outermost : Nesting := ⟨.plain, []⟩

/-- The characters that open a nested part. -/
def isOpener (c : Char) : Bool := c == '(' || c == '[' || c == '\x7b'

/-- The characters that close a nested part, outside bracket expressions. -/
def isCloser (c : Char) : Bool := c == ')' || c == '\x7d'

/-- The closer that belongs to an opener. -/
def closerOf (opener : Char) : Char :=
  if opener = '(' then ')' else if opener = '[' then ']' else '\x7d'

/-- The nesting behind the character `c` at `position`. -/
def step (n : Nesting) (position : Nat) (c : Char) : Except Imbalance Nesting :=
  match n.zone with
  | .plain =>
    if isOpener c then .ok ⟨n.zone.next c, (position, c) :: n.opens⟩
    else if isCloser c then
      match n.opens with
      | (_, opener) :: outer =>
        if closerOf opener = c then .ok ⟨.plain, outer⟩ else .error (.unexpected position c)
      | [] => .error (.unexpected position c)
    else .ok ⟨n.zone.next c, n.opens⟩
  | .bracket => .ok ⟨n.zone.next c, if c = ']' then n.opens.tail else n.opens⟩
  | zone => .ok ⟨zone.next c, n.opens⟩

/-- Whether a text is to be cut at the character `c`. Backslashes, openers and closers keep their
own meaning even where one of them is the separator. -/
def cutsAt (n : Nesting) (separator c : Char) : Bool :=
  n.zone == .plain && n.opens.isEmpty && c == separator &&
    !(c == '\\' || isOpener c || isCloser c)

end Nesting

/-! ## Cutting at separators -/

/-- The rest of the part being read, and the parts behind it. -/
def splitFrom (separator : Char) :
    Nesting → Nat → List Char → Except Imbalance (List Char × List Slice)
  | n, _, [] =>
    match n.opens with
    | [] => .ok ([], [])
    | (position, opener) :: _ => .error (.unterminated position opener)
  | n, position, c :: rest =>
    if n.cutsAt separator c then
      match splitFrom separator n (position + 1) rest with
      | .ok (part, later) => .ok ([], ⟨position + 1, part⟩ :: later)
      | .error e => .error e
    else
      match n.step position c with
      | .ok n' =>
        match splitFrom separator n' (position + 1) rest with
        | .ok (part, later) => .ok (c :: part, later)
        | .error e => .error e
      | .error e => .error e

/-- The parts of a slice between the separators outside every bracket. A slice without such a
separator is its own single part, also when it is empty. -/
def Slice.split (separator : Char) (s : Slice) : Except Imbalance (List Slice) :=
  match splitFrom separator .outermost s.start s.text with
  | .ok (part, later) => .ok (⟨s.start, part⟩ :: later)
  | .error e => .error e

/-- Room that a list of parts takes up, each with one separator. -/
def roomOf : List Slice → Nat
  | [] => 0
  | part :: parts => part.length + 1 + roomOf parts

/-- No parts take up no room. -/
@[simp] theorem roomOf_nil : roomOf [] = 0 := rfl

/-- A part takes up its length and the place of its separator. -/
@[simp] theorem roomOf_cons (part : Slice) (parts : List Slice) :
    roomOf (part :: parts) = part.length + 1 + roomOf parts := rfl

/-- Cutting a text takes nothing away but the separators. -/
theorem roomOf_splitFrom {separator : Char} {n : Nesting} {position : Nat} {text part : List Char}
    {later : List Slice} (h : splitFrom separator n position text = .ok (part, later)) :
    part.length + roomOf later = text.length := by
  induction text generalizing n position part later with
  | nil =>
    unfold splitFrom at h
    split at h
    · simp only [Except.ok.injEq, Prod.mk.injEq] at h
      obtain ⟨rfl, rfl⟩ := h
      rfl
    · simp at h
  | cons c rest ih =>
    unfold splitFrom at h
    split at h
    · split at h
      · rename_i hrest
        simp only [Except.ok.injEq, Prod.mk.injEq] at h
        obtain ⟨rfl, rfl⟩ := h
        have := ih hrest
        simp only [List.length_nil, List.length_cons, roomOf_cons, Slice.length_mk]
        omega
      · simp at h
    · split at h
      · split at h
        · rename_i hrest
          simp only [Except.ok.injEq, Prod.mk.injEq] at h
          obtain ⟨rfl, rfl⟩ := h
          have := ih hrest
          simp only [List.length_cons]
          omega
        · simp at h
      · simp at h

/-- The parts and the separators between them fill the slice. -/
theorem roomOf_split {separator : Char} {s : Slice} {parts : List Slice}
    (h : s.split separator = .ok parts) : roomOf parts = s.length + 1 := by
  unfold Slice.split at h
  split at h
  · rename_i hfrom
    simp only [Except.ok.injEq] at h
    subst h
    have := roomOf_splitFrom hfrom
    simp only [roomOf_cons, Slice.length_mk]
    simp only [Slice.length]
    omega
  · simp at h

/-! ## Closing a parenthesis -/

/-- The text up to the parenthesis that closes `depth + 1` open ones, and the text behind it.
Escaped parentheses and those in bracket expressions do not count, and neither do braces. -/
def closeParenthesis : Zone → Nat → List Char → Option (List Char × List Char)
  | _, _, [] => none
  | zone, depth, c :: rest =>
    if zone = .plain ∧ c = ')' then
      match depth with
      | 0 => some ([], rest)
      | depth + 1 => (closeParenthesis .plain depth rest).map fun (body, rest) => (c :: body, rest)
    else
      let depth := if zone = .plain ∧ c = '(' then depth + 1 else depth
      (closeParenthesis (zone.next c) depth rest).map fun (body, rest) => (c :: body, rest)

/-- A parenthesis, its body and what follows make up the text. -/
theorem closeParenthesis_append {zone : Zone} {depth : Nat} {text body rest : List Char}
    (h : closeParenthesis zone depth text = some (body, rest)) : body ++ ')' :: rest = text := by
  induction text generalizing zone depth body rest with
  | nil => simp [closeParenthesis] at h
  | cons c tail ih =>
    unfold closeParenthesis at h
    split at h
    · rename_i hc
      split at h
      · simp only [Option.some.injEq, Prod.mk.injEq] at h
        obtain ⟨rfl, rfl⟩ := h
        simp [hc.2]
      · obtain ⟨⟨b, r⟩, hb, hbr⟩ := Option.map_eq_some_iff.1 h
        simp only [Prod.mk.injEq] at hbr
        obtain ⟨rfl, rfl⟩ := hbr
        simp [ih hb]
    · obtain ⟨⟨b, r⟩, hb, hbr⟩ := Option.map_eq_some_iff.1 h
      simp only [Prod.mk.injEq] at hbr
      obtain ⟨rfl, rfl⟩ := hbr
      simp [ih hb]

end PatternSampler
