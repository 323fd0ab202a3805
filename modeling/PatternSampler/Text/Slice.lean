set_option autoImplicit false

/-!
# Slices of a text

Parts of a text are evaluated on their own, and whatever goes wrong inside them is reported at its
position in the whole text. A `Slice` therefore carries the position of its first character.

## Main definitions

* `Span` — a position and a length, the part of a text that a report underlines.
* `Slice` — a run of characters together with the position where it starts.
* `Slice.take`, `Slice.drop` — the two sides of a cut.

All positions and lengths count characters.
-/

namespace PatternSampler

/-- The part of a text from `start` on, `length` characters long. -/
structure Span where
  start : Nat
  length : Nat
deriving DecidableEq, Repr, Inhabited

/-- A run of characters together with the position of its first character in the whole text. -/
structure Slice where
  start : Nat
  text : List Char
deriving DecidableEq, Repr, Inhabited

namespace Slice

/-- A whole text, which starts at position zero. -/
def whole (text : List Char) : Slice := ⟨0, text⟩

/-- Number of characters of a slice. -/
def length (s : Slice) : Nat := s.text.length

/-- The position just behind a slice. -/
def stop (s : Slice) : Nat := s.start + s.length

/-- The span that a slice covers. -/
def span (s : Slice) : Span := ⟨s.start, s.length⟩

/-- The first `n` characters of a slice. -/
def take (n : Nat) (s : Slice) : Slice := ⟨s.start, s.text.take n⟩

/-- A slice without its first `n` characters. -/
def drop (n : Nat) (s : Slice) : Slice := ⟨s.start + n, s.text.drop n⟩

/-- The length of a slice is the length of its text. -/
@[simp] theorem length_mk (start : Nat) (text : List Char) :
    (Slice.mk start text).length = text.length := rfl

/-- A slice is shorter by the characters dropped. -/
@[simp] theorem length_drop (n : Nat) (s : Slice) : (s.drop n).length = s.length - n := by
  simp [drop, length]

/-- Dropping characters in front leaves the end of a slice where it is. -/
theorem stop_drop {n : Nat} {s : Slice} (h : n ≤ s.length) : (s.drop n).stop = s.stop := by
  simp only [stop, drop, length, List.length_drop] at *
  omega

end Slice

end PatternSampler
