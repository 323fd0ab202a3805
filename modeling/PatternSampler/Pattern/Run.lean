import PatternSampler.Pattern.Fault
import PatternSampler.Pattern.GroupTable
import PatternSampler.Random.Uniform

set_option autoImplicit false

/-!
# Runs

Generating text needs a stream of random words and the texts of groups, and it may end with a
mistake in the pattern.

## Main definitions

* `Progress` — the position in the stream and the texts of groups.
* `Run` — an action that draws, looks at groups, and may fail.
* `Run.choose` — a uniform choice.
* `Run.probe` — an action that leaves the texts of groups as they were.
* `Run.replay` — an action several times over.

## Implementation notes

A failed action keeps its position in the stream, so that the next one can go on behind it.
-/

namespace PatternSampler

/-- How far generating has come: the number of words taken, and the latest texts of groups. -/
structure Progress where
  position : Nat
  groups : GroupTable
deriving DecidableEq, Inhabited

/-- An action that draws from a stream and uses the texts of groups. -/
abbrev Run (α : Type) : Type := EStateM Fault Progress α

namespace Run

/-- A uniform choice among `n` values. -/
def choose (stream : WordStream) (n : Nat) (h : 0 < n) : Run (Fin n) := fun progress =>
  .ok ⟨(uniform stream n progress.position).1, uniform_lt stream progress.position h⟩
    { progress with position := (uniform stream n progress.position).2 }

/-- Keeps the text of a group. -/
def record (number : Nat) (text : String) : Run Unit :=
  modify fun progress => { progress with groups := progress.groups.record number text }

/-- An action whose changes to the texts of groups are taken back. The words that it takes from
the stream stay taken. -/
def probe {α : Type} (action : Run α) : Run α := do
  let groups := (← get).groups
  let result ← action
  modify fun progress => { progress with groups }
  return result

/-- An action `count` times over, with the results in front in reverse order. -/
def replayOnto {α : Type} (action : Run α) : (count : Nat) → List α → Run (List α)
  | 0, results => fun progress => .ok results.reverse progress
  | count + 1, results => fun progress =>
    match action progress with
    | .ok result progress => replayOnto action count (result :: results) progress
    | .error fault progress => .error fault progress

/-- The results of an action `count` times over. -/
def replay {α : Type} (count : Nat) (action : Run α) : Run (List α) := replayOnto action count []

end Run

end PatternSampler
