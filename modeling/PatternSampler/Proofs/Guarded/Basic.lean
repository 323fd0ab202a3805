import PatternSampler.Proofs.Numbering.Walk

set_option autoImplicit false

/-!
# Guarded operations

Numbers of a fixed size and rows of a fixed length have operations without a result: a difference
that would be negative, a sum that does not fit, an index behind the last place. Here each of them
is guarded that reads a pattern, counts its groups and positions, or makes a random choice, and a
run in which one has no result ends in panic. What is made of a text that has been generated is not
guarded: transforms and shuffling run as they are (`Guarded.ofRun`).

A part of a pattern is evaluated as a text of its own. Its positions count from its own start, and a
stack of offsets says where it stands in the whole pattern.

## Main definitions

* `Halt` — why a computation ends early.
* `Scan` — a guarded computation without a state, with `Scan.difference`, `Scan.below`,
  `Scan.item` and `Scan.slice`.
* `Overflow` — what becomes of a sum of group numbers that does not fit.
* `Context` — the state of a run: its ledger, the stack of offsets, and the calls so far.
* `Guarded` — an action that runs in a context.
* `Guarded.evaluate` — evaluates a part of the current text.

## Implementation notes

The calls are written down in the order in which they start. Nothing takes them back, also not the
end of a probe.
-/

namespace PatternSampler

/-- Why a computation ends early. -/
inductive Halt (ε : Type)
  /-- An operation had no result. -/
  | panic
  /-- The pattern contains a mistake. -/
  | error (e : ε)

/-! ## Computations without a state -/

/-- The outcome of a guarded computation. -/
abbrev Scan (ε α : Type) : Type := Except (Halt ε) α

namespace Scan

variable {ε α : Type}

/-- Ends with a mistake. -/
def fail (e : ε) : Scan ε α := .error (.error e)

/-- The outcome of a computation in which nothing needs to be guarded. -/
def ofExcept : Except ε α → Scan ε α
  | .ok x => .ok x
  | .error e => fail e

/-- The difference of two numbers, the second of which must not be larger. -/
def difference (m n : Nat) : Scan ε Nat := if n ≤ m then .ok (m - n) else .error .panic

/-- A number that must stay below a limit. -/
def below (limit n : Nat) : Scan ε Nat := if n < limit then .ok n else .error .panic

/-- The element at a place, which must lie in the row. -/
def item (row : List α) (place : Nat) : Scan ε α :=
  match row[place]? with
  | some x => .ok x
  | none => .error .panic

/-- The characters of a text from one place up to another one. The places must be in order, and the
second one must not lie behind the text. -/
def slice (text : List Char) (start stop : Nat) : Scan ε Slice :=
  if start ≤ stop ∧ stop ≤ text.length then .ok ⟨start, (text.take stop).drop start⟩
  else .error .panic

/-- A computation that ends well passes any guard. -/
@[simp] lemma ofExcept_ok (x : α) : (ofExcept (.ok x) : Scan ε α) = .ok x := rfl

/-- A computation that fails does so with its own mistake. -/
@[simp] lemma ofExcept_error (e : ε) : (ofExcept (.error e) : Scan ε α) = fail e := rfl

/-- Numbers in order have a difference. -/
lemma difference_of_le {m n : Nat} (h : n ≤ m) : (difference m n : Scan ε Nat) = .ok (m - n) :=
  if_pos h

/-- A number below the limit passes. -/
lemma below_of_lt {limit n : Nat} (h : n < limit) : (below limit n : Scan ε Nat) = .ok n := if_pos h

/-- An element of the row is found at its place. -/
lemma item_of_getElem? {row : List α} {place : Nat} {x : α} (h : row[place]? = some x) :
    (item row place : Scan ε α) = .ok x := by
  rw [item, h]

/-- A slice between two parts of a text. -/
lemma slice_append (front mid back : List Char) {start stop : Nat} (hstart : start = front.length)
    (hstop : stop = front.length + mid.length) :
    (slice (front ++ mid ++ back) start stop : Scan ε Slice) = .ok ⟨start, mid⟩ := by
  subst hstart hstop
  have hlength : front.length ≤ front.length + mid.length ∧
      front.length + mid.length ≤ (front ++ mid ++ back).length := by
    simp only [List.length_append]
    omega
  rw [slice, if_pos hlength, ← List.length_append, List.take_left, List.drop_left]

end Scan

/-! ## Contexts -/

/-- The evaluation of a part: the stack of offsets with the one of the part on top, and the text of
the part. -/
structure Call where
  spans : List Nat
  text : List Char

/-- What becomes of a sum of group numbers that does not fit into 32 bits. -/
inductive Overflow
  /-- The sum has no result. -/
  | panics
  /-- Numbers start again from zero. -/
  | wraps
deriving DecidableEq, Repr

/-- The state of a run. -/
structure Context where
  ledger : Ledger
  /-- Where each part that is being evaluated starts inside the part around it, the outermost
  first. -/
  spans : List Nat
  /-- The evaluations so far. -/
  calls : List Call
  /-- How numbers of groups are summed up. No action changes this. -/
  overflow : Overflow

/-- The error that reports a fault in a part that is evaluated with these offsets. -/
def Fault.errorAt (spans : List Nat) (fault : Fault) : PatternError :=
  { fault.toError with
    position := fault.toError.position.map fun position => resolvePosition position spans }

/-- An action that runs in a context. -/
abbrev Guarded (α : Type) : Type := EStateM (Halt PatternError) Context α

namespace Guarded

variable {α : Type}

/-- Ends in panic. -/
def panic : Guarded α := throw .panic

/-- Reports a fault in the part that is being evaluated. -/
def fail (fault : Fault) : Guarded α := fun ctx => .error (.error (fault.errorAt ctx.spans)) ctx

/-- A computation without a state. -/
def ofScan : Scan Fault α → Guarded α
  | .ok x => pure x
  | .error .panic => panic
  | .error (.error fault) => fail fault

/-- An action in which nothing needs to be guarded. -/
def ofRun (a : Run α) : Guarded α := fun ctx =>
  match a ctx.ledger.progress with
  | .ok x progress => .ok x { ctx with ledger := { ctx.ledger with progress } }
  | .error fault progress =>
    .error (.error (fault.errorAt ctx.spans)) { ctx with ledger := { ctx.ledger with progress } }

/-- Evaluates a part of the current text: its offset is put on the stack as long as `run` reads its
text. -/
def evaluate (run : List Char → Guarded α) (part : Slice) : Guarded α := fun ctx =>
  let spans := ctx.spans ++ [part.start]
  match run part.text { ctx with spans, calls := ctx.calls ++ [⟨spans, part.text⟩] } with
  | .ok x ctx' => .ok x { ctx' with spans := ctx'.spans.dropLast }
  | .error halt ctx' => .error halt { ctx' with spans := ctx'.spans.dropLast }

end Guarded

end PatternSampler
