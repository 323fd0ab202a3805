import PatternSampler.Pattern.Fault

set_option autoImplicit false

/-!
# Repeat counts

A construct is repeated by a count in braces: a number of instances, or the bounds of a number
that is drawn anew each time.

## Main definitions

* `RepeatCount` — the two forms, with their bounds `RepeatCount.low` and `RepeatCount.high`.
* `RepeatCount.ofText` — the count that the text between the braces denotes.
* `maxRepeat` — the largest count.
-/

namespace PatternSampler

/-- The largest number of instances that a count, or several counts together, may ask for. -/
def maxRepeat : Nat := 0x10000000

/-- How often a construct is to be repeated. -/
inductive RepeatCount
  /-- A fixed number of instances. -/
  | exactly (count : Nat)
  /-- A number between two bounds, both included. -/
  | between (low high : Nat)
deriving DecidableEq, Repr, Inhabited

namespace RepeatCount

/-- The smallest number of instances. -/
def low : RepeatCount → Nat
  | exactly count => count
  | between low _ => low

/-- The largest number of instances. -/
def high : RepeatCount → Nat
  | exactly count => count
  | between _ high => high

/-- A bound in decimal digits. -/
def bound (text : List Char) : Except Cause Nat :=
  match decimal? text with
  | none => .error (.invalidNumber (String.ofList text))
  | some n => if n < sizeLimit then .ok n else .error .repeatTooLarge

/-- One bound, or two around the first comma. -/
def ofBounds (text : List Char) : Except Cause RepeatCount :=
  let first := text.takeWhile (· != ',')
  match text.drop first.length with
  | [] => (bound text).map exactly
  | _ :: second => do
    let low ← bound first
    let high ← bound second
    return between low high

/-- The count that the text between the braces denotes. -/
def ofText (text : List Char) : Except Cause RepeatCount := do
  let count ← ofBounds text
  if count.low = 0 then .error .emptyRepeat
  else if count.high < count.low then .error (.reversedRepeat count.low count.high)
  else if maxRepeat < count.high then .error .repeatTooLarge
  else return count

end RepeatCount

end PatternSampler
