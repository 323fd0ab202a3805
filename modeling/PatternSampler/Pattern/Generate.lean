import PatternSampler.Pattern.Parse
import PatternSampler.Pattern.Sample

set_option autoImplicit false

/-!
# Generating text from patterns

The meaning of a pattern is an action that draws random words and yields a sample. Constructs are
generated one after the other, each as often as its repeat counts say.

## Main definitions

* `Construct.prepare` — settles the fixed arguments of a construct and yields the action that
  generates it once.
* `repeated`, `extras` — the instances that repeat counts add.
* `Pattern.samples` — the samples of the constructs of a pattern, in order.
* `Branches.probeOthers`, `Branches.chosen` — the branches of an alternation.
* `generate` — a sample of a text read as a pattern.

## Implementation notes

A construct is prepared once, whatever its repeat counts. Only the action that it yields is
repeated. In a row of counts each one repeats what the counts in front of it make of the
construct, and numbers that are drawn are drawn anew in each instance.

All branches of an alternation are generated, so that a mistake shows whichever branch is chosen,
and so that the smallest entropy among them is known. The branches that are not chosen leave no
texts of groups behind.
-/

namespace PatternSampler

/-! ## Repetition -/

/-- The construct of an action, repeated by one count. -/
def repeated (stream : WordStream) (count : RepeatCount) (action : Run Sample) : Run Sample := do
  let instances ← count.draw stream
  return .join (← Run.replay instances action)

/-- What each of several counts adds to the construct of an action, whose first instance has been
generated already. -/
def extras (stream : WordStream) : List RepeatCount → Run Sample → Run (List Sample)
  | [], _ => return []
  | count :: later, action => do
    let instances ← count.draw stream
    let added ← Run.replay (instances - 1) action
    let more ← extras stream later (repeated stream count action)
    return .join added :: more

/-! ## Checks of fixed arguments -/

/-- The number that the text of an argument at `span` spells. -/
def numberOf {α : Type} (read : List Char → Option α) (span : Span) (text : String) : Run α :=
  match read text.toList with
  | some number => return number
  | none => throw (.within (.invalidNumber text) span)

/-- The number of words that an argument at `span` asks for. -/
def wordCountOf (span : Span) (text : String) : Run Nat := do
  let count ← numberOf unsigned? span text
  if count = 0 ∨ maxRepeat < count then throw (.within (.invalidWordCount count) span)
  return count

/-- The number of days behind the first one from the start of one year to the end of another. Both
years stand at `span`. -/
def daysOf (span : Span) (first last : Int) : Run Nat :=
  if last < first then throw (.within (.reversedYears first last) span)
  else if first < Date.firstYear ∨ Date.lastYear < last then
    throw (.within (.yearsOutOfRange first last) span)
  else return (daysBefore (last + 1) - daysBefore first - 1).toNat

/-- The only character of the text of an argument at `span`. -/
def fillOf (span : Span) (text : String) : Run Char :=
  match text.toList with
  | [c] => return c
  | _ => throw (.within .fillLength span)

/-- The smallest span around two others, the first of which starts it and the second ends it. -/
def Span.upTo (first last : Span) : Span := ⟨first.start, last.start + last.length - first.start⟩

/-! ## Patterns -/

/-- Makes the texts of all groups empty that are opened in branches which are not chosen. -/
def Branches.clearOthers : (choice : Nat) → Branches → GroupTable → GroupTable
  | 0, .one _ _ _, groups => groups
  | _ + 1, .one before count _, groups => groups.clear before count
  | 0, .more _ _ _ rest, groups => rest.clearOthers rest.length groups
  | choice + 1, .more before count _ rest, groups =>
    rest.clearOthers choice (groups.clear before count)

mutual

/-- The samples of the constructs of a pattern and of their repetitions, in order. -/
def Pattern.samples (stream : WordStream) : Pattern → Run (List Sample)
  | .done => return []
  | .stop fault => throw fault
  | .seq head counts rest => do
    let action ← head.prepare stream
    let first ← action
    let added ← extras stream counts action
    let later ← rest.samples stream
    return first :: (added ++ later)

/-- Settles the fixed arguments of a construct, and yields the action that generates it once. -/
def Construct.prepare (stream : WordStream) : Construct → Run (Run Sample)
  | .character c => return return .fixed c.toString
  | .oneOf set => return set.sample stream
  | .reference span digits => do
    match (decimal? digits).bind (← get).groups.text? with
    | some text => return return .fixed text
    | none => throw (.within (.invalidReference (String.ofList digits)) span)
  | .group number body =>
    return do
      let s := .join (← body.samples stream)
      Run.record number s.text
      return s
  | .alternation number branches =>
    return do
      let choice ← Run.choose stream branches.length branches.length_pos
      let others ← branches.probeOthers stream choice 0
      let s ← branches.chosen stream choice
      modify fun progress => { progress with groups := branches.clearOthers choice progress.groups }
      Run.record number s.text
      return ⟨s.text, .sum [.choice branches.length, .least s.entropy others]⟩
  | .encode t argument =>
    return do (← argument.sample stream).transformed t argument.span
  | .expand argument separator => do
    let separator ← separator.literal stream .separator
    return do (← argument.sample stream).transformed (.expand separator) argument.span
  | .byte case => return sampleByte stream case
  | .words count => do
    let number ← wordCountOf count.span (← count.literal stream .wordCount)
    return sampleWords stream number
  | .date first last separator => do
    let firstYear ← numberOf signed? first.span (← first.literal stream .year)
    let lastYear ← numberOf signed? last.span (← last.literal stream .year)
    let days ← daysOf (first.span.upTo last.span) firstYear lastYear
    let separator ← separator.literal stream .separator
    return sampleDay stream firstYear days separator
  | .shuffle argument => return do (← argument.sample stream).shuffled stream
  | .optional argument => return do (← argument.sample stream).orNothing stream
  | .justify alignment argument width fill => do
    let columns ← numberOf unsigned? width.span (← width.literal stream .width)
    let filling ← fillOf fill.span (← fill.literal stream .fill)
    if maxRepeat < columns then throw (.within .widthTooLarge width.span)
    return do return (← argument.sample stream).justified alignment columns filling

/-- The sample of an argument. -/
def Argument.sample (stream : WordStream) : Argument → Run Sample
  | .mk _ body => do return .join (← body.samples stream)

/-- The text of an argument that must not be random. -/
def Argument.literal (stream : WordStream) (role : LiteralArgument) : Argument → Run String
  | .mk span body => do
    let s := Sample.join (← body.samples stream)
    if s.entropy.isPositive then throw (.within (.randomArgument role) span)
    return s.text

/-- The entropies of the branches that are not chosen. The first branch stands at `place`. -/
def Branches.probeOthers (stream : WordStream) (choice place : Nat) : Branches → Run (List Entropy)
  | .one _ _ body =>
    if place = choice then return []
    else do return [(Sample.join (← Run.probe (body.samples stream))).entropy]
  | .more _ _ body rest =>
    if place = choice then rest.probeOthers stream choice (place + 1)
    else do
      let s := Sample.join (← Run.probe (body.samples stream))
      let others ← rest.probeOthers stream choice (place + 1)
      return s.entropy :: others

/-- The sample of the branch at a place, or of the last branch behind all places. -/
def Branches.chosen (stream : WordStream) : (choice : Nat) → Branches → Run Sample
  | _, .one _ _ body => do return .join (← body.samples stream)
  | 0, .more _ _ body _ => do return .join (← body.samples stream)
  | choice + 1, .more _ _ _ rest => rest.chosen stream choice

end

/-! ## Whole patterns -/

/-- The largest number of characters of a pattern. -/
def maxPatternLength : Nat := 1000

/-- The sample of a text read as a pattern. -/
def sampleText (stream : WordStream) (text : List Char) : Run Sample :=
  if maxPatternLength < text.length then throw ⟨.tooLong, none⟩
  else do return .join (← (Pattern.ofText text).samples stream)

/-- The outcome of generating: a sample or a mistake, and the position in the stream behind the
words taken. -/
structure Outcome where
  result : Except Fault Sample
  position : Nat

/-- A sample of a text read as a pattern, drawn from a position of a stream on. -/
def generate (stream : WordStream) (position : Nat) (pattern : String) : Outcome :=
  match sampleText stream pattern.toList ⟨position, .empty⟩ with
  | .ok s progress => ⟨.ok s, progress.position⟩
  | .error fault progress => ⟨.error fault, progress.position⟩

end PatternSampler
