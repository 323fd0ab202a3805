import PatternSampler.CharSet.Basic
import PatternSampler.Entropy
import PatternSampler.Mnemonic.WordList
import PatternSampler.Numeric.Calendar
import PatternSampler.Pattern.Builtin
import PatternSampler.Pattern.RepeatCount
import PatternSampler.Pattern.Run
import PatternSampler.Random.Shuffle

set_option autoImplicit false

/-!
# Samples

A sample is a generated text with its entropy. Random parts draw samples from a stream, and
functions change the samples of their arguments.

## Main definitions

* `Sample` — a text and its entropy.
* `Sample.join` — samples one after the other.
* `RepeatCount.draw`, `CharSet.sample`, `sampleByte`, `sampleWords`, `sampleDay` — random parts.
* `Sample.shuffled`, `Sample.orNothing`, `Sample.justified`, `Sample.transformed` — changes.
-/

namespace PatternSampler

/-- A generated text and its entropy. -/
structure Sample where
  text : String
  entropy : Entropy
deriving Inhabited

namespace Sample

/-- A text that is not random. -/
def fixed (text : String) : Sample := ⟨text, .zero⟩

/-- Samples one after the other. -/
def join (samples : List Sample) : Sample :=
  ⟨String.join (samples.map Sample.text), .sum (samples.map Sample.entropy)⟩

end Sample

/-! ## Random parts -/

/-- Draws how often a construct is to be repeated. A fixed number takes no draw. -/
def RepeatCount.draw (stream : WordStream) : RepeatCount → Run Nat
  | exactly count => return count
  | between low high => return low + (← Run.choose stream (high - low + 1) (Nat.succ_pos _))

/-- A member of a set. An empty set yields no text and takes no draw. -/
def CharSet.sample (stream : WordStream) (set : CharSet) : Run Sample :=
  if h : 0 < set.size then do
    let place ← Run.choose stream set.size h
    return ⟨(set.get place).toString, .choice set.size⟩
  else return .fixed ""

/-- A random byte in two hexadecimal digits. -/
def sampleByte (stream : WordStream) (case : LetterCase) : Run Sample := do
  let byte ← Run.choose stream 256 (by decide)
  return ⟨String.ofList (Hex.encodeByte case (UInt8.ofNat byte)), .choice 256⟩

/-- A random mnemonic word. -/
def sampleWord (stream : WordStream) : Run Sample := do
  let place ← Run.choose stream Mnemonic.wordList.length (by rw [Mnemonic.length_wordList]; decide)
  return ⟨Mnemonic.wordList.get place, .choice 2048⟩

/-- Random mnemonic words with spaces between them. -/
def sampleWords (stream : WordStream) (count : Nat) : Run Sample := do
  let words ← Run.replay count (sampleWord stream)
  return ⟨" ".intercalate (words.map Sample.text), .sum (words.map Sample.entropy)⟩

/-- A random day from the start of the year `first` on, among `days + 1` days. A day behind the last
year of the calendar is a mistake. -/
def sampleDay (stream : WordStream) (first : Int) (days : Nat) (separator : String) :
    Run Sample := do
  let day ← Run.choose stream (days + 1) (Nat.succ_pos _)
  let date := Date.ofDayNumber (daysBefore first + day)
  if Date.lastYear < date.year then throw ⟨.dateOutOfRange, none⟩
  else return ⟨date.render separator, .choice (days + 1)⟩

/-! ## Changes to a sample -/

/-- The characters of a sample in random order. The order does not count as entropy. -/
def Sample.shuffled (stream : WordStream) (s : Sample) : Run Sample := fun progress =>
  let (text, position) := shuffle stream s.text.toList progress.position
  .ok ⟨String.ofList text, s.entropy⟩ { progress with position }

/-- A sample or nothing. The entropy is that of the choice between the two. -/
def Sample.orNothing (stream : WordStream) (s : Sample) : Run Sample := do
  let keep ← Run.choose stream 2 (by decide)
  return ⟨if keep.val = 1 then s.text else "", .choice 2⟩

/-- A sample in a field of `width` characters, filled up with `fill`. -/
def Sample.justified (alignment : Alignment) (width : Nat) (fill : Char) (s : Sample) : Sample :=
  let free := width - s.text.length
  let left := match alignment with
    | .left => 0
    | .right => free
    | .center => free / 2
  let filling (count : Nat) := String.ofList (List.replicate count fill)
  ⟨filling left ++ s.text ++ filling (free - left), s.entropy⟩

/-- A sample under a transform. A failure is reported at `span`. -/
def Sample.transformed (t : Transform) (span : Span) (s : Sample) : Run Sample :=
  match t.apply s.text with
  | .ok text => return ⟨text, s.entropy⟩
  | .error cause => throw (.within (.transform t cause) span)

end PatternSampler
