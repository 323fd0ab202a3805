import PatternSampler.Proofs.Guarded.Reading

set_option autoImplicit false

/-!
# Generating with guards

Text is generated while a pattern is read, with every operation guarded that may have no result, as
far as it reads the pattern, counts or chooses. Each part of the pattern is evaluated as a text of
its own, and whatever is said about positions counts from the start of this text.

## Main definitions

* `Guarded.number`, `Guarded.openGroup`, `Guarded.probe` — the counter of groups.
* `Guarded.uniform`, `Guarded.draw`, `Guarded.member`, `Guarded.day` — random choices.
* `Guarded.parts`, `Guarded.alternate`, `Guarded.prepare`, `Guarded.advance` — branches, constructs,
  and tokens.
* `Guarded.run` — the samples of a text.
* `Guarded.sampleText` — the sample of a whole pattern.

## Implementation notes

A run also ends in panic where the reader does not move on behind a token, and where a part is not
shorter than the text around it. So a run that does not end in panic needs no further argument why
it ends.

Transforms and shuffling are functions on texts without guards. They run through `ofRun`, and a run
that does not end in panic says nothing about them.
-/

namespace PatternSampler

namespace Guarded

variable {α : Type}

/-! ## The counter -/

/-- The numbers of groups stay below this limit. -/
def numberLimit : Nat := 0x100000000

/-- A number of groups, which has to fit into 32 bits. -/
def number (n : Nat) : Guarded Nat := fun ctx =>
  match ctx.overflow with
  | .panics => ofScan (.below numberLimit n) ctx
  | .wraps => .ok (n % numberLimit) ctx

/-- The number of the group opened last. -/
def opened : Guarded Nat := do return (← get).ledger.opened

/-- Makes `number` the number of the group opened last. -/
def setOpened (number : Nat) : Guarded Unit :=
  modify fun ctx => { ctx with ledger := { ctx.ledger with opened := number } }

/-- The number of a new group. -/
def openGroup : Guarded Nat := do
  let next ← number ((← opened) + 1)
  setOpened next
  return next

/-- Jumps over the groups of a part that is generated later. -/
def reserve (part : Slice) : Guarded Unit := do
  let count ← number (countGroups part.text)
  setOpened (← number ((← opened) + count))

/-- An action that numbers its groups from `base` on. Behind it the counter does not stand lower
than in front of it. -/
def rewound (base : Nat) (action : Guarded α) : Guarded α := do
  let resume ← opened
  setOpened base
  let result ← action
  setOpened (max resume (← opened))
  return result

/-- An action in a copy of the context, in which groups are numbered from `first` on. Only the words
that it takes from the stream stay taken. -/
def probe (first : Nat) (action : Guarded α) : Guarded α := fun ctx =>
  let resume (ctx' : Context) : Context :=
    { ctx with
      ledger.progress.position := ctx'.ledger.progress.position
      calls := ctx'.calls }
  match action { ctx with ledger.opened := first } with
  | .ok x ctx' => .ok x (resume ctx')
  | .error halt ctx' => .error halt (resume ctx')

/-- An action `count` times over. -/
def replay (action : Guarded α) : (count : Nat) → Guarded (List α)
  | 0 => return []
  | count + 1 => do
    let x ← action
    let xs ← replay action count
    return x :: xs

/-! ## Random choices -/

section Choices

variable (stream : WordStream)

/-- A uniform choice among `n` values, of which there must be one. -/
def uniform (n : Nat) : Guarded Nat :=
  if h : 0 < n then do return (← ofRun (Run.choose stream n h)).val else panic

/-- Draws how often a construct is to be repeated. -/
def draw : RepeatCount → Guarded Nat
  | .exactly count => return count
  | .between low high => do
    let width ← ofScan (.difference high low)
    let place ← uniform stream (← ofScan (.below sizeLimit (width + 1)))
    ofScan (.below sizeLimit (low + place))

/-- A member of a set. An empty set yields no text and takes no draw. -/
def member (set : CharSet) : Guarded Sample :=
  if set.size = 0 then return .fixed "" else do
    let place ← uniform stream set.size
    let c ← ofScan (.item set.toList place)
    return ⟨c.toString, .choice set.size⟩

/-- A random byte in two hexadecimal digits. -/
def byte (case : LetterCase) : Guarded Sample := do
  let byte ← uniform stream 256
  return ⟨String.ofList (Hex.encodeByte case (UInt8.ofNat byte)), .choice 256⟩

/-- A random mnemonic word. -/
def word : Guarded Sample := do
  let place ← uniform stream Mnemonic.wordList.length
  let word ← ofScan (.item Mnemonic.wordList place)
  return ⟨word, .choice 2048⟩

/-- Random mnemonic words with spaces between them. -/
def words (count : Nat) : Guarded Sample := do
  let words ← replay (word stream) count
  return ⟨" ".intercalate (words.map Sample.text), .sum (words.map Sample.entropy)⟩

/-- The number of days from the start of one year to the end of another. Both years stand at
`span`. -/
def days (span : Span) (first last : Int) : Guarded Nat :=
  if last < first then fail (.within (.reversedYears first last) span)
  else if first < Date.firstYear ∨ Date.lastYear < last then
    fail (.within (.yearsOutOfRange first last) span)
  else
    let difference := daysBefore (last + 1) - 1 - daysBefore first
    if difference < 0 then panic else ofScan (.below sizeLimit (difference.toNat + 1))

/-- A random day from the start of the year `first` on, among `days` days. -/
def day (first : Int) (days : Nat) (separator : String) : Guarded Sample := do
  let day ← uniform stream days
  let date := Date.ofDayNumber (daysBefore first + day)
  if Date.lastYear < date.year then fail ⟨.dateOutOfRange, none⟩
  else return ⟨date.render separator, .choice days⟩

/-- A sample or nothing. -/
def orNothing (s : Sample) : Guarded Sample := do
  let keep ← uniform stream 2
  return ⟨if keep = 1 then s.text else "", .choice 2⟩

end Choices

/-- A sample in a field of `width` characters, filled up with `fill`. -/
def justified (alignment : Alignment) (width : Nat) (fill : Char) (s : Sample) :
    Guarded Sample := do
  let free := width - s.text.length
  let left := match alignment with
    | .left => 0
    | .right => free
    | .center => free / 2
  let right ← ofScan (.difference free left)
  let filling (count : Nat) := String.ofList (List.replicate count fill)
  return ⟨filling left ++ s.text ++ filling right, s.entropy⟩

/-- The parts of a slice between separators, cut out of its text. -/
def parts (separator : Char) (s : Slice) : Guarded (List Slice) :=
  match Scan.split s.text separator with
  | .ok parts => return parts.map (Slice.shift s.start)
  | .error .panic => panic
  | .error (.error imbalance) =>
    fail ((Fault.located (.unbalanced imbalance) imbalance.position 1).shift s.start)

/-! ## Branches -/

/-- A branch, the number of the group in front of it, and the number of its groups. -/
structure Branch where
  part : Slice
  first : Nat
  count : Nat

/-- The branches, whose groups are numbered from `first` on. -/
def numbered (first : Nat) : List Slice → Guarded (List Branch)
  | [] => return []
  | part :: parts => do
    let count ← number (countGroups part.text)
    let branches ← numbered (← number (first + count)) parts
    return ⟨part, first, count⟩ :: branches

/-- Makes the texts of all groups empty whose numbers go from `low` to `high`. -/
def clearBetween (low high : Nat) (groups : GroupTable) : GroupTable :=
  (List.range' low (high + 1 - low)).foldl (fun groups number => groups.record number "") groups

/-- Makes the texts of all groups empty that are opened in branches which are not chosen. -/
def clearOthers (choice : Nat) : (place : Nat) → List Branch → Guarded Unit
  | _, [] => return ()
  | place, branch :: branches =>
    if place = choice then clearOthers choice (place + 1) branches
    else do
      let low ← number (branch.first + 1)
      let high ← number (branch.first + branch.count)
      ofRun (modify fun p => { p with groups := clearBetween low high p.groups })
      clearOthers choice (place + 1) branches

section Parts

variable (stream : WordStream) (eval : Slice → Guarded (List Sample))

/-- The entropies of the branches that are not chosen. -/
def probeOthers (choice : Nat) : (place : Nat) → List Branch → Guarded (List Entropy)
  | _, [] => return []
  | place, branch :: branches =>
    if place = choice then probeOthers choice (place + 1) branches
    else do
      let s := Sample.join (← probe branch.first (eval branch.part))
      let others ← probeOthers choice (place + 1) branches
      return s.entropy :: others

/-- The sample of one of several branches, of which there must be two. -/
def alternate (parts : List Slice) : Guarded Sample :=
  if parts.length < 2 then panic else do
    let base ← opened
    let branches ← numbered base parts
    let choice ← uniform stream parts.length
    let entropies ← probeOthers eval choice 0 branches
    let chosen ← ofScan (.item branches choice)
    setOpened chosen.first
    let s := Sample.join (← eval chosen.part)
    clearOthers choice 0 branches
    let count ← number (branches.map Branch.count).sum
    setOpened (← number (base + count))
    return ⟨s.text, .sum [.choice parts.length, .least s.entropy entropies]⟩

/-- The group with a number, whose text `body` generates. -/
def group (number : Nat) (body : Guarded Sample) : Guarded Sample := do
  let resume ← opened
  setOpened number
  let s ← body
  setOpened (max resume (← opened))
  ofRun (Run.record number s.text)
  return s

/-! ## Constructs -/

/-- The sample of a part. -/
def sample (part : Slice) : Guarded Sample := do return .join (← eval part)

/-- The text of a part that must not be random. -/
def literal (role : LiteralArgument) (part : Slice) : Guarded String := do
  let s ← sample eval part
  if s.entropy.isPositive then fail (.within (.randomArgument role) part.span)
  else return s.text

/-- The literal text of a part that may be missing. -/
def literalOr (role : LiteralArgument) (default : String) : Option Slice → Guarded String
  | some part => literal eval role part
  | none => return default

/-- A random day between two years. -/
def prepareDate (first last : Slice) (separator : Option Slice) : Guarded (Guarded Sample) := do
  let firstYear ← ofRun (numberOf signed? first.span (← literal eval .year first))
  let lastYear ← ofRun (numberOf signed? last.span (← literal eval .year last))
  let length ← ofScan (.difference last.stop first.start)
  let days ← days ⟨first.start, length⟩ firstYear lastYear
  let separator ← literalOr eval .separator "-" separator
  return day stream firstYear days separator

/-- A part in a field of a given width. -/
def prepareJustify (alignment : Alignment) (argument width : Slice) (fill : Option Slice)
    (span : Span) : Guarded (Guarded Sample) := do
  reserve argument
  let columns ← ofRun (numberOf unsigned? width.span (← literal eval .width width))
  let fillSpan := (fill.map Slice.span).getD span
  let filling ← ofRun (fillOf fillSpan (← literalOr eval .fill " " fill))
  if maxRepeat < columns then fail (.within .widthTooLarge width.span)
  else return do justified alignment columns filling (← sample eval argument)

/-- Settles the fixed arguments of a call, and yields the action that generates it once. -/
def prepareCall (span : Span) (f : Builtin) (arguments : Slice) : Guarded (Guarded Sample) :=
  match f with
  | .encode t => return do ofRun ((← sample eval arguments).transformed t arguments.span)
  | .shuffle => return do ofRun ((← sample eval arguments).shuffled stream)
  | .optional => return do orNothing stream (← sample eval arguments)
  | .byte case =>
    if arguments.text.isEmpty then return byte stream case
    else fail (.within .byteArguments span)
  | .words =>
    if arguments.text.isEmpty then return words stream 1
    else do
      let text ← literal eval .wordCount arguments
      let count ← ofRun (wordCountOf arguments.span text)
      return words stream count
  | .expand => do
    match ← parts ',' arguments with
    | [first, second] =>
      reserve first
      let separator ← literal eval .separator second
      return do ofRun ((← sample eval first).transformed (.expand separator) first.span)
    | _ => fail (.within .expandArguments span)
  | .date => do
    match ← parts ',' arguments with
    | [first, second] => prepareDate stream eval first second none
    | [first, second, third] => prepareDate stream eval first second (some third)
    | _ => fail (.within .dateArguments span)
  | .justify alignment => do
    match ← parts ',' arguments with
    | [first, second] => prepareJustify eval alignment first second none span
    | [first, second, third] => prepareJustify eval alignment first second (some third) span
    | _ => fail (.within .justifyArguments span)

/-- Settles the fixed arguments of a construct, and yields the action that generates it once. -/
def prepare (span : Span) (token : Token) : Guarded (Guarded Sample) :=
  match token with
  | .character c => return return .fixed c.toString
  | .oneOf set => return member stream set
  | .reference digits => do
    match (decimal? digits).bind (← get).ledger.progress.groups.text? with
    | some text => return return .fixed text
    | none => fail (.within (.invalidReference (String.ofList digits)) span)
  | .repetition _ => fail (.within .nothingToRepeat span)
  | .group body => do
    let number ← openGroup
    match ← parts '|' body with
    | [_] => return group number (sample eval body)
    | branches => return group number (alternate stream eval branches)
  | .call f arguments => prepareCall stream eval span f arguments

/-! ## Tokens -/

/-- The construct generated last: the action that generates it once more, the counter in front of
it, and the largest number of instances that one such action generates. -/
structure Last where
  action : Guarded Sample
  base : Nat
  product : Nat

/-- A construct repeated by a count, as the counts behind it see it. -/
def Last.repeated (last : Last) (count : RepeatCount) : Last where
  action := do
    let instances ← draw stream count
    return .join (← replay (rewound last.base last.action) instances)
  base := last.base
  product := last.product * count.high

/-- Generates what a token adds to the text. -/
def advance (last : Option Last) (span : Span) (token : Token) : Guarded (Last × Sample) :=
  match token with
  | .repetition count =>
    match last with
    | none => fail (.within .nothingToRepeat span)
    | some last =>
      if maxRepeat < last.product * count.high then fail (.within .repeatTooLarge span)
      else do
        let instances ← draw stream count
        let added ← replay (rewound last.base last.action) (instances - 1)
        return (last.repeated stream count, .join added)
  | token => do
    let base ← opened
    let action ← prepare stream eval span token
    let s ← rewound base action
    return (⟨action, base, 1⟩, s)

/-- The samples of what is left of a text behind the construct `last`, and of what is in front of
it. -/
def onward (input : List Char) (rest : Slice) (last : Option Last) (samples : List Sample) :
    Guarded (List Sample) := do
  match ← ofScan (Scan.token input rest) with
  | none => return samples
  | some (token, behind) =>
    let length ← ofScan (.difference behind.start rest.start)
    let (last, s) ← advance stream eval last ⟨rest.start, length⟩ token
    if behind.length < rest.length then onward input behind (some last) (samples ++ [s])
    else panic
termination_by rest.length

end Parts

/-! ## Texts -/

/-- The samples of a text, whose parts are evaluated as texts of their own. -/
def run (stream : WordStream) (text : List Char) : Guarded (List Sample) :=
  let eval := evaluate fun part => if part.length < text.length then run stream part else panic
  onward stream eval text (.whole text) none []
termination_by text.length

/-- The sample of a text read as a pattern. -/
def sampleText (stream : WordStream) (text : List Char) : Guarded Sample :=
  if maxPatternLength < text.length then fail ⟨.tooLong, none⟩
  else do return .join (← evaluate (run stream) (.whole text))

end Guarded

/-- The state in front of a whole pattern, at a position of the stream. -/
def Context.start (position : Nat) : Context := ⟨⟨⟨position, .empty⟩, 0⟩, [], [], .panics⟩

end PatternSampler
