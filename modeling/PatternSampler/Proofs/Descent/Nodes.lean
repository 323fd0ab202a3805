import PatternSampler.Proofs.Guarded.Choices

set_option autoImplicit false

/-!
# Nodes

When a construct has been read, what later instances of it need is kept: a node with numbers, texts
and parts of the text around it. Nodes are data. So the parts that are evaluated for a node can be
told from the node, and an action that is repeated is the one of a node.

## Main definitions

* `Guarded.Node` — what is kept of a construct, with `Node.parts` and `Node.generate`.
* `Guarded.build` — the node of a token.
* `Guarded.produce` — what a token adds to the text, behind the node of the construct in front.

## Main results

* `Guarded.prepare_eq_build` — the action for a construct is that of its node.
-/

namespace PatternSampler

namespace Guarded

/-! ## What is kept of a construct -/

/-- What is kept of a construct, to generate it as often as it is needed. -/
inductive Node
  /-- A text that is not random: a character, an escape, or the text of a group. -/
  | text (content : String)
  | oneOf (set : CharSet)
  | group (number : Nat) (body : Slice)
  /-- A group with several branches. -/
  | alternation (number : Nat) (branches : List Slice)
  /-- A construct repeated by a count, with the counter in front of it. -/
  | repetition (child : Node) (count : RepeatCount) (base : Nat)
  | encode (t : Transform) (argument : Slice)
  | byte (case : LetterCase)
  | words (count : Nat)
  | day (first : Int) (days : Nat) (separator : String)
  | shuffle (argument : Slice)
  | optional (argument : Slice)
  | justify (alignment : Alignment) (width : Nat) (fill : Char) (argument : Slice)

/-- The parts of the text that are kept in a node. -/
def Node.parts : Node → List Slice
  | .group _ body => [body]
  | .alternation _ branches => branches
  | .repetition child _ _ => child.parts
  | .encode _ argument | .shuffle argument | .optional argument | .justify _ _ _ argument =>
    [argument]
  | .text _ | .oneOf _ | .byte _ | .words _ | .day _ _ _ => []

/-- The largest number of instances of the innermost construct that a node generates. -/
def Node.multiplicity : Node → Nat
  | .repetition child count _ => child.multiplicity * count.high
  | _ => 1

section Parts

variable (stream : WordStream) (eval : Slice → Guarded (List Sample))

/-- Generates the construct of a node once. -/
def Node.generate : Node → Guarded Sample
  | .text content => return .fixed content
  | .oneOf set => member stream set
  | .group number body => Guarded.group number (sample eval body)
  | .alternation number branches => Guarded.group number (alternate stream eval branches)
  | .repetition child count base => do
    let instances ← draw stream count
    return .join (← replay (rewound base child.generate) instances)
  | .encode t argument => do ofRun ((← sample eval argument).transformed t argument.span)
  | .byte case => Guarded.byte stream case
  | .words count => Guarded.words stream count
  | .day first days separator => Guarded.day stream first days separator
  | .shuffle argument => do ofRun ((← sample eval argument).shuffled stream)
  | .optional argument => do orNothing stream (← sample eval argument)
  | .justify alignment width fill argument => do
    justified alignment width fill (← sample eval argument)

/-! ## The node of a token -/

/-- A random day between two years. -/
def buildDate (first last : Slice) (separator : Option Slice) : Guarded Node := do
  let firstYear ← ofRun (numberOf signed? first.span (← literal eval .year first))
  let lastYear ← ofRun (numberOf signed? last.span (← literal eval .year last))
  let length ← ofScan (.difference last.stop first.start)
  let days ← days ⟨first.start, length⟩ firstYear lastYear
  let separator ← literalOr eval .separator "-" separator
  return .day firstYear days separator

/-- A part in a field of a given width. -/
def buildJustify (alignment : Alignment) (argument width : Slice) (fill : Option Slice)
    (span : Span) : Guarded Node := do
  reserve argument
  let columns ← ofRun (numberOf unsigned? width.span (← literal eval .width width))
  let fillSpan := (fill.map Slice.span).getD span
  let filling ← ofRun (fillOf fillSpan (← literalOr eval .fill " " fill))
  if maxRepeat < columns then fail (.within .widthTooLarge width.span)
  else return .justify alignment columns filling argument

/-- The node of a call. Its fixed arguments are evaluated, and the others are kept. -/
def buildCall (span : Span) (f : Builtin) (arguments : Slice) : Guarded Node :=
  match f with
  | .encode t => return .encode t arguments
  | .shuffle => return .shuffle arguments
  | .optional => return .optional arguments
  | .byte case =>
    if arguments.text.isEmpty then return .byte case else fail (.within .byteArguments span)
  | .words =>
    if arguments.text.isEmpty then return .words 1
    else do
      let text ← literal eval .wordCount arguments
      let count ← ofRun (wordCountOf arguments.span text)
      return .words count
  | .expand => do
    match ← Guarded.parts ',' arguments with
    | [first, second] =>
      reserve first
      let separator ← literal eval .separator second
      return .encode (.expand separator) first
    | _ => fail (.within .expandArguments span)
  | .date => do
    match ← Guarded.parts ',' arguments with
    | [first, second] => buildDate eval first second none
    | [first, second, third] => buildDate eval first second (some third)
    | _ => fail (.within .dateArguments span)
  | .justify alignment => do
    match ← Guarded.parts ',' arguments with
    | [first, second] => buildJustify eval alignment first second none span
    | [first, second, third] => buildJustify eval alignment first second (some third) span
    | _ => fail (.within .justifyArguments span)

/-- The node of a token that is no count. -/
def build (span : Span) (token : Token) : Guarded Node :=
  match token with
  | .character c => return .text c.toString
  | .oneOf set => return .oneOf set
  | .reference digits => do
    match (decimal? digits).bind (← get).ledger.progress.groups.text? with
    | some text => return .text text
    | none => fail (.within (.invalidReference (String.ofList digits)) span)
  | .repetition _ => fail (.within .nothingToRepeat span)
  | .group body => do
    let number ← openGroup
    match ← Guarded.parts '|' body with
    | [_] => return .group number body
    | branches => return .alternation number branches
  | .call f arguments => buildCall eval span f arguments

variable {stream eval}

/-- A mistake yields nothing that could be changed. -/
lemma map_fail {α β : Type} (f : α → β) (fault : Fault) :
    f <$> (fail fault : Guarded α) = fail fault := rfl

/-- A date is prepared by building its node. -/
lemma prepareDate_eq (first last : Slice) (separator : Option Slice) :
    prepareDate stream eval first last separator =
      Node.generate stream eval <$> buildDate eval first last separator := by
  simp only [prepareDate, buildDate, map_bind, map_pure]
  rfl

/-- A justified part is prepared by building its node. -/
lemma prepareJustify_eq (alignment : Alignment) (argument width : Slice) (fill : Option Slice)
    (span : Span) :
    prepareJustify eval alignment argument width fill span =
      Node.generate stream eval <$> buildJustify eval alignment argument width fill span := by
  simp only [prepareJustify, buildJustify, map_bind, apply_ite, map_fail, map_pure]
  rfl

/-- A call is prepared by building its node. -/
lemma prepareCall_eq (span : Span) (f : Builtin) (arguments : Slice) :
    prepareCall stream eval span f arguments =
      Node.generate stream eval <$> buildCall eval span f arguments := by
  cases f with
  | encode | shuffle | optional => rfl
  | byte =>
    rw [prepareCall, buildCall]
    split <;> rfl
  | words =>
    rw [prepareCall, buildCall]
    split
    · rfl
    · simp only [map_bind, map_pure]
      rfl
  | expand =>
    rw [prepareCall, buildCall, map_bind]
    refine bind_congr fun parts => ?_
    rcases parts with _ | ⟨first, _ | ⟨second, _ | ⟨third, later⟩⟩⟩ <;> try rfl
    simp only [map_bind, map_pure]
    rfl
  | date =>
    rw [prepareCall, buildCall, map_bind]
    refine bind_congr fun parts => ?_
    rcases parts with _ | ⟨first, _ | ⟨second, _ | ⟨third, _ | ⟨fourth, later⟩⟩⟩⟩ <;> try rfl
    all_goals exact prepareDate_eq _ _ _
  | justify =>
    rw [prepareCall, buildCall, map_bind]
    refine bind_congr fun parts => ?_
    rcases parts with _ | ⟨first, _ | ⟨second, _ | ⟨third, _ | ⟨fourth, later⟩⟩⟩⟩ <;> try rfl
    all_goals exact prepareJustify_eq _ _ _ _ _

/-- The action for a construct is that of its node. -/
theorem prepare_eq_build (span : Span) (token : Token) :
    prepare stream eval span token = Node.generate stream eval <$> build eval span token := by
  cases token with
  | character | oneOf | repetition => rfl
  | call f arguments => exact prepareCall_eq span f arguments
  | reference digits =>
    rw [prepare, build, map_bind]
    refine bind_congr fun ctx => ?_
    cases (decimal? digits).bind ctx.ledger.progress.groups.text? <;> rfl
  | group body =>
    rw [prepare, build, map_bind]
    refine bind_congr fun number => ?_
    rw [map_bind]
    refine bind_congr fun parts => ?_
    rcases parts with _ | ⟨first, _ | ⟨second, later⟩⟩ <;> rfl

/-! ## Tokens by way of nodes -/

/-- The construct generated last: its node, and the counter in front of it. -/
structure Emitted where
  node : Node
  base : Nat

variable (stream eval)

/-- The construct generated last, as an action. -/
def Emitted.last (emitted : Emitted) : Last where
  action := emitted.node.generate stream eval
  base := emitted.base
  product := emitted.node.multiplicity

/-- The construct of a node once more. The counter stands where it stood in front of it. -/
def Emitted.again (generate : Node → Guarded Sample) (emitted : Emitted) : Guarded Sample :=
  rewound emitted.base (generate emitted.node)

/-- Generates what a token adds to the text, and yields the node that a count behind it repeats. -/
def produce (generate : Node → Guarded Sample) (last : Option Emitted) (span : Span)
    (token : Token) : Guarded (Emitted × Sample) :=
  match token with
  | .repetition count =>
    match last with
    | none => fail (.within .nothingToRepeat span)
    | some last =>
      if maxRepeat < last.node.multiplicity * count.high then fail (.within .repeatTooLarge span)
      else do
        let instances ← draw stream count
        let added ← replay (last.again generate) (instances - 1)
        return (⟨.repetition last.node count last.base, last.base⟩, .join added)
  | token => do
    let base ← opened
    let node ← build eval span token
    let s ← Emitted.again generate ⟨node, base⟩
    return (⟨node, base⟩, s)

end Parts

end Guarded

end PatternSampler
