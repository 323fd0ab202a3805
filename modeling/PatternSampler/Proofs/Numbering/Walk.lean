import PatternSampler.Proofs.Numbering.Tree
import PatternSampler.Proofs.Run.Ends

set_option autoImplicit false

/-!
# Generating along the text

Text can be generated while a pattern is read, without a tree: each construct is generated as soon
as its token has been read. Groups then get their numbers from a counter. The counter moves on with
each group that is opened, it jumps over the groups of parts that are generated later, and it goes
back wherever a part is generated once more.

## Main definitions

* `Ledger` — the state: how far generating has come, and the counter.
* `Walk.rewound`, `Walk.reserve`, `Walk.probe` — the jumps of the counter.
* `Walk.alternate`, `Walk.prepare`, `Walk.advance` — branches, constructs, and tokens.
* `walk` — the samples of a slice.
* `Between` — the states between two tokens that a run of a slice passes through.

## Implementation notes

How the parts of a token are generated is a parameter of all actions but the last one. In `walk`
the parts are shorter than the slice, so the bound in its definition changes nothing (`walk_eq`).

The counter has no limit here. `Guarded.run` is the run whose numbers have 32 bits, and there the
context says whether a sum that does not fit panics or starts again from zero. From the counter zero
on both agree (`Guarded.sampleText_eq`). From other counters on a theorem about `walk` describes
that run only as long as the counter and the groups of the text together stay below the limit.
-/

namespace PatternSampler

/-- How far generating has come, and the number of groups opened so far. -/
structure Ledger where
  progress : Progress
  /-- The number of the group opened last, without a limit. -/
  opened : Nat

/-- An action that also moves the counter of groups. -/
abbrev Walk (α : Type) : Type := EStateM Fault Ledger α

namespace Walk

variable {α : Type}

/-! ## The counter -/

/-- An action that does not look at the counter. -/
def lift (a : Run α) : Walk α := fun l =>
  match a l.progress with
  | .ok x p => .ok x { l with progress := p }
  | .error fault p => .error fault { l with progress := p }

/-- The number of the group opened last. -/
def opened : Walk Nat := fun l => .ok l.opened l

/-- Makes `number` the number of the group opened last. -/
def setOpened (number : Nat) : Walk Unit := fun l => .ok () { l with opened := number }

/-- The number of a new group. -/
def openGroup : Walk Nat := do
  let number := (← opened) + 1
  setOpened number
  return number

/-- Jumps over the groups of a part that is generated later. -/
def reserve (part : Slice) : Walk Unit := do setOpened ((← opened) + countGroups part.text)

/-- An action that numbers its groups from `base` on. Behind it the counter does not stand lower
than in front of it. -/
def rewound (base : Nat) (action : Walk α) : Walk α := do
  let resume ← opened
  setOpened base
  let result ← action
  setOpened (max resume (← opened))
  return result

/-- An action that numbers its groups from `first` on, and whose changes to the texts of groups and
to the counter are taken back. -/
def probe (first : Nat) (action : Walk α) : Walk α := do
  let resume ← opened
  let groups := (← get).progress.groups
  setOpened first
  let result ← action
  setOpened resume
  lift (modify fun p => { p with groups })
  return result

/-- An action `count` times over. -/
def replay (action : Walk α) : (count : Nat) → Walk (List α)
  | 0 => return []
  | count + 1 => do
    let x ← action
    let xs ← replay action count
    return x :: xs

/-! ## Branches -/

section Parts

variable (stream : WordStream) (eval : Slice → Walk (List Sample))

/-- The entropies of the branches that are not chosen. The groups of the first one are numbered
from `first` on. -/
def probeParts (choice : Nat) : (place first : Nat) → List Slice → Walk (List Entropy)
  | _, _, [] => return []
  | place, first, part :: parts =>
    if place = choice then probeParts choice (place + 1) (first + countGroups part.text) parts
    else do
      let s := Sample.join (← probe first (eval part))
      let others ← probeParts choice (place + 1) (first + countGroups part.text) parts
      return s.entropy :: others

/-- The sample of the branch at a place. The groups of the first one are numbered from `first`
on. -/
def choosePart : (choice first : Nat) → List Slice → Walk Sample
  | _, _, [] => return .fixed ""
  | 0, first, part :: _ => do
    setOpened first
    return .join (← eval part)
  | choice + 1, first, part :: parts => choosePart choice (first + countGroups part.text) parts

/-- Makes the texts of all groups empty that are opened in branches which are not chosen. -/
def clearParts (choice : Nat) : (place first : Nat) → List Slice → GroupTable → GroupTable
  | _, _, [], groups => groups
  | place, first, part :: parts, groups =>
    clearParts choice (place + 1) (first + countGroups part.text) parts
      (if place = choice then groups else groups.clear first (countGroups part.text))

/-- The sample of one of several branches. -/
def alternate (first : Slice) (others : List Slice) : Walk Sample := do
  let base ← opened
  let choice ← lift (Run.choose stream (others.length + 1) (Nat.succ_pos _))
  let entropies ← probeParts eval choice 0 base (first :: others)
  let s ← choosePart eval choice base (first :: others)
  lift (modify fun p =>
    { p with groups := clearParts choice 0 base (first :: others) p.groups })
  setOpened (base + ((first :: others).map fun part => countGroups part.text).sum)
  return ⟨s.text, .sum [.choice (others.length + 1), .least s.entropy entropies]⟩

/-- The group with a number, whose text `body` generates. -/
def group (number : Nat) (body : Walk Sample) : Walk Sample := do
  let resume ← opened
  setOpened number
  let s ← body
  setOpened (max resume (← opened))
  lift (Run.record number s.text)
  return s

/-! ## Constructs -/

/-- The sample of a part. -/
def sample (part : Slice) : Walk Sample := do return .join (← eval part)

/-- The text of a part that must not be random. -/
def literal (role : LiteralArgument) (part : Slice) : Walk String := do
  let s ← sample eval part
  if s.entropy.isPositive then throw (.within (.randomArgument role) part.span)
  return s.text

/-- The literal text of a part that may be missing. -/
def literalOr (role : LiteralArgument) (default : String) : Option Slice → Walk String
  | some part => literal eval role part
  | none => return default

/-- A random day between two years. -/
def prepareDate (first last : Slice) (separator : Option Slice) : Walk (Walk Sample) := do
  let firstYear ← lift (numberOf signed? first.span (← literal eval .year first))
  let lastYear ← lift (numberOf signed? last.span (← literal eval .year last))
  let days ← lift (daysOf (first.span.upTo last.span) firstYear lastYear)
  let separator ← literalOr eval .separator "-" separator
  return lift (sampleDay stream firstYear days separator)

/-- A part in a field of a given width. -/
def prepareJustify (alignment : Alignment) (argument width : Slice) (fill : Option Slice)
    (span : Span) : Walk (Walk Sample) := do
  reserve argument
  let columns ← lift (numberOf unsigned? width.span (← literal eval .width width))
  let fillSpan := (fill.map Slice.span).getD span
  let filling ← lift (fillOf fillSpan (← literalOr eval .fill " " fill))
  if maxRepeat < columns then throw (.within .widthTooLarge width.span)
  return do return (← sample eval argument).justified alignment columns filling

/-- Settles the fixed arguments of a call, and yields the action that generates it once. -/
def prepareCall (span : Span) (f : Builtin) (arguments : Slice) : Walk (Walk Sample) :=
  match f with
  | .encode t => return do lift ((← sample eval arguments).transformed t arguments.span)
  | .shuffle => return do lift ((← sample eval arguments).shuffled stream)
  | .optional => return do lift ((← sample eval arguments).orNothing stream)
  | .byte case =>
    if arguments.text.isEmpty then return lift (sampleByte stream case)
    else throw (.within .byteArguments span)
  | .words =>
    if arguments.text.isEmpty then return lift (sampleWords stream 1)
    else do
      let text ← literal eval .wordCount arguments
      let number ← lift (wordCountOf arguments.span text)
      return lift (sampleWords stream number)
  | .expand =>
    match splitParts ',' arguments with
    | .error fault => throw fault
    | .ok [first, second] => do
      reserve first
      let separator ← literal eval .separator second
      return do lift ((← sample eval first).transformed (.expand separator) first.span)
    | .ok _ => throw (.within .expandArguments span)
  | .date =>
    match splitParts ',' arguments with
    | .error fault => throw fault
    | .ok [first, second] => prepareDate stream eval first second none
    | .ok [first, second, third] => prepareDate stream eval first second (some third)
    | .ok _ => throw (.within .dateArguments span)
  | .justify alignment =>
    match splitParts ',' arguments with
    | .error fault => throw fault
    | .ok [first, second] => prepareJustify eval alignment first second none span
    | .ok [first, second, third] => prepareJustify eval alignment first second (some third) span
    | .ok _ => throw (.within .justifyArguments span)

/-- Settles the fixed arguments of a construct, and yields the action that generates it once. -/
def prepare (span : Span) (token : Token) : Walk (Walk Sample) :=
  match token with
  | .character c => return return .fixed c.toString
  | .oneOf set => return lift (set.sample stream)
  | .reference digits => do
    match (decimal? digits).bind (← get).progress.groups.text? with
    | some text => return return .fixed text
    | none => throw (.within (.invalidReference (String.ofList digits)) span)
  | .repetition _ => throw (.within .nothingToRepeat span)
  | .group body => do
    let number ← openGroup
    match splitParts '|' body with
    | .error fault => throw fault
    | .ok [] => return group number (return .join [])
    | .ok [_] => return group number (sample eval body)
    | .ok (first :: second :: rest) =>
      return group number (alternate stream eval first (second :: rest))
  | .call f arguments => prepareCall stream eval span f arguments

/-! ## Tokens -/

/-- The construct generated last: the action that generates it once more, the counter in front of
it, and the largest number of instances that one such action generates. -/
structure Last where
  action : Walk Sample
  base : Nat
  product : Nat

/-- A construct repeated by a count, as the counts behind it see it. -/
def Last.repeated (last : Last) (count : RepeatCount) : Last where
  action := do
    let instances ← lift (count.draw stream)
    return .join (← replay (rewound last.base last.action) instances)
  base := last.base
  product := last.product * count.high

/-- Generates what a token adds to the text. A repeat count adds the missing instances of the
construct in front of it. -/
def advance (last : Option Last) (span : Span) (token : Token) : Walk (Last × Sample) :=
  match token with
  | .repetition count =>
    match last with
    | none => throw (.within .nothingToRepeat span)
    | some last =>
      if maxRepeat < last.product * count.high then throw (.within .repeatTooLarge span)
      else do
        let instances ← lift (count.draw stream)
        let added ← replay (rewound last.base last.action) (instances - 1)
        return (last.repeated stream count, .join added)
  | token => do
    let base ← opened
    let action ← prepare stream eval span token
    let s ← rewound base action
    return (⟨action, base, 1⟩, s)

/-- Where a run stands between two tokens: what is left of the slice, the construct generated last,
and the samples so far. -/
structure Cursor where
  rest : Slice
  last : Option Last
  samples : List Sample

/-- The state behind a token. -/
def Cursor.push (c : Cursor) (rest : Slice) (last : Last) (s : Sample) : Cursor :=
  ⟨rest, some last, c.samples ++ [s]⟩

/-- The samples of a run from a state between two tokens on. -/
def onward (c : Cursor) : Walk (List Sample) :=
  match _h : Token.next c.rest with
  | .error fault => throw fault
  | .ok none => return c.samples
  | .ok (some (token, rest)) => do
    let (last, s) ← advance stream eval c.last ⟨c.rest.start, rest.start - c.rest.start⟩ token
    onward (c.push rest last s)
termination_by c.rest.length
decreasing_by
  exact (Token.room_next _h).2

end Parts

/-! ## Parts are shorter -/

section Congruence

variable {stream : WordStream} {eval eval' : Slice → Walk (List Sample)}

/-- Probing looks at the given parts only. -/
lemma probeParts_congr {parts : List Slice} (h : ∀ part ∈ parts, eval part = eval' part)
    (choice place first : Nat) :
    probeParts eval choice place first parts = probeParts eval' choice place first parts := by
  induction parts generalizing place first with
  | nil => rfl
  | cons part parts ih =>
    obtain ⟨hpart, hparts⟩ := List.forall_mem_cons.1 h
    simp only [probeParts, hpart, ih hparts]

/-- Choosing looks at the given parts only. -/
lemma choosePart_congr {parts : List Slice} (h : ∀ part ∈ parts, eval part = eval' part)
    (choice first : Nat) :
    choosePart eval choice first parts = choosePart eval' choice first parts := by
  induction parts generalizing choice first with
  | nil => cases choice <;> rfl
  | cons part parts ih =>
    obtain ⟨hpart, hparts⟩ := List.forall_mem_cons.1 h
    cases choice with
    | zero => simp only [choosePart, hpart]
    | succ choice => simp only [choosePart, ih hparts]

/-- A call looks only at slices that are not longer than its argument list. -/
lemma prepareCall_congr {span : Span} {f : Builtin} {arguments : Slice}
    (h : ∀ part : Slice, part.length ≤ arguments.length → eval part = eval' part) :
    prepareCall stream eval span f arguments = prepareCall stream eval' span f arguments := by
  have hall := h arguments (Nat.le_refl _)
  have hpart : ∀ {parts : List Slice}, splitParts ',' arguments = .ok parts →
      ∀ part ∈ parts, eval part = eval' part := fun hparts part hmem =>
    h part (length_le_of_mem_splitParts hparts hmem)
  cases f with
  | encode | shuffle | optional | byte | words => simp only [prepareCall, sample, literal, hall]
  | expand =>
    simp only [prepareCall]
    split
    · rfl
    · rename_i first second hparts
      simp only [sample, literal, hpart hparts first (by simp), hpart hparts second (by simp)]
    · rfl
  | date =>
    simp only [prepareCall]
    split
    · rfl
    · rename_i first second hparts
      simp only [prepareDate, literalOr, sample, literal, hpart hparts first (by simp),
        hpart hparts second (by simp)]
    · rename_i first second third hparts
      simp only [prepareDate, literalOr, sample, literal, hpart hparts first (by simp),
        hpart hparts second (by simp), hpart hparts third (by simp)]
    · rfl
  | justify =>
    simp only [prepareCall]
    split
    · rfl
    · rename_i first second hparts
      simp only [prepareJustify, literalOr, sample, literal, hpart hparts first (by simp),
        hpart hparts second (by simp)]
    · rename_i first second third hparts
      simp only [prepareJustify, literalOr, sample, literal, hpart hparts first (by simp),
        hpart hparts second (by simp), hpart hparts third (by simp)]
    · rfl

/-- Preparing a token looks only at slices that are not longer than the room it leaves. -/
lemma prepare_congr {span : Span} {t : Token}
    (h : ∀ part : Slice, part.length ≤ t.room → eval part = eval' part) :
    prepare stream eval span t = prepare stream eval' span t := by
  cases t with
  | character | oneOf | reference | repetition => rfl
  | call f arguments => exact prepareCall_congr h
  | group body =>
    simp only [prepare]
    congr 1
    funext number
    split
    · rfl
    · rfl
    · simp only [sample, h body (Nat.le_refl _)]
    · rename_i first second rest hparts
      have hpart : ∀ part ∈ first :: second :: rest, eval part = eval' part := fun part hmem =>
        h part (length_le_of_mem_splitParts hparts hmem)
      simp only [alternate, probeParts_congr hpart, choosePart_congr hpart]

/-- Generating a token looks only at slices that are not longer than the room it leaves. -/
lemma advance_congr {last : Option Last} {span : Span} {t : Token}
    (h : ∀ part : Slice, part.length ≤ t.room → eval part = eval' part) :
    advance stream eval last span t = advance stream eval' last span t := by
  cases t with
  | repetition => rfl
  | character | oneOf | reference | group | call => simp only [advance, prepare_congr h]

/-- A run looks only at slices that are shorter than its own. -/
lemma onward_congr {room : Nat}
    (h : ∀ part : Slice, part.length < room → eval part = eval' part) (c : Cursor)
    (hc : c.rest.length ≤ room) : onward stream eval c = onward stream eval' c := by
  fun_induction onward stream eval c with
  | case1 c fault hnext => rw [onward, hnext]
  | case2 c hnext => rw [onward, hnext]
  | case3 c t rest hnext ih =>
    obtain ⟨hroom, hrest⟩ := Token.room_next hnext
    conv_rhs => rw [onward, hnext]
    have hadvance (last : Option Last) (span : Span) :
        advance stream eval last span t = advance stream eval' last span t :=
      advance_congr fun part hpart => h part (by omega)
    rw [hadvance]
    refine bind_congr fun (last, s) => ih last s ?_
    simp only [Cursor.push]
    omega

end Congruence

end Walk

/-! ## Slices -/

/-- The samples of a slice, which are generated along its text. -/
def walk (stream : WordStream) (s : Slice) : Walk (List Sample) :=
  Walk.onward stream (fun part => if part.length < s.length then walk stream part else return [])
    ⟨s, none, []⟩
termination_by s.length

/-- The parts of a slice are generated as the slice is. -/
theorem walk_eq (stream : WordStream) (s : Slice) :
    walk stream s = Walk.onward stream (walk stream) ⟨s, none, []⟩ := by
  rw [walk]
  refine Walk.onward_congr (fun part hpart => ?_) _ (Nat.le_refl _)
  rw [if_pos hpart]

/-- The states between two tokens that a run of the slice `s` passes through, from the ledger `l`
on, each with its ledger. -/
inductive Between (stream : WordStream) (s : Slice) (l : Ledger) : Walk.Cursor → Ledger → Prop
  | start : Between stream s l ⟨s, none, []⟩ l
  | step {c : Walk.Cursor} {m m' : Ledger} {t : Token} {rest : Slice} {last : Walk.Last}
      {sample : Sample} (hc : Between stream s l c m)
      (hnext : Token.next c.rest = .ok (some (t, rest)))
      (hadvance : Walk.advance stream (walk stream) c.last
        ⟨c.rest.start, rest.start - c.rest.start⟩ t m = .ok (last, sample) m') :
      Between stream s l (c.push rest last sample) m'

end PatternSampler
