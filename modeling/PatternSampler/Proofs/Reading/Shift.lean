import Mathlib.Tactic.Common
import PatternSampler.Proofs.Faults.Marks
import PatternSampler.Proofs.Reading.Parts

set_option autoImplicit false

/-!
# Moving a text

A text means the same wherever it stands. If it is moved, what is read from it stays the same but
for the places, which move along.

## Main definitions

* `Slice.shift`, `Fault.shift`, `Pattern.shift` — slices, faults and trees behind further
  characters.
* `shiftReading` — what a reader yields there.

## Main results

* `Token.next_shift` — tokens of a moved slice.
* `splitParts_shift` — parts of a moved slice.
* `Pattern.ofSlice_shift` — the tree of a moved slice.
* `Fault.toError_shift` — a moved fault is the same error at another position.
-/

namespace PatternSampler

/-! ## Places -/

/-- The span behind `k` further characters. -/
def Span.shift (k : Nat) (s : Span) : Span := ⟨s.start + k, s.length⟩

/-- The slice behind `k` further characters. -/
def Slice.shift (k : Nat) (s : Slice) : Slice := ⟨s.start + k, s.text⟩

namespace Slice

variable (k : Nat) (s : Slice)

/-- The start of a slice moves along. -/
@[simp] lemma start_shift : (s.shift k).start = s.start + k := rfl

/-- The text of a slice stays the same. -/
@[simp] lemma text_shift : (s.shift k).text = s.text := rfl

/-- The length of a slice stays the same. -/
@[simp] lemma length_shift : (s.shift k).length = s.length := rfl

/-- The span of a slice moves along. -/
@[simp] lemma span_shift : (s.shift k).span = s.span.shift k := rfl

/-- The end of a slice moves along. -/
@[simp] lemma stop_shift : (s.shift k).stop = s.stop + k := Nat.add_right_comm _ _ _

/-- A slice may be moved before or after characters are dropped. -/
@[simp] lemma drop_shift (n : Nat) : (s.shift k).drop n = (s.drop n).shift k := by
  simp only [drop, shift, Nat.add_right_comm]

end Slice

/-! ## Faults -/

/-- The imbalance behind `k` further characters. -/
def Imbalance.shift (k : Nat) : Imbalance → Imbalance
  | unexpected position closer => unexpected (position + k) closer
  | unterminated position opener => unterminated (position + k) opener

/-- The position of an imbalance moves along. -/
@[simp] lemma Imbalance.position_shift (k : Nat) (i : Imbalance) :
    (i.shift k).position = i.position + k := by
  cases i <;> rfl

/-- The mistake behind `k` further characters. Only an imbalance knows where it stands. -/
def Cause.shift (k : Nat) : Cause → Cause
  | unbalanced imbalance => unbalanced (imbalance.shift k)
  | cause => cause

/-- The fault behind `k` further characters. -/
def Fault.shift (k : Nat) (fault : Fault) : Fault :=
  ⟨fault.cause.shift k, fault.place.map (Span.shift k)⟩

/-- A fault at given positions moves along. -/
@[simp] lemma Fault.shift_located (k start length : Nat) (cause : Cause) :
    (located cause start length).shift k = located (cause.shift k) (start + k) length := rfl

/-- A fault within a span moves along with the span. -/
@[simp] lemma Fault.shift_within (k : Nat) (cause : Cause) (span : Span) :
    (within cause span).shift k = within (cause.shift k) (span.shift k) := rfl

/-- A mistake stays of the same kind. -/
@[simp] lemma Cause.kind_shift (k : Nat) (cause : Cause) : (cause.shift k).kind = cause.kind := by
  cases cause <;> rfl

/-- A mistake in a value does not know where it stands, and stays the same. -/
lemma Cause.shift_of_kind {k : Nat} {cause : Cause} (h : cause.kind = .value) :
    cause.shift k = cause := by
  cases cause with
  | unbalanced => cases h
  | _ => rfl

/-- The messages of a mistake stay the same. -/
@[simp] lemma Cause.messages_shift (k : Nat) (cause : Cause) :
    (cause.shift k).messages = cause.messages := by
  cases cause with
  | unbalanced imbalance => cases imbalance <;> rfl
  | _ => rfl

/-- A moved fault is the same error at another position. -/
theorem Fault.toError_shift (k : Nat) (fault : Fault) :
    (fault.shift k).toError =
      { fault.toError with position := fault.toError.position.map (· + k) } := by
  obtain ⟨cause, _ | span⟩ := fault <;> simp [shift, toError, Span.shift]

/-! ## Readers -/

/-- What a reader of a slice yields behind `k` further characters, if `f` moves its results. -/
def shiftReading {α : Type} (k : Nat) (f : α → α) : Except Fault α → Except Fault α
  | .ok x => .ok (f x)
  | .error fault => .error (fault.shift k)

section ShiftReading

variable {α : Type} (k : Nat) (f : α → α)

/-- A reader that yields a result yields the moved result. -/
@[simp] lemma shiftReading_ok (x : α) : shiftReading k f (.ok x) = .ok (f x) := rfl

/-- A fault of a reader moves along. -/
@[simp] lemma shiftReading_error (fault : Fault) :
    shiftReading k f (.error fault) = .error (fault.shift k) := rfl

end ShiftReading

variable (k : Nat)

/-- The digits of a code point are read alike behind further characters. -/
lemma readCodePoint_shift (start count : Nat) (s : Slice) :
    readCodePoint (start + k) count (s.shift k) =
      shiftReading k (Prod.map id (Slice.shift k)) (readCodePoint start count s) := by
  simp only [readCodePoint, Slice.length_shift, Slice.text_shift, Slice.stop_shift,
    Slice.start_shift, Slice.drop_shift]
  split
  · rw [Nat.add_sub_add_right]
    rfl
  · split
    · rfl
    · rw [Nat.add_right_comm, Nat.add_sub_add_right]
      rfl

/-- An escape is read alike behind further characters. -/
lemma readEscape_shift (start : Nat) (s : Slice) :
    readEscape (start + k) (s.shift k) =
      shiftReading k (Option.map (Prod.map id (Slice.shift k))) (readEscape start s) := by
  unfold readEscape
  simp only [Slice.text_shift, Slice.drop_shift, readCodePoint_shift]
  split
  case h_4 | h_5 => cases readCodePoint start _ (s.drop 1) <;> rfl
  all_goals rfl

/-! ## Bracket expressions -/

/-- What comes behind an item, behind `k` further characters. -/
def BracketStep.shift (k : Nat) : BracketStep → BracketStep
  | closed rest => closed (rest.shift k)
  | more d rest => more d (rest.shift k)

namespace Draft

/-- The name of a set is read alike behind further characters. -/
lemma stepName_shift (position : Nat) (rest : Slice) (d : Draft) :
    d.stepName (position + k) (rest.shift k) =
      shiftReading k (BracketStep.shift k) (d.stepName position rest) := by
  unfold stepName
  simp only [Slice.text_shift]
  split
  · rfl
  · split
    · simp only [Slice.drop_shift]
      rfl
    · rfl

/-- The upper end of a range is read alike behind further characters. -/
lemma closeRange_shift (position : Nat) (low high : Char) (rest : Slice) (d : Draft) :
    d.closeRange (position + k) low high (rest.shift k) =
      shiftReading k (BracketStep.shift k) (d.closeRange position low high rest) := by
  unfold closeRange
  split
  · rfl
  · rw [Slice.start_shift, Nat.add_sub_add_right]
    rfl

/-- What follows a hyphen is read alike behind further characters. -/
lemma stepRangeEnd_shift (position : Nat) (low c : Char) (rest : Slice) (d : Draft) :
    d.stepRangeEnd (position + k) low c (rest.shift k) =
      shiftReading k (BracketStep.shift k) (d.stepRangeEnd position low c rest) := by
  unfold stepRangeEnd
  rw [Nat.add_right_comm position k 1, readEscape_shift]
  split
  · rfl
  split
  · rfl
  split
  · cases readEscape (position + 1) rest with
    | error fault => rfl
    | ok read =>
      cases read with
      | none => rfl
      | some read =>
        obtain ⟨e, rest'⟩ := read
        cases e with
        | digits | wordCharacters => rfl
        | character high => exact closeRange_shift k position low high rest' d
  · exact closeRange_shift k position low c rest d

/-- A hyphen is read alike behind further characters. -/
lemma stepRange_shift (position : Nat) (rest : Slice) (d : Draft) :
    d.stepRange (position + k) (rest.shift k) =
      shiftReading k (BracketStep.shift k) (d.stepRange position rest) := by
  unfold stepRange
  simp only [Slice.text_shift, Slice.drop_shift]
  split
  · split
    · rfl
    · exact stepRangeEnd_shift k position _ _ _ d
  · rfl

/-- An item of a bracket expression is read alike behind further characters. -/
lemma step_shift (position : Nat) (c : Char) (rest : Slice) (d : Draft) :
    d.step (position + k) c (rest.shift k) =
      shiftReading k (BracketStep.shift k) (d.step position c rest) := by
  unfold step
  rw [readEscape_shift]
  split
  · rfl
  split
  · rfl
  split
  · rfl
  split
  · rfl
  split
  · cases readEscape position rest with
    | error fault => rfl
    | ok read => cases read <;> rfl
  split
  · exact stepName_shift k position rest d
  split
  · exact stepRange_shift k position rest d
  · rfl

end Draft

/-- A bracket expression is read alike behind further characters. -/
lemma readBracket_shift (opening : Nat) (d : Draft) (s : Slice) :
    readBracket (opening + k) d (s.shift k) =
      shiftReading k (Prod.map id (Slice.shift k)) (readBracket opening d s) := by
  fun_induction readBracket opening d s with
  | case1 d s htext =>
    rw [readBracket_nil (s := s.shift k) htext, Slice.stop_shift, Nat.add_sub_add_right]
    rfl
  | case2 d s c tail htext fault hstep =>
    rw [readBracket_cons (s := s.shift k) htext, Slice.drop_shift, Slice.start_shift,
      Draft.step_shift, hstep]
    rfl
  | case3 d s c tail htext rest hstep =>
    rw [readBracket_cons (s := s.shift k) htext, Slice.drop_shift, Slice.start_shift,
      Draft.step_shift, hstep]
    rfl
  | case4 d s c tail htext d' rest hstep ih =>
    rw [readBracket_cons (s := s.shift k) htext, Slice.drop_shift, Slice.start_shift,
      Draft.step_shift, hstep]
    exact ih

/-! ## Tokens -/

namespace Token

/-- The token behind `k` further characters. -/
def shift (k : Nat) : Token → Token
  | group body => group (body.shift k)
  | call f arguments => call f (arguments.shift k)
  | t => t

/-- A token opens as many groups as before. -/
@[simp] lemma groups_shift (t : Token) : (t.shift k).groups = t.groups := by
  cases t <;> rfl

/-- What a reader of tokens yields behind `k` further characters. -/
abbrev shiftRead (k : Nat) : Reading → Reading :=
  shiftReading k (Prod.map (shift k) (Slice.shift k))

/-- An escaped token is read alike behind further characters. -/
lemma readEscaped_shift (s : Slice) :
    readEscaped (s.shift k) = shiftRead k (readEscaped s) := by
  simp only [readEscaped, Slice.text_shift, Slice.start_shift, Slice.drop_shift, readEscape_shift]
  split
  · cases readEscape s.start (s.drop 1) with
    | error fault => rfl
    | ok read =>
      cases read with
      | none => rfl
      | some read =>
        obtain ⟨e, rest⟩ := read
        cases e <;> rfl
  · rfl

/-- A set is read alike behind further characters. -/
lemma readSet_shift (s : Slice) : readSet (s.shift k) = shiftRead k (readSet s) := by
  simp only [readSet, Slice.start_shift, Slice.drop_shift, readBracket_shift]
  cases readBracket s.start .start (s.drop 1) <;> rfl

/-- A repeat count is read alike behind further characters. -/
lemma readRepetition_shift (s : Slice) :
    readRepetition (s.shift k) = shiftRead k (readRepetition s) := by
  simp only [readRepetition, Slice.text_shift, Slice.start_shift, Slice.length_shift,
    Slice.drop_shift]
  split
  · rfl
  · split
    · rfl
    · rename_i cause hcount
      have hcause := Cause.shift_of_kind (k := k) (RepeatCount.kind_of_ofText hcount)
      simp only [shiftReading_error, Fault.shift_located, hcause]

/-- A group is read alike behind further characters. -/
lemma readGroup_shift (s : Slice) : readGroup (s.shift k) = shiftRead k (readGroup s) := by
  simp only [readGroup, Slice.text_shift, Slice.start_shift, Slice.length_shift, Slice.drop_shift]
  split
  · rfl
  · rw [Nat.add_right_comm]
    rfl

/-- The arguments of a call are read alike behind further characters. -/
lemma readArguments_shift (name : List Char) (s : Slice) :
    readArguments name (s.shift k) = shiftRead k (readArguments name s) := by
  simp only [readArguments, Slice.text_shift, Slice.start_shift, Slice.length_shift,
    Slice.drop_shift]
  split
  · rfl
  · split
    · rfl
    · rw [Nat.add_right_comm s.start k, Nat.add_right_comm (s.start + name.length) k]
      rfl

/-- A call is read alike behind further characters. -/
lemma readCall_shift (s : Slice) : readCall (s.shift k) = shiftRead k (readCall s) := by
  simp only [readCall, Slice.text_shift, Slice.start_shift, readArguments_shift]
  split
  · rfl
  · split
    · rfl
    · split <;> rfl

/-- A token with a given first character is read alike behind further characters. -/
lemma readFrom_shift (c : Char) (s : Slice) :
    readFrom c (s.shift k) = shiftRead k (readFrom c s) := by
  unfold readFrom
  split
  · exact readEscaped_shift k s
  · exact readSet_shift k s
  · exact readGroup_shift k s
  · exact readRepetition_shift k s
  · exact readCall_shift k s
  · rfl
  · rfl
  · rw [Slice.drop_shift]
    rfl

/-- The first token of a moved slice. -/
theorem next_shift (s : Slice) :
    next (s.shift k) =
      shiftReading k (Option.map (Prod.map (shift k) (Slice.shift k))) (next s) := by
  unfold next
  simp only [Slice.text_shift, readFrom_shift]
  split
  · rfl
  · cases readFrom _ s <;> rfl

end Token

/-! ## Repeat counts -/

/-- Repeat counts and what follows them, behind `k` further characters. -/
def Counts.shift (k : Nat) (c : Counts) : Counts :=
  ⟨c.counts, c.rest.shift k, c.fault.map (Fault.shift k)⟩

/-- The repeat counts of a construct are read alike behind further characters. -/
lemma readCounts_shift (product : Nat) (s : Slice) :
    readCounts product (s.shift k) = (readCounts product s).shift k := by
  fun_induction readCounts product s with
  | case1 product s count rest h hlarge =>
    rw [readCounts, Token.next_shift, h]
    simp only [shiftReading_ok, Option.map_some, Prod.map, Token.shift, if_pos hlarge]
    simp [Counts.shift, Cause.shift, Nat.add_sub_add_right]
  | case2 product s count rest h hle later ih =>
    rw [readCounts, Token.next_shift, h]
    simp only [shiftReading_ok, Option.map_some, Prod.map, Token.shift, if_neg hle, ih]
    rfl
  | case3 product s h =>
    rw [readCounts, Token.next_shift]
    split
    · rename_i count rest hnext
      cases hread : Token.next s with
      | error fault =>
        rw [hread] at hnext
        cases hnext
      | ok read =>
        obtain _ | ⟨t, rest'⟩ := read
        · rw [hread] at hnext
          cases hnext
        · cases t with
          | repetition count' => exact (h count' rest' hread).elim
          | _ =>
            rw [hread] at hnext
            cases hnext
    · rfl

/-! ## Cutting at separators -/

/-- The nesting behind `k` further characters. -/
def Nesting.shift (k : Nat) (n : Nesting) : Nesting :=
  ⟨n.zone, n.opens.map fun (position, opener) => (position + k, opener)⟩

/-- The parts that a cut yields behind `k` further characters. -/
def shiftCut {α : Type} (k : Nat) (f : α → α) : Except Imbalance α → Except Imbalance α
  | .ok x => .ok (f x)
  | .error imbalance => .error (imbalance.shift k)

/-- A character does the same to openers that stand further on. -/
lemma Nesting.step_shift (n : Nesting) (position : Nat) (c : Char) :
    (n.shift k).step (position + k) c = shiftCut k (Nesting.shift k) (n.step position c) := by
  obtain ⟨zone, opens⟩ := n
  cases zone with
  | escaped | bracketEscaped => rfl
  | bracket =>
    simp only [step, shift]
    split
    · simp [shiftCut, shift]
    · rfl
  | plain =>
    simp only [step, shift]
    split
    · rfl
    split
    · cases opens with
      | nil => rfl
      | cons top outer =>
        obtain ⟨start, opener⟩ := top
        simp only [List.map_cons]
        split <;> rfl
    · rfl

/-- Where a text is cut does not depend on the positions of the openers. -/
lemma Nesting.cutsAt_shift (n : Nesting) (separator c : Char) :
    (n.shift k).cutsAt separator c = n.cutsAt separator c := by
  simp only [cutsAt, shift, List.isEmpty_map]

/-- A text is cut into the same parts behind further characters. -/
lemma splitFrom_shift (separator : Char) (n : Nesting) (position : Nat) (text : List Char) :
    splitFrom separator (n.shift k) (position + k) text =
      shiftCut k (Prod.map id (List.map (Slice.shift k)))
        (splitFrom separator n position text) := by
  induction text generalizing n position with
  | nil =>
    obtain ⟨zone, opens⟩ := n
    cases opens <;> rfl
  | cons c rest ih =>
    rw [splitFrom, splitFrom, Nesting.cutsAt_shift, Nesting.step_shift, Nat.add_right_comm]
    split
    · rw [ih]
      cases splitFrom separator n (position + 1) rest <;> rfl
    · cases n.step position c with
      | error imbalance => rfl
      | ok n' =>
        simp only [shiftCut]
        rw [ih]
        cases splitFrom separator n' (position + 1) rest <;> rfl

/-- The parts of a moved slice. -/
theorem splitParts_shift (separator : Char) (s : Slice) :
    splitParts separator (s.shift k) =
      shiftReading k (List.map (Slice.shift k)) (splitParts separator s) := by
  have hsplit := splitFrom_shift k separator .outermost s.start s.text
  have hstart : Nesting.outermost.shift k = .outermost := rfl
  rw [hstart] at hsplit
  simp only [splitParts, Slice.split, Slice.start_shift, Slice.text_shift, hsplit]
  cases splitFrom separator .outermost s.start s.text with
  | ok parts => rfl
  | error imbalance =>
    simp only [shiftCut, shiftReading_error, Fault.shift_located, Imbalance.position_shift]
    rfl

/-! ## Trees -/

mutual

/-- The tree behind `k` further characters. -/
def Pattern.shift (k : Nat) : Pattern → Pattern
  | .done => .done
  | .stop fault => .stop (fault.shift k)
  | .seq head counts rest => .seq (head.shift k) counts (rest.shift k)

/-- The construct behind `k` further characters. -/
def Construct.shift (k : Nat) : Construct → Construct
  | .character c => .character c
  | .oneOf set => .oneOf set
  | .reference span digits => .reference (span.shift k) digits
  | .group number body => .group number (body.shift k)
  | .alternation number branches => .alternation number (branches.shift k)
  | .encode t argument => .encode t (argument.shift k)
  | .expand argument separator => .expand (argument.shift k) (separator.shift k)
  | .byte case => .byte case
  | .words count => .words (count.shift k)
  | .date first last separator => .date (first.shift k) (last.shift k) (separator.shift k)
  | .shuffle argument => .shuffle (argument.shift k)
  | .optional argument => .optional (argument.shift k)
  | .justify alignment argument width fill =>
    .justify alignment (argument.shift k) (width.shift k) (fill.shift k)

/-- The argument behind `k` further characters. -/
def Argument.shift (k : Nat) : Argument → Argument
  | .mk span body => .mk (span.shift k) (body.shift k)

/-- The branches behind `k` further characters. -/
def Branches.shift (k : Nat) : Branches → Branches
  | .one before count body => .one before count (body.shift k)
  | .more before count body rest => .more before count (body.shift k) (rest.shift k)

end

/-- The span of an argument moves along. -/
@[simp] lemma Argument.span_shift (a : Argument) : (a.shift k).span = a.span.shift k := by
  cases a
  rfl

/-- The default of an argument moves along. -/
@[simp] lemma Argument.shift_ofChar (span : Span) (c : Char) :
    (Argument.ofChar span c).shift k = .ofChar (span.shift k) c := rfl

/-- There are as many branches as before. -/
@[simp] lemma Branches.length_shift (branches : Branches) :
    (branches.shift k).length = branches.length := by
  cases branches with
  | one => rfl
  | more before count body rest => rw [Branches.shift, length, length, length_shift rest]

/-! ## Reading trees -/

/-- The tree of a part moves along with the part. -/
def PartShifts (k : Nat) (part : Slice) : Prop :=
  ∀ opened, Pattern.ofSlice opened (part.shift k) = (Pattern.ofSlice opened part).shift k

section Parts

variable {k}

/-- Branches move along if the trees of their parts do. -/
lemma Branches.ofSlices_shift (first : Slice) (others : List Slice)
    (h : ∀ part ∈ first :: others, PartShifts k part) (opened : Nat) :
    Branches.ofSlices opened (first.shift k) (others.map (Slice.shift k)) =
      (Branches.ofSlices opened first others).shift k := by
  induction others generalizing first opened with
  | nil =>
    have hfirst := h first (by simp) opened
    rw [List.map_nil, Branches.ofSlices, Branches.ofSlices, Branches.shift, hfirst]
    rfl
  | cons second rest ih =>
    have hfirst := h first (by simp) opened
    have hothers := ih second (fun part hpart => h part (List.mem_cons_of_mem _ hpart))
      (opened + countGroups first.text)
    rw [List.map_cons, Branches.ofSlices, Branches.ofSlices, Branches.shift, hfirst, ← hothers]
    rfl

/-- The construct of a token moves along with the token. -/
lemma Construct.ofToken_shift (opened : Nat) (span : Span) (t : Token)
    (h : ∀ part : Slice, part.length ≤ t.room → PartShifts k part) :
    Construct.ofToken opened (span.shift k) (t.shift k) =
      shiftReading k (Construct.shift k) (Construct.ofToken opened span t) := by
  have hpart : ∀ {separator : Char} {inner : Slice} {parts : List Slice},
      inner.length ≤ t.room → splitParts separator inner = .ok parts →
        ∀ part ∈ parts, PartShifts k part := fun hinner hparts part hmem =>
    h part (Nat.le_trans (isPart_of_mem_splitParts hparts hmem).length_le hinner)
  cases t with
  | character | oneOf | reference | repetition =>
    simp only [Token.shift, Construct.ofToken]
    rfl
  | group body =>
    have hsplit := splitParts_shift k '|' body
    have hbody := h body (Nat.le_refl _)
    simp only [Token.shift, Construct.ofToken]
    generalize hparts : splitParts '|' body = parts at hsplit ⊢
    generalize splitParts '|' (body.shift k) = moved at hsplit ⊢
    rcases parts with fault | (_ | ⟨first, _ | ⟨second, rest⟩⟩)
    case error | ok.nil =>
      subst hsplit
      rfl
    case ok.cons.nil =>
      obtain rfl : moved = .ok [first.shift k] := hsplit
      simp only [shiftReading_ok, Construct.shift, hbody (opened + 1)]
    case ok.cons.cons =>
      obtain rfl : moved = .ok (first.shift k :: second.shift k :: rest.map (Slice.shift k)) :=
        hsplit
      have hbranches := Branches.ofSlices_shift first (second :: rest)
        (hpart (Nat.le_refl _) hparts) (opened + 1)
      simp only [shiftReading_ok, List.map_cons, Construct.shift] at hbranches ⊢
      rw [hbranches]
  | call f arguments =>
    have hall := h arguments (Nat.le_refl _)
    cases f with
    | encode | shuffle | optional =>
      simp only [Token.shift, Construct.ofToken, hall opened]
      rfl
    | byte | words =>
      simp only [Token.shift, Construct.ofToken, hall opened]
      rw [apply_ite (shiftReading k (shift k))]
      rfl
    | expand =>
      have hsplit := splitParts_shift k ',' arguments
      simp only [Token.shift, Construct.ofToken]
      generalize hparts : splitParts ',' arguments = parts at hsplit ⊢
      generalize splitParts ',' (arguments.shift k) = moved at hsplit ⊢
      rcases parts with fault | (_ | ⟨first, _ | ⟨second, _ | ⟨third, rest⟩⟩⟩)
      case error | ok.nil | ok.cons.nil | ok.cons.cons.cons =>
        subst hsplit
        rfl
      case ok.cons.cons.nil =>
        obtain rfl : moved = .ok [first.shift k, second.shift k] := hsplit
        have hmem := hpart (Nat.le_refl _) hparts
        simp only [shiftReading_ok, Construct.shift, Argument.shift, Slice.span_shift,
          Slice.text_shift, hmem first (by simp) _, hmem second (by simp) _]
    | date | justify =>
      have hsplit := splitParts_shift k ',' arguments
      simp only [Token.shift, Construct.ofToken]
      generalize hparts : splitParts ',' arguments = parts at hsplit ⊢
      generalize splitParts ',' (arguments.shift k) = moved at hsplit ⊢
      rcases parts with fault | (_ | ⟨first, _ | ⟨second, _ | ⟨third, _ | ⟨fourth, rest⟩⟩⟩⟩)
      case error | ok.nil | ok.cons.nil | ok.cons.cons.cons.cons =>
        subst hsplit
        rfl
      case ok.cons.cons.nil =>
        obtain rfl : moved = .ok [first.shift k, second.shift k] := hsplit
        have hmem := hpart (Nat.le_refl _) hparts
        simp only [shiftReading_ok, Construct.shift, Argument.shift, Slice.span_shift,
          Slice.text_shift, Argument.shift_ofChar, hmem first (by simp) _, hmem second (by simp) _]
      case ok.cons.cons.cons.nil =>
        obtain rfl : moved = .ok [first.shift k, second.shift k, third.shift k] := hsplit
        have hmem := hpart (Nat.le_refl _) hparts
        simp only [shiftReading_ok, Construct.shift, Argument.shift, Slice.span_shift,
          Slice.text_shift, hmem first (by simp) _, hmem second (by simp) _,
          hmem third (by simp) _]

end Parts

/-- The tree of a moved slice.

**Proof sketch.** By strong induction on the length of the slice: what stands behind a token and
the parts inside it are shorter. -/
theorem Pattern.ofSlice_shift (opened : Nat) (s : Slice) :
    Pattern.ofSlice opened (s.shift k) = (Pattern.ofSlice opened s).shift k := by
  induction hn : s.length using Nat.strong_induction_on generalizing opened s with
  | _ n ih =>
    have hnext := Token.next_shift k s
    rw [Pattern.ofSlice, Pattern.ofSlice]
    generalize Token.next (s.shift k) = moved at hnext ⊢
    subst hnext
    generalize hread : Token.next s = read
    rcases read with fault | (_ | ⟨t, rest⟩)
    case error | ok.none => rfl
    case ok.some =>
      obtain ⟨hroom, hrest⟩ := Token.room_next hread
      have hparts : ∀ part : Slice, part.length ≤ t.room → PartShifts k part :=
        fun part hpart opened => ih part.length (by omega) opened part rfl
      have hconstruct := Construct.ofToken_shift opened
        ⟨s.start, rest.start - s.start⟩ t hparts
      have hspan : (⟨(s.shift k).start, (rest.shift k).start - (s.shift k).start⟩ : Span) =
          Span.shift k ⟨s.start, rest.start - s.start⟩ := by
        simp [Span.shift, Nat.add_sub_add_right]
      simp only [shiftReading_ok, Option.map_some, Prod.map, hspan, hconstruct]
      cases Construct.ofToken opened ⟨s.start, rest.start - s.start⟩ t with
      | error fault => rfl
      | ok head =>
        have hle := length_readCounts_le 1 rest
        have hbehind := ih (readCounts 1 rest).rest.length (by omega) (opened + t.groups)
          (readCounts 1 rest).rest rfl
        simp only [shiftReading_ok, readCounts_shift, Counts.shift, Token.groups_shift, hbehind]
        cases (readCounts 1 rest).fault <;> rfl

end PatternSampler
