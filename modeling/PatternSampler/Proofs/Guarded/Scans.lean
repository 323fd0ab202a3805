import PatternSampler.Proofs.Guarded.Basic
import PatternSampler.Proofs.Reading.Enclosed

set_option autoImplicit false

/-!
# Scans by index

The scan that closes a parenthesis and the one that cuts at separators go through a text by index.
At a backslash they take two characters at once, the depth is counted down at each closing
parenthesis, and parts are cut out of the text between two indices.

## Main definitions

* `Scan.closing` — the index of a closing parenthesis.
* `Scan.cutting` — the parts of a text between separators.

## Main results

* `Scan.closing_eq` — the index is found where `closeParenthesis` ends its body.
* `Scan.split_eq` — the parts are those of `Slice.split`.
-/

namespace PatternSampler

namespace Scan

/-! ## Closing a parenthesis -/

section Closing

variable {ε : Type}

/-- The index of the parenthesis that closes the first of `depth` open ones, in the rest of a text
from the index `i` on. -/
def closing : (depth : Nat) → (inBracket : Bool) → (i : Nat) → List Char → Scan ε (Option Nat)
  | _, _, _, [] => .ok none
  | depth, inBracket, i, c :: rest =>
    if c = '\\' then
      match rest with
      | [] => .ok none
      | _ :: rest => closing depth inBracket (i + 2) rest
    else if inBracket then closing depth (c ≠ ']') (i + 1) rest
    else if c = '[' then closing depth true (i + 1) rest
    else if c = '(' then closing (depth + 1) false (i + 1) rest
    else if c = ')' then do
      let depth ← difference depth 1
      if depth = 0 then return some i else closing depth false (i + 1) rest
    else closing depth false (i + 1) rest

/-- The zone of a position in front of which no backslash stands. -/
def zoneOf (inBracket : Bool) : Zone := if inBracket then .bracket else .plain

/-- The index of the parenthesis that ends the body. -/
def closeIndex (zone : Zone) (depth i : Nat) (text : List Char) : Option Nat :=
  (closeParenthesis zone depth text).map fun (body, _) => i + body.length

/-- Any other character changes the zone and the number of open parentheses. -/
lemma closeIndex_cons {zone : Zone} {c : Char} (h : ¬(zone = .plain ∧ c = ')')) (depth i : Nat)
    (rest : List Char) :
    closeIndex zone depth i (c :: rest) =
      closeIndex (zone.next c) (if zone = .plain ∧ c = '(' then depth + 1 else depth) (i + 1)
        rest := by
  simp only [closeIndex, closeParenthesis, if_neg h, Option.map_map]
  congr 1
  funext read
  simp only [Function.comp, List.length_cons]
  omega

/-- A parenthesis closes the innermost one, as long as another one is open. -/
lemma closeIndex_parenthesis_succ (depth i : Nat) (rest : List Char) :
    closeIndex .plain (depth + 1) i (')' :: rest) = closeIndex .plain depth (i + 1) rest := by
  rw [closeIndex, closeParenthesis, if_pos ⟨rfl, rfl⟩, closeIndex, Option.map_map]
  congr 1
  funext read
  simp only [Function.comp, List.length_cons]
  omega

/-- The index is found where `closeParenthesis` ends its body.

**Proof sketch.** By induction along the scan. Two steps of `closeParenthesis` make up the one step
of the scan at a backslash. -/
theorem closing_eq (depth : Nat) (inBracket : Bool) (i : Nat) (text : List Char) :
    (closing (depth + 1) inBracket i text : Scan ε (Option Nat)) =
      .ok (closeIndex (zoneOf inBracket) depth i text) := by
  generalize hd : depth + 1 = d
  fun_induction closing (ε := ε) d inBracket i text generalizing depth with
  | case1 => rfl
  | case2 d inBracket i =>
    rw [closeIndex_cons (by simp)]
    rfl
  | case3 d inBracket i c rest ih =>
    have hescape : ((zoneOf inBracket).next '\\').next c = zoneOf inBracket ∧
        (zoneOf inBracket).next '\\' ≠ .plain := by
      cases inBracket <;> simp [zoneOf, Zone.next]
    rw [ih depth hd, closeIndex_cons (by simp), closeIndex_cons (by simp [hescape.2]), hescape.1]
    simp [hescape.2]
  | case4 d i c rest hc ih =>
    have hnext : (zoneOf true).next c = zoneOf (decide (c ≠ ']')) := by
      by_cases hclose : c = ']' <;> simp [zoneOf, Zone.next, hc, hclose]
    rw [ih depth hd, closeIndex_cons (by simp [zoneOf]), hnext]
    simp [zoneOf]
  | case5 d inBracket i rest hbracket hc ih =>
    obtain rfl : inBracket = false := by simpa using hbracket
    rw [ih depth hd, closeIndex_cons (by simp)]
    rfl
  | case6 d inBracket i rest hbracket =>
    obtain rfl : inBracket = false := by simpa using hbracket
    rename_i ih
    rw [ih (depth + 1) (by omega), closeIndex_cons (by simp)]
    rfl
  | case7 d inBracket i rest hbracket =>
    obtain rfl : inBracket = false := by simpa using hbracket
    rename_i ih
    subst hd
    rw [difference_of_le (by omega)]
    cases depth with
    | zero => rfl
    | succ depth =>
      show closing (depth + 1) false (i + 1) rest = _
      rw [ih (depth + 1) depth rfl, zoneOf]
      exact congrArg Except.ok (closeIndex_parenthesis_succ depth i rest).symm
  | case8 d inBracket i c rest hc hbracket hopenBracket hopen hclose ih =>
    obtain rfl : inBracket = false := by simpa using hbracket
    have hnext : (zoneOf false).next c = zoneOf false := by
      simp [zoneOf, Zone.next, hc, hopenBracket]
    rw [ih depth hd, closeIndex_cons (by simp [hclose]), hnext]
    simp [hopen]

end Closing

/-! ## Cutting at separators -/

section Cutting

variable (text : List Char) (separator : Char)

/-- Whether the innermost opener is a bracket. -/
def inBracket : List (Nat × Char) → Bool
  | [] => false
  | (_, opener) :: _ => opener == '['

/-- The last part of a text, which must not have an opener left. -/
def lastPart (start : Nat) (stack : List (Nat × Char)) : Scan Imbalance (List Slice) :=
  match stack with
  | [] => do return [← slice text start text.length]
  | (position, opener) :: _ => fail (.unterminated position opener)

/-- The parts of a text from the index `start` on, if its rest from the index `i` on is still to be
read. The openers on the stack are open there. -/
def cutting :
    (start i : Nat) → (stack : List (Nat × Char)) → List Char → Scan Imbalance (List Slice)
  | start, _, stack, [] => lastPart text start stack
  | start, i, stack, c :: rest =>
    if c = '\\' then
      match rest with
      | [] => lastPart text start stack
      | _ :: rest => cutting start (i + 2) stack rest
    else if inBracket stack then
      cutting start (i + 1) (if c = ']' then stack.tail else stack) rest
    else if Nesting.isOpener c then cutting start (i + 1) ((i, c) :: stack) rest
    else if Nesting.isCloser c then
      match stack with
      | [] => fail (.unexpected i c)
      | (_, opener) :: outer =>
        if Nesting.closerOf opener = c then cutting start (i + 1) outer rest
        else fail (.unexpected i c)
    else if c = separator ∧ stack.isEmpty then do
      let part ← slice text start i
      let parts ← cutting (i + 1) (i + 1) stack rest
      return part :: parts
    else cutting start (i + 1) stack rest

/-- The parts of a text between separators. -/
def split : Scan Imbalance (List Slice) := cutting text separator 0 0 [] text

variable {text separator}

/-- The nesting of a position in front of which no backslash stands. -/
def nestingOf (stack : List (Nat × Char)) : Nesting := ⟨zoneOf (inBracket stack), stack⟩

/-- Only the innermost opener can be a bracket. -/
def WellStacked (stack : List (Nat × Char)) : Prop := ∀ opener ∈ stack.tail, opener.2 ≠ '['

/-- Around the innermost opener there is no bracket. -/
lemma WellStacked.inBracket_tail {stack : List (Nat × Char)} (h : WellStacked stack) :
    inBracket stack.tail = false := by
  cases htail : stack.tail with
  | nil => rfl
  | cons opener outer =>
    have hne := h opener (by simp [htail])
    simpa [inBracket] using hne

/-- Outside a bracket there is none on the stack. -/
lemma WellStacked.forall_mem {stack : List (Nat × Char)} (h : WellStacked stack)
    (hbracket : inBracket stack = false) : ∀ opener ∈ stack, opener.2 ≠ '[' := by
  cases stack with
  | nil => simp
  | cons top outer =>
    rw [List.forall_mem_cons]
    exact ⟨by simpa [inBracket] using hbracket, h⟩

/-- What the scan by index makes of the parts that the other one finds in the rest of a text. -/
def partsFrom (start : Nat) (front : List Char) :
    Except Imbalance (List Char × List Slice) → Scan Imbalance (List Slice)
  | .ok (part, later) => .ok (⟨start, front ++ part⟩ :: later)
  | .error imbalance => fail imbalance

/-- A character that is no separator belongs to the part. -/
lemma splitFrom_cons {n n' : Nesting} {c : Char} {position : Nat} {rest : List Char}
    (hcut : n.cutsAt separator c = false) (hstep : n.step position c = .ok n') (start : Nat)
    (front : List Char) :
    partsFrom start front (splitFrom separator n position (c :: rest)) =
      partsFrom start (front ++ [c]) (splitFrom separator n' (position + 1) rest) := by
  rw [splitFrom, hcut, if_neg Bool.false_ne_true, hstep]
  simp only
  cases splitFrom separator n' (position + 1) rest with
  | ok parts => simp [partsFrom]
  | error imbalance => rfl

/-- The last part ends at the end of the text. -/
lemma lastPart_eq {zone : Zone} {start i : Nat} {stack : List (Nat × Char)}
    {front part : List Char} (htext : text = front ++ part) (hstart : start = front.length) :
    lastPart text start stack = partsFrom start part (splitFrom separator ⟨zone, stack⟩ i []) := by
  cases stack with
  | nil =>
    have hslice : (slice text start text.length : Scan Imbalance Slice) = .ok ⟨start, part⟩ := by
      rw [htext, ← List.append_nil (front ++ part)]
      exact slice_append front part [] hstart (by simp)
    rw [lastPart, hslice]
    simp [splitFrom, partsFrom]
  | cons opener outer => rfl

/-- Inside a bracket only the bracket counts. -/
lemma nestingOf_of_inBracket {stack : List (Nat × Char)} (h : inBracket stack = true) :
    nestingOf stack = ⟨.bracket, stack⟩ := by
  rw [nestingOf, h]
  rfl

/-- Outside a bracket all openers count. -/
lemma nestingOf_of_not_inBracket {stack : List (Nat × Char)} (h : inBracket stack = false) :
    nestingOf stack = ⟨.plain, stack⟩ := by
  rw [nestingOf, h]
  rfl

/-- A backslash opens an escape. -/
lemma step_backslash (stack : List (Nat × Char)) (i : Nat) :
    (nestingOf stack).step i '\\' = .ok ⟨(nestingOf stack).zone.next '\\', stack⟩ := by
  cases h : inBracket stack with
  | true =>
    rw [nestingOf_of_inBracket h]
    rfl
  | false =>
    rw [nestingOf_of_not_inBracket h]
    rfl

/-- The character behind a backslash leads back to the nesting in front of it. -/
lemma step_escaped (stack : List (Nat × Char)) (i : Nat) (c : Char) :
    (⟨(nestingOf stack).zone.next '\\', stack⟩ : Nesting).step i c = .ok (nestingOf stack) := by
  cases h : inBracket stack with
  | true =>
    rw [nestingOf_of_inBracket h]
    rfl
  | false =>
    rw [nestingOf_of_not_inBracket h]
    rfl

/-- In a bracket only its end changes what is open. -/
lemma step_of_inBracket {stack : List (Nat × Char)} {c : Char} (hstack : WellStacked stack)
    (hbracket : inBracket stack = true) (hc : c ≠ '\\') (i : Nat) :
    (nestingOf stack).step i c = .ok (nestingOf (if c = ']' then stack.tail else stack)) := by
  rw [nestingOf_of_inBracket hbracket]
  by_cases hclose : c = ']'
  · simp [Nesting.step, Zone.next, hclose, nestingOf_of_not_inBracket hstack.inBracket_tail]
  · simp [Nesting.step, Zone.next, hclose, hc, nestingOf_of_inBracket hbracket]

/-- An opener outside brackets comes on the stack. -/
lemma step_of_isOpener {stack : List (Nat × Char)} {c : Char} (hbracket : inBracket stack = false)
    (hopener : Nesting.isOpener c = true) (i : Nat) :
    (nestingOf stack).step i c = .ok (nestingOf ((i, c) :: stack)) := by
  have hc : c ≠ '\\' := by
    rintro rfl
    cases hopener
  rw [nestingOf_of_not_inBracket hbracket]
  simp only [Nesting.step, hopener, if_true]
  by_cases hopen : c = '[' <;> simp [nestingOf, inBracket, zoneOf, Zone.next, hopen, hc]

/-- The closer of the innermost opener takes it off the stack. -/
lemma step_closerOf {outer : List (Nat × Char)} {position : Nat} {opener : Char}
    (hbracket : inBracket ((position, opener) :: outer) = false)
    (houter : inBracket outer = false)
    (hopener : Nesting.isOpener (Nesting.closerOf opener) = false)
    (hcloser : Nesting.isCloser (Nesting.closerOf opener) = true) (i : Nat) :
    (nestingOf ((position, opener) :: outer)).step i (Nesting.closerOf opener) =
      .ok (nestingOf outer) := by
  rw [nestingOf_of_not_inBracket hbracket, nestingOf_of_not_inBracket houter]
  simp [Nesting.step, hopener, hcloser]

/-- A closer that is not that of the innermost opener is a mistake. -/
lemma step_of_unmatched {stack : List (Nat × Char)} {c : Char} (hbracket : inBracket stack = false)
    (hopener : Nesting.isOpener c = false) (hcloser : Nesting.isCloser c = true)
    (htop : ∀ top ∈ stack.head?, Nesting.closerOf top.2 ≠ c) (i : Nat) :
    (nestingOf stack).step i c = .error (.unexpected i c) := by
  rw [nestingOf_of_not_inBracket hbracket]
  cases stack with
  | nil => simp [Nesting.step, hopener, hcloser]
  | cons top outer => simp [Nesting.step, hopener, hcloser, htop top rfl]

/-- Any other character outside brackets changes nothing. -/
lemma step_of_other {stack : List (Nat × Char)} {c : Char} (hbracket : inBracket stack = false)
    (hc : c ≠ '\\') (hopener : Nesting.isOpener c = false)
    (hcloser : Nesting.isCloser c = false) (i : Nat) :
    (nestingOf stack).step i c = .ok (nestingOf stack) := by
  have hopen : c ≠ '[' := by
    rintro rfl
    cases hopener
  rw [nestingOf_of_not_inBracket hbracket]
  simp [Nesting.step, hopener, hcloser, Zone.next, hc, hopen]

/-- A backslash and the character behind it belong to the part. -/
lemma splitFrom_escape (stack : List (Nat × Char)) (i start : Nat) (c : Char)
    (rest part : List Char) :
    partsFrom start part (splitFrom separator (nestingOf stack) i ('\\' :: c :: rest)) =
      partsFrom start (part ++ ['\\', c]) (splitFrom separator (nestingOf stack) (i + 2) rest) := by
  rw [splitFrom_cons (by simp [Nesting.cutsAt]) (step_backslash stack i),
    splitFrom_cons ?_ (step_escaped stack (i + 1) c), List.append_assoc]
  · rfl
  · cases h : inBracket stack <;> simp [nestingOf, h, zoneOf, Zone.next, Nesting.cutsAt]

/-- The scan by index finds the parts that the other one finds in the rest of the text.

**Proof sketch.** By induction along the scan. Two characters behind a backslash are two steps of
the other scan, and in front of each character but these two its zone follows from the innermost
opener. -/
theorem cutting_eq {start i : Nat} {stack : List (Nat × Char)} {rest front part : List Char}
    (hstack : WellStacked stack) (htext : text = front ++ part ++ rest)
    (hstart : start = front.length) (hi : i = front.length + part.length) :
    cutting text separator start i stack rest =
      partsFrom start part (splitFrom separator (nestingOf stack) i rest) := by
  fun_induction cutting text separator start i stack rest generalizing front part with
  | case1 start i stack => exact lastPart_eq (by simpa using htext) hstart
  | case2 start i stack =>
    have hescape : (nestingOf stack).step i '\\' =
        .ok ⟨(nestingOf stack).zone.next '\\', stack⟩ := step_backslash stack i
    rw [splitFrom_cons (by simp [Nesting.cutsAt]) hescape]
    exact lastPart_eq (by simpa using htext) hstart
  | case3 start i stack c rest ih =>
    rw [@ih front (part ++ ['\\', c]) hstack (by simp [htext]) hstart (by simp; omega),
      splitFrom_escape]
  | case4 start i stack c rest hc hbracket ih =>
    have hcut : (nestingOf stack).cutsAt separator c = false := by
      rw [nestingOf_of_inBracket hbracket]
      rfl
    have hbehind : WellStacked (if c = ']' then stack.tail else stack) := by
      split
      · exact fun opener hmem => hstack opener (List.mem_of_mem_tail hmem)
      · exact hstack
    rw [@ih front (part ++ [c]) hbehind (by simp [htext]) hstart (by simp; omega),
      splitFrom_cons hcut (step_of_inBracket hstack hbracket hc i)]
  | case5 start i stack c rest hc hbracket hopener ih =>
    rw [Bool.not_eq_true] at hbracket
    have hcut : (nestingOf stack).cutsAt separator c = false := by
      simp [Nesting.cutsAt, hopener]
    have hbehind : WellStacked ((i, c) :: stack) := hstack.forall_mem hbracket
    rw [@ih front (part ++ [c]) hbehind (by simp [htext]) hstart (by simp; omega),
      splitFrom_cons hcut (step_of_isOpener hbracket hopener i)]
  | case6 start i c rest hc hopener hcloser hbracket =>
    rw [Bool.not_eq_true] at hopener
    have hcut : (nestingOf []).cutsAt separator c = false := by simp [Nesting.cutsAt, hcloser]
    rw [splitFrom, hcut, if_neg Bool.false_ne_true,
      step_of_unmatched rfl hopener hcloser (by simp)]
    rfl
  | case7 start i rest position opener outer hbracket hc hopener hcloser ih =>
    rw [Bool.not_eq_true] at hbracket hopener
    have hall := hstack.forall_mem hbracket
    have houter : inBracket outer = false := hstack.inBracket_tail
    have hcut : (nestingOf ((position, opener) :: outer)).cutsAt separator
        (Nesting.closerOf opener) = false := by
      simp [Nesting.cutsAt, hcloser]
    have hbehind : WellStacked outer := fun x hx =>
      hall x (List.mem_cons_of_mem _ (List.mem_of_mem_tail hx))
    rw [@ih front (part ++ [Nesting.closerOf opener]) hbehind (by simp [htext]) hstart
      (by simp; omega), splitFrom_cons hcut (step_closerOf hbracket houter hopener hcloser i)]
  | case8 start i c rest hc hopener hcloser position opener outer hne hbracket =>
    rw [Bool.not_eq_true] at hbracket hopener
    have hcut : (nestingOf ((position, opener) :: outer)).cutsAt separator c = false := by
      simp [Nesting.cutsAt, hcloser]
    rw [splitFrom, hcut, if_neg Bool.false_ne_true,
      step_of_unmatched hbracket hopener hcloser (by simpa using hne)]
    rfl
  | case9 start i stack c rest hc hbracket hopener hcloser hseparator ih =>
    rw [Bool.not_eq_true] at hbracket hopener hcloser
    obtain ⟨rfl, hempty⟩ := hseparator
    have hcut : (nestingOf stack).cutsAt c c = true := by
      simp [nestingOf_of_not_inBracket hbracket, Nesting.cutsAt, hempty, hc, hopener, hcloser]
    have hslice : (slice text start i : Scan Imbalance Slice) = .ok ⟨start, part⟩ := by
      rw [htext]
      exact slice_append front part (c :: rest) hstart hi
    have hbehind := @ih (front ++ part ++ [c]) [] hstack (by simp [htext]) (by simp; omega)
      (by simp; omega)
    rw [hslice, hbehind, splitFrom, hcut, if_pos rfl]
    cases splitFrom c (nestingOf stack) (i + 1) rest with
    | ok parts => simp [partsFrom]; rfl
    | error imbalance => rfl
  | case10 start i stack c rest hc hbracket hopener hcloser hseparator ih =>
    rw [Bool.not_eq_true] at hbracket hopener hcloser
    have hcut : (nestingOf stack).cutsAt separator c = false := by
      by_contra hcut
      rw [Bool.not_eq_false] at hcut
      obtain ⟨hempty, hsame, -⟩ := Nesting.eq_of_cutsAt hcut
      have hstack : stack = [] := congrArg Nesting.opens hempty
      exact hseparator ⟨hsame, by rw [hstack]; rfl⟩
    rw [@ih front (part ++ [c]) hstack (by simp [htext]) hstart (by simp; omega),
      splitFrom_cons hcut (step_of_other hbracket hc hopener hcloser i)]

/-- The parts are those that are found without guards. -/
theorem split_eq (text : List Char) (separator : Char) :
    split text separator = ofExcept ((Slice.whole text).split separator) := by
  have hwhole : nestingOf [] = .outermost := rfl
  have hcutting := @cutting_eq text separator 0 0 [] text [] [] (by simp [WellStacked]) rfl rfl rfl
  rw [split, hcutting, hwhole, Slice.split, Slice.whole]
  cases splitFrom separator .outermost 0 text with
  | ok parts => rfl
  | error imbalance => rfl

end Cutting

end Scan

end PatternSampler
