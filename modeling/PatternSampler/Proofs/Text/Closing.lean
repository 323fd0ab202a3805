import PatternSampler.Proofs.Guarded.Reading
import PatternSampler.Proofs.Numbering.Scan
import PatternSampler.Proofs.Text.Split

set_option autoImplicit false

/-!
# Closing parentheses

The end of a group is where its parentheses balance for the first time, and its body is then cut at
separators and its groups are counted. All three scans pass over the same escapes and the same
bracket expressions. Braces matter to one of them only: they have to be nested properly where a text
is cut, and a text that can be cut closes where it ends.

## Main definitions

* `outsideBrackets` — the characters outside bracket expressions.
* `balancedAt`, `balancePoints` — the positions up to which the parentheses balance.
* `IsFirst` — the least element of a set, if it has one.
* `closing?` — the index of the parenthesis that closes another one.

## Main results

* `isFirst_closing` — the scan by index stops at the first position where the parentheses balance.
* `openers_take_closing` — nothing is open behind the body of a group without braces.
* `closing_agrees_with_split` — the three scans agree on the text of a group.
-/

namespace PatternSampler

open Nesting Scan

/-! ## Parentheses that count -/

/-- The characters outside bracket expressions, each of which goes from `[` to the next `]`. The
flag says whether such an expression is open in front of the first character. -/
def outsideBrackets : (inside : Bool) → List Mark → List Mark
  | _, [] => []
  | true, m :: rest => outsideBrackets (m.2 ≠ ']') rest
  | false, m :: rest =>
    if m.2 = '[' then outsideBrackets true rest else m :: outsideBrackets false rest

/-- How often a character stands among others up to a position. -/
def countUpTo (c : Char) (position : Nat) (marks : List Mark) : Nat :=
  marks.countP fun m => m.2 = c ∧ m.1 ≤ position

/-- The positions from `start` on up to which as many parentheses are closed as are opened, if
`depth` of them are open in front of `start`. -/
def balancedAt (depth start : Nat) (marks : List Mark) : Set Nat :=
  {position | start ≤ position ∧
    depth + countUpTo '(' position marks = countUpTo ')' position marks}

/-- The positions from `opening` on up to which the parentheses balance. Escaped ones and those in
bracket expressions do not count. -/
def balancePoints (input : List Char) (opening : Nat) : Set Nat :=
  balancedAt 0 opening (outsideBrackets false (unescaped opening (input.drop opening)))

/-- The least element of a set, if it has one. -/
def IsFirst (s : Set Nat) : Option Nat → Prop
  | some position => IsLeast s position
  | none => s = ∅

/-- A first element that exists is the least one. -/
lemma IsFirst.eq_some_iff {s : Set Nat} {found : Option Nat} (h : IsFirst s found) (close : Nat) :
    found = some close ↔ IsLeast s close := by
  cases found with
  | none =>
    refine iff_of_false nofun fun hleast => ?_
    have hempty : s = ∅ := h
    rw [hempty] at hleast
    exact hleast.1
  | some position =>
    rw [Option.some.injEq]
    exact ⟨fun heq => heq ▸ h, fun hleast => IsLeast.unique h hleast⟩

/-- There is no first element exactly if the set is empty. -/
lemma IsFirst.eq_none_iff {s : Set Nat} {found : Option Nat} (h : IsFirst s found) :
    found = none ↔ s = ∅ := by
  cases found with
  | none => exact iff_of_true rfl h
  | some position =>
    refine iff_of_false nofun fun hempty => ?_
    have hleast : IsLeast s position := h
    rw [hempty] at hleast
    exact hleast.1

section Positions

variable {marks rest : List Mark} {m : Mark} {c : Char} {depth start position : Nat}

/-- The characters outside bracket expressions are characters of the text. -/
lemma mem_of_mem_outsideBrackets {inside : Bool} (h : m ∈ outsideBrackets inside marks) :
    m ∈ marks := by
  fun_induction outsideBrackets inside marks with
  | case1 => exact h
  | case2 _ _ ih => exact List.mem_cons_of_mem _ (ih h)
  | case3 _ _ _ ih => exact List.mem_cons_of_mem _ (ih h)
  | case4 _ _ _ ih =>
    rcases List.mem_cons.1 h with rfl | h
    · exact List.mem_cons_self
    · exact List.mem_cons_of_mem _ (ih h)

/-- The positions of a text do not lie in front of its start. -/
lemma le_of_mem_unescaped {text : List Char} (h : m ∈ unescaped position text) :
    position ≤ m.1 := by
  fun_induction unescaped position text with
  | case1 | case2 => cases h
  | case3 position c rest ih => exact Nat.le_trans (Nat.le_add_right _ _) (ih h)
  | case4 position c rest hc ih =>
    rcases List.mem_cons.1 h with rfl | h
    · exact Nat.le_refl _
    · exact Nat.le_trans (Nat.le_succ _) (ih h)

/-- The characters of a text outside bracket expressions do not stand in front of it. -/
lemma le_of_mem_outsideBrackets {inside : Bool} {text : List Char} :
    ∀ m ∈ outsideBrackets inside (unescaped position text), position ≤ m.1 := fun _ h =>
  le_of_mem_unescaped (mem_of_mem_outsideBrackets h)

/-- A character in front counts if it is the one looked for and lies up to the position. -/
lemma countUpTo_cons :
    countUpTo c position (m :: rest) =
      countUpTo c position rest + if m.2 = c ∧ m.1 ≤ position then 1 else 0 := by
  simp [countUpTo, List.countP_cons]

/-- Nothing is counted up to a position in front of all characters. -/
lemma countUpTo_of_lt (h : ∀ m ∈ marks, position < m.1) : countUpTo c position marks = 0 := by
  refine List.countP_eq_zero.2 fun m hm hcount => ?_
  have hlt := h m hm
  simp only [decide_eq_true_eq] at hcount
  omega

/-- A character that is no backslash is kept together with its position. -/
lemma unescaped_cons {text : List Char} (hc : c ≠ '\\') :
    unescaped position (c :: text) = (position, c) :: unescaped (position + 1) text := by
  conv_lhs => unfold unescaped
  rw [if_neg hc]

/-- In an empty text nothing balances while a parenthesis is open. -/
lemma balancedAt_nil (hdepth : 0 < depth) : balancedAt depth start [] = ∅ := by
  refine Set.eq_empty_of_forall_notMem fun position ⟨_, heven⟩ => ?_
  have hnone : depth + 0 = 0 := heven
  omega

/-- Where nothing stands nothing is balanced, as long as a parenthesis is open. -/
lemma balancedAt_skip (hdepth : 0 < depth) {skipped : Nat}
    (h : ∀ m ∈ marks, start + skipped ≤ m.1) :
    balancedAt depth start marks = balancedAt depth (start + skipped) marks := by
  ext position
  refine ⟨fun ⟨_, heven⟩ => ⟨?_, heven⟩, fun ⟨hle, heven⟩ => ⟨by omega, heven⟩⟩
  by_contra hlt
  have hnone : ∀ m ∈ marks, position < m.1 := fun m hm => by
    have := h m hm
    omega
  rw [countUpTo_of_lt hnone, countUpTo_of_lt hnone] at heven
  omega

/-- A character moves the depth for all that follows it. -/
lemma balancedAt_cons {depth' : Nat} (hdepth' : 0 < depth') (hrest : ∀ m ∈ rest, start + 1 ≤ m.1)
    (hmoved : depth + (if c = '(' then 1 else 0) = depth' + if c = ')' then 1 else 0) :
    balancedAt depth start ((start, c) :: rest) = balancedAt depth' (start + 1) rest := by
  ext position
  constructor
  · rintro ⟨hle, heven⟩
    rw [countUpTo_cons, countUpTo_cons] at heven
    simp only [hle, and_true] at heven
    refine ⟨?_, by omega⟩
    by_contra hlt
    have hnone : ∀ m ∈ rest, position < m.1 := fun m hm => by
      have := hrest m hm
      omega
    rw [countUpTo_of_lt hnone, countUpTo_of_lt hnone] at heven
    omega
  · rintro ⟨hlt, heven⟩
    have hle : start ≤ position := by omega
    refine ⟨hle, ?_⟩
    rw [countUpTo_cons, countUpTo_cons]
    simp only [hle, and_true]
    omega

/-- The last open parenthesis is closed by the character that closes it. -/
lemma isLeast_balancedAt_close (hrest : ∀ m ∈ rest, start + 1 ≤ m.1) :
    IsLeast (balancedAt 1 start ((start, ')') :: rest)) start := by
  refine ⟨⟨Nat.le_refl _, ?_⟩, fun _ h => h.1⟩
  have hnone : ∀ m ∈ rest, start < m.1 := hrest
  simp [countUpTo_cons, countUpTo_of_lt hnone]

end Positions

/-! ## Where a parenthesis closes -/

section Closing

variable {ε : Type}

/-- No bracket is open where only parentheses are. -/
lemma inBracket_eq_false {outer : List Mark} (h : ∀ m ∈ outer, m.2 = '(') :
    inBracket outer = false := by
  cases outer with
  | nil => rfl
  | cons top outer =>
    have htop := h top List.mem_cons_self
    simp [inBracket, htop]

/-- The scan by index stops at the first position up to which the parentheses balance.

**Proof sketch.** By induction along the scan, with the depth as the number of parentheses that are
open in front. A parenthesis moves the depth by one, and every other character leaves it as it is.
As long as a parenthesis is open, the parentheses do not balance at a position that is passed. -/
theorem isFirst_closing {depth i : Nat} {inBracket : Bool} {text : List Char} {found : Option Nat}
    (hdepth : 0 < depth) (h : (closing depth inBracket i text : Scan ε (Option Nat)) = .ok found) :
    IsFirst (balancedAt depth i (outsideBrackets inBracket (unescaped i text))) found := by
  fun_induction closing (ε := ε) depth inBracket i text with
  | case1 | case2 =>
    cases h
    exact balancedAt_nil hdepth
  | case3 depth inBracket i c rest ih =>
    have hescape : unescaped i ('\\' :: c :: rest) = unescaped (i + 2) rest := rfl
    rw [hescape, balancedAt_skip hdepth le_of_mem_outsideBrackets]
    exact ih hdepth h
  | case4 depth i c rest hc ih =>
    rw [unescaped_cons hc, outsideBrackets, balancedAt_skip hdepth le_of_mem_outsideBrackets]
    exact ih hdepth h
  | case5 depth inBracket i rest hbracket hc ih =>
    obtain rfl : inBracket = false := by simpa using hbracket
    rw [unescaped_cons hc, outsideBrackets, if_pos rfl,
      balancedAt_skip hdepth le_of_mem_outsideBrackets]
    exact ih hdepth h
  | case6 depth inBracket i rest hbracket hc hopen ih =>
    obtain rfl : inBracket = false := by simpa using hbracket
    rw [unescaped_cons hc, outsideBrackets, if_neg hopen,
      balancedAt_cons (Nat.succ_pos depth) le_of_mem_outsideBrackets (by simp)]
    exact ih (Nat.succ_pos depth) h
  | case7 depth inBracket i rest hbracket hc hopenBracket hopen ih =>
    obtain rfl : inBracket = false := by simpa using hbracket
    rw [difference_of_le hdepth] at h
    rw [unescaped_cons hc, outsideBrackets, if_neg hopenBracket]
    by_cases hlast : depth = 1
    · subst hlast
      cases h
      exact isLeast_balancedAt_close le_of_mem_outsideBrackets
    · have hrest : (closing (depth - 1) false (i + 1) rest : Scan ε (Option Nat)) = .ok found := by
        simpa [bind, Except.bind, show depth - 1 ≠ 0 by omega] using h
      have hpos : 0 < depth - 1 := by omega
      rw [balancedAt_cons hpos le_of_mem_outsideBrackets (by simp; omega)]
      exact ih (depth - 1) hpos hrest
  | case8 depth inBracket i c rest hc hbracket hopenBracket hopen hclose ih =>
    obtain rfl : inBracket = false := by simpa using hbracket
    rw [unescaped_cons hc, outsideBrackets, if_neg hopenBracket,
      balancedAt_cons hdepth le_of_mem_outsideBrackets (by simp [hopen, hclose])]
    exact ih hdepth h

/-- The body of a group goes on behind the characters in front of its end. -/
lemma take_cons_sub {i close : Nat} (c : Char) (rest : List Char) (h : i + 1 ≤ close) :
    (c :: rest).take (close - i) = c :: rest.take (close - (i + 1)) := by
  rw [show close - i = close - (i + 1) + 1 by omega, List.take_succ_cons]

/-- Nothing is open behind the body of a group without braces, if only parentheses are open in front
of it, and as many as the scan counts.

**Proof sketch.** By induction along the scan. A parenthesis moves the depth as it moves the stack,
and an open bracket lies on top of the parentheses until it ends. -/
lemma openers_take_closing {depth i close q : Nat} {inBracket : Bool} {text : List Char}
    {outer : List Mark}
    (h : (closing depth inBracket i text : Scan ε (Option Nat)) = .ok (some close))
    (houter : ∀ m ∈ outer, m.2 = '(') (hdepth : outer.length + 1 = depth)
    (hbraces : ∀ m ∈ outsideBrackets inBracket (unescaped i (text.take (close - i))),
      m.2 ≠ '\x7b' ∧ m.2 ≠ '\x7d') :
    openers (if inBracket then (q, '[') :: outer else outer)
      (unescaped i (text.take (close - i))) = .ok [] := by
  fun_induction closing (ε := ε) depth inBracket i text generalizing outer q with
  | case1 | case2 => cases h
  | case3 depth inBracket i c rest ih =>
    have hle : i + 2 ≤ close := (isFirst_closing (by omega) h).1.1
    rw [take_cons_sub _ _ (by omega), take_cons_sub _ _ hle] at hbraces ⊢
    exact ih h houter hdepth hbraces
  | case4 depth i c rest hc ih =>
    have hle : i + 1 ≤ close := (isFirst_closing (by omega) h).1.1
    rw [take_cons_sub _ _ hle, unescaped_cons hc] at hbraces ⊢
    rw [outsideBrackets] at hbraces
    have hrest := ih (q := q) h houter hdepth hbraces
    by_cases hclose : c = ']'
    · subst hclose
      simpa [openers_cons afterMark_bracket] using hrest
    · have hstays : afterMark ((q, '[') :: outer) (i, c) = .ok ((q, '[') :: outer) :=
        afterMark_of_inBracket rfl hclose
      simpa [openers_cons hstays, hclose] using hrest
  | case5 depth inBracket i rest hbracket hc ih =>
    obtain rfl : inBracket = false := by simpa using hbracket
    have hle : i + 1 ≤ close := (isFirst_closing (by omega) h).1.1
    rw [take_cons_sub _ _ hle, unescaped_cons hc] at hbraces ⊢
    rw [outsideBrackets, if_pos rfl] at hbraces
    have hopen : afterMark outer (i, '[') = .ok ((i, '[') :: outer) :=
      afterMark_opener (inBracket_eq_false houter) rfl
    exact (openers_cons hopen).trans (ih h houter hdepth hbraces)
  | case6 depth inBracket i rest hbracket hc hopen ih =>
    obtain rfl : inBracket = false := by simpa using hbracket
    have hle : i + 1 ≤ close := (isFirst_closing (by omega) h).1.1
    rw [take_cons_sub _ _ hle, unescaped_cons hc] at hbraces ⊢
    rw [outsideBrackets, if_neg hopen] at hbraces
    have hpush : afterMark outer (i, '(') = .ok ((i, '(') :: outer) :=
      afterMark_opener (inBracket_eq_false houter) rfl
    refine (openers_cons hpush).trans (ih (q := q) h ?_ (by simpa using hdepth) ?_)
    · exact List.forall_mem_cons.2 ⟨rfl, houter⟩
    · exact (List.forall_mem_cons.1 hbraces).2
  | case7 depth inBracket i rest hbracket hc hopenBracket hopen ih =>
    obtain rfl : inBracket = false := by simpa using hbracket
    rw [difference_of_le (by omega)] at h
    cases outer with
    | nil =>
      obtain rfl : 1 = depth := hdepth
      cases h
      rw [Nat.sub_self]
      rfl
    | cons top outer =>
      obtain ⟨position, opener⟩ := top
      rw [List.length_cons] at hdepth
      obtain ⟨hopener, hbelow⟩ := List.forall_mem_cons.1 houter
      obtain rfl : opener = '(' := hopener
      have hpos : depth - 1 ≠ 0 := by omega
      have hrest : (closing (depth - 1) false (i + 1) rest : Scan ε (Option Nat)) =
          .ok (some close) := by
        simpa [bind, Except.bind, hpos] using h
      have hle : i + 1 ≤ close := (isFirst_closing (by omega) hrest).1.1
      rw [take_cons_sub _ _ hle, unescaped_cons hc] at hbraces ⊢
      rw [outsideBrackets, if_neg hopenBracket] at hbraces
      have hpop : afterMark ((position, '(') :: outer) (i, ')') = .ok outer :=
        afterMark_closer (.inl rfl)
      refine (openers_cons hpop).trans (ih (depth - 1) (q := q) hrest hbelow (by omega) ?_)
      exact (List.forall_mem_cons.1 hbraces).2
  | case8 depth inBracket i c rest hc hbracket hopenBracket hopen hclose ih =>
    obtain rfl : inBracket = false := by simpa using hbracket
    have hle : i + 1 ≤ close := (isFirst_closing (by omega) h).1.1
    rw [take_cons_sub _ _ hle, unescaped_cons hc] at hbraces ⊢
    rw [outsideBrackets, if_neg hopenBracket] at hbraces
    obtain ⟨⟨hbrace, hbrace'⟩, hbraces⟩ := List.forall_mem_cons.1 hbraces
    have hstays : afterMark outer (i, c) = .ok outer :=
      afterMark_other (inBracket_eq_false houter)
        (by simp [isOpener, hopenBracket, hopen, hbrace]) (by simp [isCloser, hclose, hbrace'])
    exact (openers_cons hstays).trans (ih (q := q) h houter hdepth hbraces)

end Closing

/-! ## The text of a group -/

/-- The index of the parenthesis that closes the one at the index `opening`. -/
def closing? (input : List Char) (opening : Nat) : Option Nat :=
  (closeParenthesis .plain 0 (input.drop (opening + 1))).map fun (body, _) =>
    opening + 1 + body.length

/-- What stands between two parentheses. -/
def groupBody (input : List Char) (opening close : Nat) : Slice :=
  ⟨opening + 1, (input.take close).drop (opening + 1)⟩

section Group

variable {input : List Char} {opening close : Nat}

/-- The text from the opening parenthesis on. -/
lemma drop_of_getElem? {c : Char} (h : input[opening]? = some c) :
    input.drop opening = c :: input.drop (opening + 1) := by
  obtain ⟨hlt, rfl⟩ := List.getElem?_eq_some_iff.1 h
  exact List.drop_eq_getElem_cons hlt

/-- The scan by index finds the closing parenthesis, with the other one counted or in front. -/
lemma closing_eq_closing? {ε : Type} (input : List Char) (opening : Nat) :
    (closing 1 false (opening + 1) (input.drop (opening + 1)) : Scan ε (Option Nat)) =
      .ok (closing? input opening) :=
  closing_eq 0 false (opening + 1) (input.drop (opening + 1))

/-- A scan that starts at the opening parenthesis ends at the closing one. -/
lemma closing_opening {ε : Type} (hopening : input[opening]? = some '(') :
    (closing 0 false opening (input.drop opening) : Scan ε (Option Nat)) =
      .ok (closing? input opening) := by
  rw [drop_of_getElem? hopening, closing_parenthesis]
  rfl

/-- Behind the first parenthesis there is one to be closed. -/
lemma balancePoints_eq (hopening : input[opening]? = some '(') :
    balancePoints input opening = balancedAt 1 (opening + 1)
      (outsideBrackets false (unescaped (opening + 1) (input.drop (opening + 1)))) := by
  rw [balancePoints, drop_of_getElem? hopening, unescaped_cons (by decide), outsideBrackets,
    if_neg (by simp), balancedAt_cons Nat.one_pos le_of_mem_outsideBrackets (by simp)]

/-- A parenthesis closes where the parentheses balance for the first time. -/
theorem isFirst_closing? (hopening : input[opening]? = some '(') :
    IsFirst (balancePoints input opening) (closing? input opening) := by
  rw [balancePoints_eq hopening]
  exact isFirst_closing (ε := Fault) Nat.one_pos (closing_eq_closing? input opening)

/-- What stands between two parentheses, as a part of the whole text. -/
lemma groupBody_text (input : List Char) (opening close : Nat) :
    (groupBody input opening close).text =
      (input.drop (opening + 1)).take (close - (opening + 1)) :=
  List.drop_take

/-- A group without braces can be cut. -/
lemma exists_split_groupBody (h : closing? input opening = some close) (separator : Char)
    (hbraces : ∀ m ∈ outsideBrackets false
      (unescaped (opening + 1) (groupBody input opening close).text), m.2 ≠ '\x7b' ∧ m.2 ≠ '\x7d') :
    ∃ parts, (groupBody input opening close).split separator = .ok parts := by
  rw [Slice.exists_split_iff, groupBody_text]
  rw [groupBody_text] at hbraces
  have hclosing := closing_eq_closing? (ε := Fault) input opening
  rw [h] at hclosing
  exact openers_take_closing (q := 0) hclosing (by simp) rfl hbraces

/-- A text that can be cut, in parentheses, closes where it ends. -/
lemma closing?_enclose {separator : Char} {text : List Char} {parts : List Slice}
    (hparts : (Slice.whole text).split separator = .ok parts)
    (hend : endsInBackslash text = false) :
    closing? (enclose [] [] text) 0 = some (text.length + 1) := by
  rw [Slice.split, Slice.whole] at hparts
  split at hparts <;> cases hparts
  rename_i hfrom
  have hescaped : (Zone.plain.after text).isEscaped = false := by
    rw [isEscaped_after rfl, hend]
  have hclose : closeParenthesis .plain 0 (text ++ [')']) = some (text, []) :=
    closeParenthesis_of_splitFrom wellFormed_outermost hfrom hescaped []
  have hdrop : (enclose [] [] text).drop 1 = text ++ [')'] := rfl
  rw [closing?, hdrop, hclose, Option.map_some]
  exact congrArg some (Nat.add_comm 1 text.length)

/-- A group is read up to the parenthesis that closes it. -/
lemma readGroup_eq (input : List Char) (opening : Nat) :
    Token.readGroup ⟨opening, input.drop opening⟩ =
      match closing? input opening with
      | none => .error (.located .unterminatedGroup opening (input.drop opening).length)
      | some close =>
        .ok (.group (groupBody input opening close), ⟨close + 1, input.drop (close + 1)⟩) := by
  simp only [Token.readGroup, closing?, List.drop_drop]
  cases hclose : closeParenthesis .plain 0 (input.drop (opening + 1)) with
  | none => rfl
  | some read =>
    obtain ⟨body, rest⟩ := read
    have hbody : (groupBody input opening (opening + 1 + body.length)).text = body := by
      rw [groupBody_text, ← closeParenthesis_append hclose, Nat.add_sub_cancel_left,
        List.take_left]
    have hgroup : groupBody input opening (opening + 1 + body.length) = ⟨opening + 1, body⟩ :=
      congrArg (Slice.mk (opening + 1)) hbody
    have hbehind : opening + (body.length + 2) = opening + 1 + body.length + 1 := by omega
    simp only [Option.map_some, hgroup, Slice.drop, List.drop_drop, hbehind]

/-- The scans that close a parenthesis, cut at separators and count groups agree on the text of a
group. It ends where the parentheses balance for the first time, and up to there it is read as a
token. Without braces it can be cut, and the parts open its groups. A text that can be cut, in
parentheses, closes where it ends. -/
theorem closing_agrees_with_split (hopening : input[opening]? = some '(') :
    (∀ close, closing? input opening = some close ↔ IsLeast (balancePoints input opening) close) ∧
    (closing? input opening = none ↔ balancePoints input opening = ∅) ∧
    (closing 0 false opening (input.drop opening) : Scan Fault (Option Nat)) =
      .ok (closing? input opening) ∧
    Token.readGroup ⟨opening, input.drop opening⟩ =
      (match closing? input opening with
      | none => .error (.located .unterminatedGroup opening (input.drop opening).length)
      | some close =>
        .ok (.group (groupBody input opening close), ⟨close + 1, input.drop (close + 1)⟩)) ∧
    (∀ close, closing? input opening = some close → ∀ separator ∈ ['|', ','],
      ((∀ m ∈ outsideBrackets false
        (unescaped (opening + 1) (groupBody input opening close).text),
          m.2 ≠ '\x7b' ∧ m.2 ≠ '\x7d') →
        ∃ parts, (groupBody input opening close).split separator = .ok parts) ∧
      ∀ parts, (groupBody input opening close).split separator = .ok parts →
        (parts.map fun part => countGroups part.text).sum =
          countGroups (groupBody input opening close).text) ∧
    ∀ text parts, (Slice.whole text).split '|' = .ok parts → endsInBackslash text = false →
      closing? (enclose [] [] text) 0 = some (text.length + 1) := by
  have hfirst := isFirst_closing? hopening
  refine ⟨hfirst.eq_some_iff, hfirst.eq_none_iff, closing_opening hopening,
    readGroup_eq input opening, ?_, ?_⟩
  · intro close hclose separator hseparator
    refine ⟨exists_split_groupBody hclose separator, fun parts hparts => ?_⟩
    exact sum_countGroups_split (List.mem_cons_of_mem _ hseparator) hparts
  · intro text parts hparts hend
    exact closing?_enclose hparts hend

/-- A parenthesis in a group, two that do not count, and a bar between them. -/
theorem closing_of_nested_and_escaped :
    ['x', '(', 'a', '|', '[', ')', ']', '\\', ')', '(', 'b', ')', ')'][1]? = some '(' ∧
      closing? ['x', '(', 'a', '|', '[', ')', ']', '\\', ')', '(', 'b', ')', ')'] 1 = some 12 ∧
      IsLeast (balancePoints
        ['x', '(', 'a', '|', '[', ')', ']', '\\', ')', '(', 'b', ')', ')'] 1) 12 :=
  ⟨rfl, rfl, ((closing_agrees_with_split rfl).1 12).1 rfl⟩

end Group

end PatternSampler
