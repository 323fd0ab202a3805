import PatternSampler.Proofs.Reading.TokenSpelling

set_option autoImplicit false

/-!
# What is spelled is read

The readers of escapes and bracket expressions take each spelling that stands in front of them,
whatever follows it. A text is therefore spelled in one way at most.

## Main definitions

* `RepeatCount.Spelled` — repeat counts in their braces, one behind the other.

## Main results

* `readEscape_of_spelled`, `readBracket_of_spelled` — a spelling is read as what it spells.
* `Escape.Spelled.unique`, `Draft.Spelled.unique`, `RepeatCount.Spelled.unique` — two spellings in
  front of the same text are the same one.
-/

namespace PatternSampler

/-! ## Behind a front -/

namespace Slice.Starts

variable {s rest : Slice} {x y : List Char}

/-- Behind the first part of a front stands its second part. -/
lemma drop_append (h : s.Starts (x ++ y) rest) : (s.drop x.length).Starts y rest := by
  refine ⟨?_, ?_⟩
  · simp [Slice.drop, h.text_eq]
  · rw [h.start_eq, List.length_append]
    show s.start + (x.length + y.length) = s.start + x.length + y.length
    omega

/-- A slice starts with the front of what it starts with. -/
lemma left (h : s.Starts (x ++ y) rest) : s.Starts x (s.drop x.length) :=
  of_text_eq (by rw [h.text_eq, List.append_assoc]) rfl

/-- Without its first character a slice starts with the others. -/
lemma drop_cons {c : Char} (h : s.Starts (c :: x) rest) : (s.drop 1).Starts x rest :=
  drop_append (x := [c]) h

/-- The text of a slice in full. -/
lemma text_eq_cons {c : Char} (h : s.Starts (c :: x) rest) : s.text = c :: (x ++ rest.text) :=
  h.text_eq

/-- What is left is the slice without the characters read. -/
lemma eq_drop (h : s.Starts x rest) : rest = s.drop x.length := by
  obtain ⟨htext, hstart⟩ := h
  cases rest with
  | mk start text =>
    simp only at htext hstart
    rw [hstart, Slice.drop, htext, List.drop_left]

end Slice.Starts

/-! ## Escapes -/

/-- The digits of a code point are read as its character. -/
lemma readCodePoint_of_spelled {start : Nat} {s rest : Slice} {digits : List Char} {c : Char}
    (h : codePoint? digits = some c) (hs : s.Starts digits rest) :
    readCodePoint start digits.length s = .ok (c, rest) := by
  have hlength : ¬s.length < digits.length := by
    rw [hs.length_eq]
    omega
  have htake : s.text.take digits.length = digits := by rw [hs.text_eq, List.take_left]
  simp only [readCodePoint, if_neg hlength, htake, h, hs.eq_drop]

/-- A spelled escape is read, whatever follows it. -/
theorem readEscape_of_spelled {start : Nat} {s rest : Slice} {e : Escape} {x : List Char}
    (h : e.Spelled x) (hs : s.Starts x rest) : readEscape start s = .ok (some (e, rest)) := by
  have hrest := hs.eq_drop
  cases h with
  | digits | wordCharacters =>
    simp only [readEscape, hs.text_eq_cons, hrest]
    rfl
  | @codePoint lead digits c hlead hpoint =>
    have hread : readCodePoint start digits.length (s.drop 1) = .ok (c, rest) :=
      readCodePoint_of_spelled hpoint hs.drop_cons
    rcases hlead with ⟨rfl, hlength⟩ | ⟨rfl, hlength⟩
    · simp only [readEscape, hs.text_eq_cons, ← hlength, hread]
      rfl
    · simp only [readEscape, hs.text_eq_cons, ← hlength, hread]
      rfl
  | @control c hc =>
    obtain ⟨hd, hw, hu, hU⟩ := hc
    unfold readEscape
    split <;> simp_all [hs.text_eq_cons]

/-- A text starts with at most one escape. -/
lemma Escape.Spelled.unique {e e' : Escape} {x x' y y' : List Char} (h : e.Spelled x)
    (h' : e'.Spelled x') (heq : x ++ y = x' ++ y') : e = e' ∧ x = x' := by
  have hread : readEscape 0 ⟨0, x ++ y⟩ = .ok (some (e, ⟨0 + x.length, y⟩)) :=
    readEscape_of_spelled h ⟨rfl, rfl⟩
  have hread' : readEscape 0 ⟨0, x' ++ y'⟩ = .ok (some (e', ⟨0 + x'.length, y'⟩)) :=
    readEscape_of_spelled h' ⟨rfl, rfl⟩
  rw [heq, hread'] at hread
  simp only [Except.ok.injEq, Option.some.injEq, Prod.mk.injEq, Slice.mk.injEq] at hread
  obtain ⟨rfl, -, rfl⟩ := hread
  exact ⟨rfl, (List.append_cancel_right heq)⟩

/-! ## Bracket expressions -/

namespace Draft

/-- A name between colons is read as it is. -/
lemma setName?_name {name rest : List Char} (hne : name ≠ [])
    (hname : ∀ c ∈ name, c.isAlphanum = true) : setName? (name ++ ':' :: rest) = some name := by
  have hwhile : (name ++ ':' :: rest).takeWhile Char.isAlphanum = name := by
    rw [List.takeWhile_append_of_pos hname, List.takeWhile_cons_of_neg (by decide),
      List.append_nil]
  simp only [setName?, hwhile, List.drop_left]
  simpa using hne

end Draft

section ReadBracket

variable {opening : Nat} {d d' : Draft} {s rest : Slice} {c : Char} {x : List Char}

/-- An item that closes the bracket expression ends it. -/
lemma readBracket_of_closed (hs : s.Starts (c :: x) rest) {mid : Slice}
    (hstep : d.step s.start c (s.drop 1) = .ok (.closed mid)) :
    readBracket opening d s = .ok (d.finish, mid) := by
  rw [readBracket_cons hs.text_eq_cons, hstep]

/-- Otherwise the next items follow. -/
lemma readBracket_of_more (hs : s.Starts (c :: x) rest) {mid : Slice}
    (hstep : d.step s.start c (s.drop 1) = .ok (.more d' mid)) :
    readBracket opening d s = readBracket opening d' mid := by
  rw [readBracket_cons hs.text_eq_cons, hstep]

end ReadBracket

/-- A spelled bracket expression is read, whatever follows it. -/
theorem readBracket_of_spelled {opening : Nat} {d : Draft} {s rest : Slice} {items : List Char}
    {set : CharSet} (h : d.Spelled items set) (hs : s.Starts items rest) :
    readBracket opening d s = .ok (set, rest) := by
  induction h generalizing s with
  | close d =>
    have hstep : d.step s.start ']' (s.drop 1) = .ok (.closed rest) := by
      rw [hs.eq_drop]
      rfl
    exact readBracket_of_closed hs hstep
  | @caret d items set hfresh h ih =>
    have hstep : d.step s.start '^' (s.drop 1) =
        .ok (.more { d with negated := true } (s.drop 1)) := by
      simp [Draft.step, hfresh]
    rw [readBracket_of_more hs hstep]
    exact ih hs.drop_cons
  | @escape d e text items set he h ih =>
    have hread : readEscape s.start (s.drop 1) = .ok (some (e, (s.drop 1).drop text.length)) :=
      readEscape_of_spelled he hs.drop_cons.left
    have hstep : d.step s.start '\\' (s.drop 1) =
        .ok (.more (d.pushEscape e) ((s.drop 1).drop text.length)) := by
      simp [Draft.step, hread]
    rw [readBracket_of_more hs hstep]
    exact ih hs.drop_cons.drop_append
  | @colon d items set hname h ih =>
    have hstep : d.step s.start ':' (s.drop 1) = .ok (.more (d.push ':') (s.drop 1)) := by
      have hnone : Draft.setName? (s.drop 1).text = none := by
        rw [hs.drop_cons.text_eq, Draft.setName?_append h.mem_items, hname]
      simp [Draft.step, Draft.stepName, hnone]
    rw [readBracket_of_more hs hstep]
    exact ih hs.drop_cons
  | @name d name items ranges set hne hname hranges h ih =>
    have hmid : ((s.drop 1).drop (name.length + 1)).Starts items rest := by
      have hfront := hs.drop_cons
      rw [List.append_cons] at hfront
      simpa using hfront.drop_append
    have hstep : d.step s.start ':' (s.drop 1) =
        .ok (.more (d.extend ranges) ((s.drop 1).drop (name.length + 1))) := by
      have hsome : Draft.setName? (s.drop 1).text = some name := by
        rw [hs.drop_cons.text_eq, List.append_assoc]
        exact Draft.setName?_name hne hname
      simp [Draft.step, Draft.stepName, hsome, hranges]
    rw [readBracket_of_more hs hstep]
    exact ih hmid
  | @dash d items set hdash h ih =>
    have hstep : d.step s.start '-' (s.drop 1) = .ok (.more (d.push '-') (s.drop 1)) := by
      show d.stepRange s.start (s.drop 1) = _
      unfold Draft.stepRange
      split
      · rename_i low c tail hlow htext
        rcases hdash with hnone | hclose
        · rw [hnone] at hlow
          cases hlow
        · obtain ⟨items', rfl⟩ := List.head?_eq_some_iff.1 hclose
          rw [hs.drop_cons.text_eq_cons, List.cons.injEq] at htext
          rw [if_pos htext.1.symm]
      · rfl
    rw [readBracket_of_more hs hstep]
    exact ih hs.drop_cons
  | @range d low high range items set hlow hhigh hrange h ih =>
    have hstep : d.step s.start '-' (s.drop 1) =
        .ok (.more (d.extend [range]) ((s.drop 1).drop 1)) := by
      simp only [List.mem_cons, List.not_mem_nil, or_false, not_or] at hhigh
      show d.stepRange s.start (s.drop 1) = _
      simp [Draft.stepRange, hlow, hs.drop_cons.text_eq_cons, Draft.stepRangeEnd,
        Draft.closeRange, hhigh, hrange]
    rw [readBracket_of_more hs hstep]
    exact ih hs.drop_cons.drop_cons
  | @rangeEscape d low high range text items set hlow he hrange h ih =>
    have hfront := hs.drop_cons.drop_cons
    have hread : readEscape (s.start + 1) ((s.drop 1).drop 1) =
        .ok (some (.character high, ((s.drop 1).drop 1).drop text.length)) :=
      readEscape_of_spelled he hfront.left
    have hstep : d.step s.start '-' (s.drop 1) =
        .ok (.more (d.extend [range]) (((s.drop 1).drop 1).drop text.length)) := by
      show d.stepRange s.start (s.drop 1) = _
      simp [Draft.stepRange, hlow, hs.drop_cons.text_eq_cons, Draft.stepRangeEnd,
        Draft.closeRange, hread, hrange]
    rw [readBracket_of_more hs hstep]
    exact ih hfront.drop_append
  | @member d c items set hc hcaret h ih =>
    have hstep : d.step s.start c (s.drop 1) = .ok (.more (d.push c) (s.drop 1)) := by
      simp only [List.mem_cons, List.not_mem_nil, or_false, not_or] at hc
      have hcaret' : ¬(c = '^' ∧ d.isFresh = true) := by
        rintro ⟨rfl, hfresh⟩
        simp [hfresh] at hcaret
      unfold Draft.step
      rw [if_neg hc.1, if_neg hcaret']
      simp [hc]
    rw [readBracket_of_more hs hstep]
    exact ih hs.drop_cons

/-- A text starts with at most one bracket expression. -/
lemma Draft.Spelled.unique {d : Draft} {x x' y y' : List Char} {set set' : CharSet}
    (h : d.Spelled x set) (h' : d.Spelled x' set') (heq : x ++ y = x' ++ y') :
    x = x' ∧ set = set' := by
  have hread : readBracket 0 d ⟨0, x ++ y⟩ = .ok (set, ⟨0 + x.length, y⟩) :=
    readBracket_of_spelled h ⟨rfl, rfl⟩
  have hread' : readBracket 0 d ⟨0, x' ++ y'⟩ = .ok (set', ⟨0 + x'.length, y'⟩) :=
    readBracket_of_spelled h' ⟨rfl, rfl⟩
  rw [heq, hread'] at hread
  simp only [Except.ok.injEq, Prod.mk.injEq, Slice.mk.injEq] at hread
  obtain ⟨rfl, -, rfl⟩ := hread
  exact ⟨List.append_cancel_right heq, rfl⟩

/-! ## Repeat counts -/

/-- Repeat counts in their braces, one behind the other. -/
inductive RepeatCount.Spelled : List RepeatCount → List Char → Prop
  | nil : Spelled [] []
  | cons {body text : List Char} {count : RepeatCount} {counts : List RepeatCount}
      (hbody : '\x7d' ∉ body) (hcount : RepeatCount.ofText body = .ok count)
      (h : Spelled counts text) : Spelled (count :: counts) ('\x7b' :: (body ++ '\x7d' :: text))

/-- A text is cut in one way at the first occurrence of a character. -/
lemma append_cons_unique {c : Char} {x x' y y' : List Char} (hx : c ∉ x) (hx' : c ∉ x')
    (heq : x ++ c :: y = x' ++ c :: y') : x = x' ∧ y = y' := by
  have htake : ∀ {z : List Char} (w : List Char), c ∉ z →
      (z ++ c :: w).takeWhile (· != c) = z := by
    intro z w hz
    rw [List.takeWhile_append_of_pos, List.takeWhile_cons_of_neg (by simp), List.append_nil]
    intro d hd
    simpa using ne_of_mem_of_not_mem hd hz
  have hxx' : x = x' := by rw [← htake y hx, heq, htake y' hx']
  subst hxx'
  exact ⟨rfl, (List.cons.inj (List.append_cancel_left heq)).2⟩

/-- A text starts with one row of repeat counts that no further one follows. -/
lemma RepeatCount.Spelled.unique {counts counts' : List RepeatCount} {x x' y y' : List Char}
    (h : Spelled counts x) (h' : Spelled counts' x') (hy : y.head? ≠ some '\x7b')
    (hy' : y'.head? ≠ some '\x7b') (heq : x ++ y = x' ++ y') : counts = counts' ∧ x = x' := by
  induction h generalizing counts' x' with
  | nil =>
    cases h' with
    | nil => exact ⟨rfl, rfl⟩
    | cons => simp_all
  | cons hbody hcount h ih =>
    cases h' with
    | nil =>
      rw [List.nil_append] at heq
      simp [← heq] at hy'
    | cons hbody' hcount' h' =>
      simp only [List.cons_append, List.append_assoc, List.cons.injEq, true_and] at heq
      obtain ⟨rfl, hbehind⟩ := append_cons_unique hbody hbody' heq
      obtain ⟨rfl, rfl⟩ := ih h' hbehind
      rw [hcount, Except.ok.injEq] at hcount'
      exact ⟨by rw [hcount'], rfl⟩

end PatternSampler
