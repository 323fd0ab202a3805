import PatternSampler.Proofs.Numbering.Tree
import PatternSampler.Proofs.Reading.SpelledRead

set_option autoImplicit false

/-!
# Texts one behind the other

What is read from a text does not depend on what stands behind it, with two exceptions: digits
go on with a reference at the end of the text, and a brace repeats what stands in front of it.

## Main definitions

* `Slice.append` — a slice with further characters behind it.
* `EndsWithReference` — a text ends with a reference to a group.
* `Pattern.Unbroken`, `Pattern.append` — trees that reach the end of their text, and trees one
  behind the other.

## Main results

* `Token.next_of_spelled` — what is spelled is read, whatever follows it.
* `Token.next_append` — the first token of a longer slice.
* `Pattern.ofSlice_append` — the tree of a longer slice.
-/

namespace PatternSampler

/-! ## Longer slices -/

/-- The slice with the characters `q` behind it. -/
def Slice.append (s : Slice) (q : List Char) : Slice := ⟨s.start, s.text ++ q⟩

namespace Slice

variable {s rest : Slice} {x q : List Char}

/-- Characters behind a slice do not move it. -/
@[simp] lemma start_append : (s.append q).start = s.start := rfl

/-- The text of a slice with characters behind it. -/
@[simp] lemma text_append : (s.append q).text = s.text ++ q := rfl

/-- What a slice starts with stays the same if characters follow. -/
lemma Starts.append (h : s.Starts x rest) (q : List Char) :
    (s.append q).Starts x (rest.append q) :=
  ⟨by rw [text_append, text_append, h.text_eq, List.append_assoc], h.start_eq⟩

end Slice

/-! ## What is spelled is read -/

/-- A run of characters with a property ends in front of one without it. -/
lemma takeWhile_front {p : Char → Bool} {front back : List Char} (hfront : ∀ c ∈ front, p c = true)
    (hback : ∀ c ∈ back.head?, p c = false) : (front ++ back).takeWhile p = front := by
  rw [List.takeWhile_append_of_pos hfront]
  cases back with
  | nil => simp
  | cons c back =>
    rw [List.takeWhile_cons_of_neg (by simpa using hback c rfl), List.append_nil]

namespace Token

variable {s rest : Slice} {t : Token}

/-- In a slice that is not empty the next token starts with the first character. -/
lemma next_cons {c : Char} {tail : List Char} (h : s.text = c :: tail) :
    next s = (readFrom c s).map some := by
  simp only [next, h]

/-- The name of a call ends with the parenthesis of its arguments. -/
lemma callName_append {name : List Char} (h : IsCallName name) (text : List Char) :
    callName (name ++ '(' :: text) = name := by
  rcases h with rfl | ⟨hne, hname⟩
  · rfl
  · have hwhile : (name ++ '(' :: text).takeWhile isNameCharacter = name :=
      takeWhile_front hname (by simp [isNameCharacter])
    unfold callName
    split
    · rename_i tail htext
      obtain ⟨c, name, rfl⟩ := List.exists_cons_of_ne_nil hne
      obtain ⟨rfl, -⟩ := List.cons.inj htext
      have := hname '?' (by simp)
      exact absurd this (by decide)
    · exact hwhile

/-- What is spelled is read, whatever follows it, unless digits follow a reference. -/
theorem next_of_spelled {x : List Char} (h : t.Spelled s.start x) (hs : s.Starts x rest)
    (hdigit : ∀ digits, t = .reference digits → ∀ c ∈ rest.text.head?, c.isDigit = false) :
    next s = .ok (some (t, rest)) := by
  have hrest := hs.eq_drop
  cases h with
  | @literal c hc =>
    rw [next_cons hs.text_eq_cons]
    unfold readFrom
    split
    case h_8 =>
      rw [hrest]
      rfl
    all_goals cases hc
  | @escape e text he hhead =>
    have hread : readEscape s.start (s.drop 1) = .ok (some (e, rest)) :=
      readEscape_of_spelled he hs.drop_cons
    have hnone : (s.text.drop 1).takeWhile Char.isDigit = [] := by
      rw [hs.text_eq_cons, List.drop_one, List.tail_cons]
      obtain ⟨c, tail, rfl⟩ : ∃ c tail, text = c :: tail :=
        List.exists_cons_of_ne_nil (List.ne_nil_of_length_pos he.length_pos)
      rw [List.cons_append, List.takeWhile_cons_of_neg]
      simpa using hhead c rfl
    rw [next_cons hs.text_eq_cons]
    simp only [readFrom, readEscaped, hnone, List.isEmpty_nil, if_true, hread]
    cases e <;> rfl
  | @reference digits hne hdigits =>
    have hwhile : (s.text.drop 1).takeWhile Char.isDigit = digits := by
      rw [hs.text_eq_cons, List.drop_one, List.tail_cons]
      exact takeWhile_front hdigits (hdigit digits rfl)
    rw [next_cons hs.text_eq_cons]
    simp only [readFrom, readEscaped, hwhile]
    rw [if_neg (by simpa using hne), hrest]
    rfl
  | @oneOf items set hitems =>
    have hread : readBracket s.start .start (s.drop 1) = .ok (set, rest) :=
      readBracket_of_spelled hitems hs.drop_cons
    rw [next_cons hs.text_eq_cons]
    simp only [readFrom, readSet, hread]
    rfl
  | @repetition body count hbody hcount =>
    have htext : s.text = '\x7b' :: (body ++ '\x7d' :: rest.text) := by
      simpa using hs.text_eq_cons
    have hwhile : (s.text.drop 1).takeWhile (· != '\x7d') = body := by
      rw [htext, List.drop_one, List.tail_cons]
      refine takeWhile_front (fun c hc => ?_) (by simp)
      have hne : c ≠ '\x7d' := fun heq => hbody (heq ▸ hc)
      simpa using hne
    have hlength : ¬s.length ≤ body.length + 1 := by
      simp [Slice.length, htext]
    rw [next_cons htext]
    simp only [readFrom, readRepetition, hwhile, if_neg hlength, hcount]
    rw [hrest]
    simp [Except.map]
  | @group body hclose =>
    have htext : s.text = '(' :: (body ++ ')' :: rest.text) := by
      simpa using hs.text_eq_cons
    rw [next_cons htext]
    simp only [readFrom, readGroup, htext, List.drop_one, List.tail_cons,
      closeParenthesis_congr hclose rest.text]
    rw [hrest]
    simp [Except.map]
  | @call name body f hname hf hclose =>
    have htext : s.text = '$' :: (name ++ '(' :: (body ++ ')' :: rest.text)) := by
      simpa using hs.text_eq_cons
    have hname' : callName (s.text.drop 1) = name := by
      rw [htext, List.drop_one, List.tail_cons, callName_append hname]
    have hopen : s.text.drop (name.length + 1) = '(' :: (body ++ ')' :: rest.text) := by
      simp [htext]
    have hinner : s.text.drop (name.length + 2) = body ++ ')' :: rest.text := by
      simp [htext]
    have hne : name.isEmpty = false := by
      rcases hname with rfl | ⟨hne, -⟩
      · rfl
      · simpa using hne
    rw [next_cons htext]
    simp only [readFrom, readCall, hname', hopen, ne_eq, not_true, if_false, hne,
      Bool.false_eq_true, readArguments, hinner, closeParenthesis_congr hclose rest.text, hf]
    have hlength : ('$' :: (name ++ '(' :: (body ++ [')']))).length =
        name.length + body.length + 3 := by
      simp only [List.length_cons, List.length_append, List.length_nil]
      omega
    rw [hrest, hlength]
    rfl

/-- All digits behind a backslash belong to the reference. -/
lemma isDigit_of_next_reference {digits : List Char}
    (h : next s = .ok (some (.reference digits, rest))) :
    ∀ c ∈ rest.text.head?, c.isDigit = false := by
  obtain ⟨x, hx, hstarts⟩ := next_spelled h
  generalize ht : Token.reference digits = t at hx
  cases hx with
  | @escape e => cases e <;> simp [Escape.token] at ht
  | @reference digits' hne hdigits =>
    cases ht
    rw [next_cons hstarts.text_eq_cons] at h
    have hwhile : (digits ++ rest.text).takeWhile Char.isDigit = digits := by
      simp only [readFrom, readEscaped, hstarts.text_eq_cons, List.drop_one, List.tail_cons] at h
      split at h
      · split at h <;> cases h
      · simp only [Except.map, Except.ok.injEq, Option.some.injEq, Prod.mk.injEq,
          reference.injEq] at h
        exact h.1
    intro c hc
    obtain ⟨back, hback⟩ := List.head?_eq_some_iff.1 hc
    rw [List.takeWhile_append_of_pos hdigits, hback, List.append_right_eq_self] at hwhile
    by_contra hdigit
    rw [Bool.not_eq_false] at hdigit
    rw [List.takeWhile_cons_of_pos hdigit] at hwhile
    cases hwhile
  | _ => cases ht

/-- A repeat count starts with a brace. -/
lemma head?_of_next_repetition {count : RepeatCount}
    (h : next s = .ok (some (.repetition count, rest))) : s.text.head? = some '\x7b' := by
  obtain ⟨x, hx, hstarts⟩ := next_spelled h
  obtain ⟨body, -, -, rfl⟩ := hx.exists_braces
  rw [hstarts.text_eq_cons]
  rfl

/-- Only a repeat count starts with a brace. -/
lemma exists_repetition_of_next (h : next s = .ok (some (t, rest))) {tail : List Char}
    (htext : s.text = '\x7b' :: tail) : ∃ count, t = .repetition count := by
  rw [next_cons htext] at h
  simp only [readFrom, readRepetition] at h
  split at h
  · cases h
  · split at h <;> cases h
    exact ⟨_, rfl⟩

/-- The first token of a longer slice. At the end of the slice, digits would go on with a
reference. -/
theorem next_append (h : next s = .ok (some (t, rest))) {q : List Char}
    (hq : ∀ digits, t = .reference digits → rest.text = [] → ∀ c ∈ q.head?, c.isDigit = false) :
    next (s.append q) = .ok (some (t, rest.append q)) := by
  obtain ⟨x, hx, hstarts⟩ := next_spelled h
  refine next_of_spelled hx (hstarts.append q) fun digits ht c hc => ?_
  subst ht
  cases hback : rest.text with
  | nil =>
    rw [Slice.text_append, hback, List.nil_append] at hc
    exact hq digits rfl hback c hc
  | cons c' back =>
    rw [Slice.text_append, hback, List.cons_append, List.head?_cons] at hc
    refine isDigit_of_next_reference h c ?_
    rwa [hback, List.head?_cons]

end Token

/-! ## Repeat counts -/

/-- There are no repeat counts without a brace. -/
lemma readCounts_of_head?_ne {s : Slice} (h : s.text.head? ≠ some '\x7b') (product : Nat) :
    readCounts product s = ⟨[], s, none⟩ :=
  readCounts_of_ne (fun _ _ hcount => h (Token.head?_of_next_repetition hcount)) product

/-- Repeat counts in front of a longer slice. A brace would be one more count. -/
lemma readCounts_append {product : Nat} {s : Slice} {q : List Char}
    (hbrace : q.head? ≠ some '\x7b') (hok : (readCounts product s).fault = none)
    (hnext : ∀ fault, Token.next (readCounts product s).rest ≠ .error fault) :
    readCounts product (s.append q) =
      ⟨(readCounts product s).counts, (readCounts product s).rest.append q, none⟩ := by
  fun_induction readCounts product s with
  | case1 => cases hok
  | case2 product s count rest h hle later ih =>
    have happend := Token.next_append h (q := q) (by simp)
    rw [readCounts, happend]
    simp only [if_neg hle, ih hok hnext, later]
  | case3 product s h =>
    refine readCounts_of_ne (fun count rest hcount => ?_) product
    have hhead := Token.head?_of_next_repetition hcount
    cases htext : s.text with
    | nil =>
      rw [Slice.text_append, htext] at hhead
      exact hbrace hhead
    | cons c tail =>
      rw [Slice.text_append, htext, List.cons_append, List.head?_cons, Option.some.injEq] at hhead
      cases hread : Token.next s with
      | error fault => exact hnext fault hread
      | ok read =>
        obtain _ | ⟨t, rest'⟩ := read
        · rw [Token.text_eq_nil_of_next hread] at htext
          cases htext
        · subst hhead
          obtain ⟨count', rfl⟩ := Token.exists_repetition_of_next hread htext
          exact h count' rest' hread

/-- Counts that are spelled are valid. -/
lemma RepeatCount.Spelled.valid {counts : List RepeatCount} {x : List Char}
    (h : Spelled counts x) : ∀ count ∈ counts, count.Valid := by
  induction h with
  | nil => simp
  | cons _ hcount _ ih => exact List.forall_mem_cons.2 ⟨valid_ofText hcount, ih⟩

/-- Spelled counts are read, as long as they do not ask for too many instances together. -/
lemma readCounts_of_spelled {counts : List RepeatCount} {x : List Char}
    (h : RepeatCount.Spelled counts x) {s rest : Slice} (hs : s.Starts x rest)
    (hrest : ∀ count rest', Token.next rest ≠ .ok (some (.repetition count, rest')))
    {product : Nat} (hproduct : product * (counts.map RepeatCount.high).prod ≤ maxRepeat) :
    readCounts product s = ⟨counts, rest, none⟩ := by
  induction h generalizing s product with
  | nil =>
    rw [show rest = s by rw [hs.eq_drop]; rfl] at hrest ⊢
    exact readCounts_of_ne hrest product
  | @cons body text count counts hbody hcount hspelled ih =>
    have hstarts : s.Starts (('\x7b' :: (body ++ ['\x7d'])) ++ text) rest := by simpa using hs
    have hnext := Token.next_of_spelled (t := .repetition count) (.repetition hbody hcount)
      hstarts.left (by simp)
    rw [List.map_cons, List.prod_cons, ← Nat.mul_assoc] at hproduct
    have hpos : 0 < (counts.map RepeatCount.high).prod := by
      refine Nat.pos_of_ne_zero (List.prod_ne_zero ?_)
      rw [List.mem_map]
      rintro ⟨count', hmem, hzero⟩
      have hvalid := hspelled.valid count' hmem
      have := hvalid.low_pos
      have := hvalid.low_le
      omega
    have hle : ¬maxRepeat < product * count.high :=
      Nat.not_lt.2 (Nat.le_trans (Nat.le_mul_of_pos_right _ hpos) hproduct)
    rw [readCounts, hnext]
    simp only [if_neg hle, ih hstarts.drop_append hproduct]

/-! ## References at the end -/

/-- The text ends with a reference to a group: a backslash with its own meaning, and digits. -/
def EndsWithReference (text : List Char) : Prop :=
  ∃ front digits, text = front ++ '\\' :: digits ∧ Zone.plain.after front = .plain ∧ digits ≠ [] ∧
    ∀ c ∈ digits, c.isDigit = true

/-- Behind a row of tokens the next character has its own meaning again. -/
lemma GroupScan.Counts.zone_after {x : List Char} {n : Nat} (h : start.Counts x n start) :
    Zone.plain.after x = .plain := by
  have hzone := (GroupScan.zone_after valid_start x).1
  rw [h.after_eq] at hzone
  exact hzone.symm

/-- A reference that ends what follows some tokens ends the whole text. -/
lemma EndsWithReference.append_left {x y : List Char} (h : EndsWithReference y)
    (hx : Zone.plain.after x = .plain) : EndsWithReference (x ++ y) := by
  obtain ⟨front, digits, rfl, hfront, hdigits⟩ := h
  refine ⟨x ++ front, digits, (List.append_assoc _ _ _).symm, ?_, hdigits⟩
  rw [Zone.after_append, hx, hfront]

/-- What stands behind a slice without getting into what is read from it: no brace in front, and no
digit either if the slice ends with a reference. -/
structure Slice.Precedes (s : Slice) (q : List Char) : Prop where
  brace : q.head? ≠ some '\x7b'
  digit : EndsWithReference s.text → ∀ c ∈ q.head?, c.isDigit = false

/-- What may stand behind a slice may also stand behind what is left of it. -/
lemma Slice.Precedes.behind {s rest : Slice} {q : List Char} {n : Nat} (h : s.Precedes q)
    (hs : s.Opens n rest) : rest.Precedes q := by
  obtain ⟨x, hx, hcounts⟩ := hs
  exact ⟨h.brace, fun hend => h.digit (hx.text_eq ▸ hend.append_left hcounts.zone_after)⟩

/-- A slice that is taken to its end by a reference ends with it. -/
lemma Token.endsWithReference_of_next {s rest : Slice} {digits : List Char}
    (h : next s = .ok (some (.reference digits, rest))) (hrest : rest.text = []) :
    EndsWithReference s.text := by
  obtain ⟨x, hx, hstarts⟩ := next_spelled h
  generalize ht : Token.reference digits = t at hx
  cases hx with
  | @escape e => cases e <;> simp [Escape.token] at ht
  | @reference digits' hne hdigits =>
    refine ⟨[], digits', ?_, rfl, hne, hdigits⟩
    rw [hstarts.text_eq, hrest, List.append_nil]
    rfl
  | _ => cases ht

/-! ## Trees one behind the other -/

/-- No mistake breaks the tree off. -/
def Pattern.Unbroken : Pattern → Prop
  | done => True
  | stop _ => False
  | seq _ _ rest => rest.Unbroken

/-- A tree and another one behind it. -/
def Pattern.append : Pattern → Pattern → Pattern
  | done, q => q
  | stop fault, _ => stop fault
  | seq head counts rest, q => seq head counts (rest.append q)

section OfSlice

variable {opened : Nat} {s rest : Slice} {t : Token}

/-- The tree of a slice whose first token stands for a construct. -/
lemma Pattern.ofSlice_of_construct {head : Construct} (h : Token.next s = .ok (some (t, rest)))
    (hc : Construct.ofToken opened ⟨s.start, rest.start - s.start⟩ t = .ok head) :
    ofSlice opened s = .seq head (readCounts 1 rest).counts
      (match (readCounts 1 rest).fault with
        | some fault => .stop fault
        | none => ofSlice (opened + t.groups) (readCounts 1 rest).rest) := by
  rw [ofSlice, h]
  cases hfault : (readCounts 1 rest).fault <;> simp only [hc, hfault]

/-- The tree of a slice that starts with a character that is not repeated. -/
lemma Pattern.ofSlice_of_character {c : Char} (h : Token.next s = .ok (some (.character c, rest)))
    (hrest : rest.text.head? ≠ some '\x7b') :
    ofSlice opened s = .seq (.character c) [] (ofSlice opened rest) := by
  rw [ofSlice_of_construct h (by rw [Construct.ofToken]), readCounts_of_head?_ne hrest]
  rfl

/-- The tree of a slice whose first token stands for no construct. -/
lemma Pattern.ofSlice_of_error {fault : Fault} (h : Token.next s = .ok (some (t, rest)))
    (hc : Construct.ofToken opened ⟨s.start, rest.start - s.start⟩ t = .error fault) :
    ofSlice opened s = .stop fault := by
  rw [ofSlice, h]
  simp only [hc]

end OfSlice

section Unbroken

variable {opened : Nat} {s : Slice}

/-- A tree that is not broken off is not broken off at its first token. -/
lemma Pattern.Unbroken.next_ne (h : (ofSlice opened s).Unbroken) (fault : Fault) :
    Token.next s ≠ .error fault := by
  intro hnext
  rw [ofSlice, hnext] at h
  exact h

/-- A slice whose tree is not broken off is empty, or it starts with a token that stands for a
construct, with its repeat counts, and the tree behind them is not broken off. -/
lemma Pattern.Unbroken.eq_nil_or (h : (ofSlice opened s).Unbroken) :
    s.text = [] ∨ ∃ t rest head, Token.next s = .ok (some (t, rest)) ∧
      Construct.ofToken opened ⟨s.start, rest.start - s.start⟩ t = .ok head ∧
        (readCounts 1 rest).fault = none ∧
          (ofSlice (opened + t.groups) (readCounts 1 rest).rest).Unbroken := by
  cases hnext : Token.next s with
  | error fault => exact (h.next_ne fault hnext).elim
  | ok read =>
    obtain _ | ⟨t, rest⟩ := read
    · exact .inl (Token.text_eq_nil_of_next hnext)
    · refine .inr ⟨t, rest, ?_⟩
      cases hc : Construct.ofToken opened ⟨s.start, rest.start - s.start⟩ t with
      | error fault =>
        rw [ofSlice_of_error hnext hc] at h
        exact h.elim
      | ok head =>
        rw [ofSlice_of_construct hnext hc, Unbroken] at h
        cases hfault : (readCounts 1 rest).fault with
        | some fault =>
          rw [hfault] at h
          exact h.elim
        | none =>
          rw [hfault] at h
          exact ⟨head, rfl, rfl, rfl, h⟩

/-- A slice whose tree is not broken off is read to its end. -/
lemma Pattern.Unbroken.opens (h : (ofSlice opened s).Unbroken) :
    s.Opens (countGroups s.text) ⟨s.stop, []⟩ := by
  induction hn : s.length using Nat.strong_induction_on generalizing opened s with
  | _ n ih =>
    rcases h.eq_nil_or with htext | ⟨t, rest, head, hnext, -, -, hbehind⟩
    · have hempty : s = ⟨s.stop, []⟩ := by
        rw [Slice.stop, Slice.length, htext]
        exact congrArg (Slice.mk s.start) htext
      rw [htext, ← hempty]
      exact .refl s
    · have hopens := (Token.opens_next hnext).trans (opens_readCounts 1 rest)
      obtain ⟨x, hx, -⟩ := id hopens
      have hrest := (Token.room_next hnext).2
      have hle := length_readCounts_le 1 rest
      have hlater := ih _ (by omega) hbehind rfl
      rw [hx.stop_eq] at hlater
      rw [hopens.countGroups_eq]
      exact hopens.trans hlater

/-- A text that is read to its end and another one behind it open their groups together. -/
lemma Pattern.Unbroken.countGroups_append (h : (ofSlice opened s).Unbroken) (q : List Char) :
    countGroups (s.text ++ q) = countGroups s.text + countGroups q := by
  obtain ⟨x, hx, hcounts⟩ := h.opens
  have htext : s.text = x := by
    rw [hx.text_eq, List.append_nil]
  rw [countGroups, GroupScan.count_append, htext, hcounts.after_eq]
  rfl

/-- The tree of a longer slice.

**Proof sketch.** By strong induction on the length of the slice. Each token is read as before,
since the slice does not break off, and the last one ends in front of the characters that are
added. These are then read with as many groups in front of them as the slice opens. -/
theorem Pattern.ofSlice_append {q : List Char} (hs : (Pattern.ofSlice opened s).Unbroken)
    (hq : s.Precedes q) :
    Pattern.ofSlice opened (s.append q) = (Pattern.ofSlice opened s).append
      (Pattern.ofSlice (opened + countGroups s.text) ⟨s.stop, q⟩) := by
  induction hn : s.length using Nat.strong_induction_on generalizing opened s with
  | _ n ih =>
    rcases hs.eq_nil_or with htext | ⟨t, rest, head, hnext, hc, hfault, hbehind⟩
    · have hempty : Pattern.ofSlice opened s = .done := by
        rw [Pattern.ofSlice, Token.next, htext]
      have hlonger : s.append q = ⟨s.stop, q⟩ := by
        simp [Slice.append, Slice.stop, Slice.length, htext]
      rw [hempty, htext, hlonger]
      rfl
    · have happend := Token.next_append hnext (q := q) fun digits ht hrest =>
        hq.digit (Token.endsWithReference_of_next (ht ▸ hnext) hrest)
      have hcounts := readCounts_append hq.brace hfault hbehind.next_ne
      have hopens := (Token.opens_next hnext).trans (opens_readCounts 1 rest)
      obtain ⟨x, hx, -⟩ := id hopens
      have hrest := (Token.room_next hnext).2
      have hle := length_readCounts_le 1 rest
      have hlater := ih _ (by omega) hbehind (hq.behind hopens) rfl
      rw [Pattern.ofSlice_of_construct hnext hc, Pattern.ofSlice_of_construct happend hc, hcounts,
        hfault, Pattern.append, hlater, hopens.countGroups_eq, hx.stop_eq]
      simp only [Nat.add_zero, Nat.add_assoc]

end Unbroken

end PatternSampler
