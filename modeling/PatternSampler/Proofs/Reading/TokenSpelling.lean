import PatternSampler.Proofs.Reading.Spelling

set_option autoImplicit false

/-!
# The spelling of tokens

Each token takes some characters from the front of a slice. Which characters these can be is said
here once for all tokens, so that no later argument opens the reader again.

## Main definitions

* `isStructural` — the characters that do not stand for themselves outside every bracket.
* `Escape.token` — the token of an escape.
* `Token.Spelled` — the characters that a token takes, and where it takes them.
* `RepeatCount.Valid` — the bounds of a repeat count make sense.

## Main results

* `closeParenthesis_congr` — the text behind a closed parenthesis has no part in closing it.
* `Token.next_spelled` — a token that is read spells the characters that it takes.
-/

namespace PatternSampler

/-! ## Closed parentheses -/

/-- The text behind a closed parenthesis has no part in closing it. -/
lemma closeParenthesis_congr {zone : Zone} {depth : Nat} {text body rest : List Char}
    (h : closeParenthesis zone depth text = some (body, rest)) (rest' : List Char) :
    closeParenthesis zone depth (body ++ ')' :: rest') = some (body, rest') := by
  induction text generalizing zone depth body rest with
  | nil => simp [closeParenthesis] at h
  | cons c tail ih =>
    unfold closeParenthesis at h
    split at h
    · rename_i hc
      split at h
      · simp only [Option.some.injEq, Prod.mk.injEq] at h
        obtain ⟨rfl, rfl⟩ := h
        simp [closeParenthesis, hc.1]
      · obtain ⟨⟨b, r⟩, hb, hbr⟩ := Option.map_eq_some_iff.1 h
        simp only [Prod.mk.injEq] at hbr
        obtain ⟨rfl, rfl⟩ := hbr
        simp only [List.cons_append, closeParenthesis, if_pos hc, ih hb, Option.map_some]
    · rename_i hc
      obtain ⟨⟨b, r⟩, hb, hbr⟩ := Option.map_eq_some_iff.1 h
      simp only [Prod.mk.injEq] at hbr
      obtain ⟨rfl, rfl⟩ := hbr
      simp only [List.cons_append, closeParenthesis, if_neg hc, ih hb, Option.map_some]

/-- A parenthesis is closed outside every bracket expression and behind no backslash. -/
lemma after_closeParenthesis {zone : Zone} {depth : Nat} {text body rest : List Char}
    (h : closeParenthesis zone depth text = some (body, rest)) : zone.after body = .plain := by
  induction text generalizing zone depth body rest with
  | nil => simp [closeParenthesis] at h
  | cons c tail ih =>
    unfold closeParenthesis at h
    split at h
    · rename_i hc
      split at h
      · simp only [Option.some.injEq, Prod.mk.injEq] at h
        rw [← h.1]
        exact hc.1
      · obtain ⟨⟨b, r⟩, hb, hbr⟩ := Option.map_eq_some_iff.1 h
        simp only [Prod.mk.injEq] at hbr
        obtain ⟨rfl, rfl⟩ := hbr
        rw [Zone.after_cons, hc.1, hc.2]
        exact ih hb
    · obtain ⟨⟨b, r⟩, hb, hbr⟩ := Option.map_eq_some_iff.1 h
      simp only [Prod.mk.injEq] at hbr
      obtain ⟨rfl, rfl⟩ := hbr
      rw [Zone.after_cons]
      exact ih hb

/-! ## Tokens -/

/-- The characters that do not stand for themselves outside every bracket. -/
def isStructural (c : Char) : Bool := c ∈ ['\\', '[', '(', '\x7b', '$', ')', '\x7d']

/-- The token of an escape. -/
def Escape.token : Escape → Token
  | digits => .oneOf CharSet.digits
  | wordCharacters => .oneOf CharSet.wordCharacters
  | character c => .character c

/-- The name of a call: a question mark, or name characters, one at least. -/
def IsCallName (name : List Char) : Prop :=
  name = ['?'] ∨ name ≠ [] ∧ ∀ c ∈ name, isNameCharacter c = true

/-- The characters that a token takes. The first one of them stands at `start`. -/
inductive Token.Spelled (start : Nat) : Token → List Char → Prop
  | literal {c : Char} (hc : isStructural c = false) : Spelled start (.character c) [c]
  | escape {e : Escape} {text : List Char} (he : e.Spelled text)
      (hdigit : ∀ c ∈ text.head?, c.isDigit = false) : Spelled start e.token ('\\' :: text)
  | reference {digits : List Char} (hne : digits ≠ []) (hdigits : ∀ c ∈ digits, c.isDigit = true) :
      Spelled start (.reference digits) ('\\' :: digits)
  | oneOf {items : List Char} {set : CharSet} (hitems : Draft.start.Spelled items set) :
      Spelled start (.oneOf set) ('[' :: items)
  | repetition {body : List Char} {count : RepeatCount} (hbody : '\x7d' ∉ body)
      (hcount : RepeatCount.ofText body = .ok count) :
      Spelled start (.repetition count) ('\x7b' :: (body ++ ['\x7d']))
  | group {body : List Char}
      (hclose : closeParenthesis .plain 0 (body ++ [')']) = some (body, [])) :
      Spelled start (.group ⟨start + 1, body⟩) ('(' :: (body ++ [')']))
  | call {name body : List Char} {f : Builtin} (hname : IsCallName name)
      (hf : Builtin.ofName? (String.ofList name) = some f)
      (hclose : closeParenthesis .plain 0 (body ++ [')']) = some (body, [])) :
      Spelled start (.call f ⟨start + name.length + 2, body⟩)
        ('$' :: (name ++ '(' :: (body ++ [')'])))

namespace Token

/-- An escaped token was written in the text. -/
lemma readEscaped_spelled {s rest : Slice} {t : Token} {tail : List Char}
    (hs : s.text = '\\' :: tail) (h : readEscaped s = .ok (t, rest)) :
    ∃ text, t.Spelled s.start text ∧ s.Starts text rest := by
  have htail : (s.drop 1).text = tail := by simp [Slice.drop, hs]
  have hdrop : s.text.drop 1 = tail := by rw [hs, List.drop_one, List.tail_cons]
  simp only [readEscaped, hdrop] at h
  split at h
  · rename_i hnone
    -- the character behind the backslash is no digit, so the escape is none of a reference
    have hdigit : ∀ {text : List Char} {r : Slice}, (s.drop 1).Starts text r →
        ∀ c ∈ text.head?, c.isDigit = false := by
      intro text r hstarts c hc
      obtain ⟨x, rfl⟩ := List.head?_eq_some_iff.1 hc
      rw [← htail, hstarts.text_eq, List.isEmpty_iff] at hnone
      by_contra hd
      rw [Bool.not_eq_false] at hd
      simp [List.takeWhile_cons_of_pos hd] at hnone
    have hescape : ∀ {e : Escape} {r : Slice}, readEscape s.start (s.drop 1) = .ok (some (e, r)) →
        ∃ text, e.token.Spelled s.start text ∧ s.Starts text r := by
      intro e r hread
      obtain ⟨text, htext, hstarts⟩ := readEscape_spelled hread
      exact ⟨'\\' :: text, .escape htext (hdigit hstarts), hstarts.cons (Slice.text_eq_cons hs)⟩
    split at h
    · simp at h
    · simp at h
    all_goals
      rename_i hread
      simp only [Except.ok.injEq, Prod.mk.injEq] at h
      obtain ⟨rfl, rfl⟩ := h
      exact hescape hread
  · rename_i hne
    simp only [Except.ok.injEq, Prod.mk.injEq] at h
    obtain ⟨rfl, rfl⟩ := h
    refine ⟨'\\' :: tail.takeWhile Char.isDigit, .reference ?_ ?_, ?_⟩
    · simpa using hne
    · exact fun c hc => List.mem_takeWhile_imp hc
    · refine .of_text_eq (y := tail.dropWhile Char.isDigit) ?_ rfl
      rw [hs, List.cons_append, List.takeWhile_append_dropWhile]

/-- A set was written in the text. -/
lemma readSet_spelled {s rest : Slice} {t : Token} {tail : List Char}
    (hs : s.text = '[' :: tail) (h : readSet s = .ok (t, rest)) :
    ∃ text, t.Spelled s.start text ∧ s.Starts text rest := by
  unfold readSet at h
  generalize hr : readBracket s.start .start (s.drop 1) = r at h
  cases r with
  | error f => simp [Except.map] at h
  | ok p =>
    simp only [Except.map, Except.ok.injEq, Prod.mk.injEq] at h
    obtain ⟨rfl, rfl⟩ := h
    obtain ⟨items, hitems, hstarts⟩ := readBracket_spelled hr
    exact ⟨'[' :: items, .oneOf hitems, hstarts.cons (Slice.text_eq_cons hs)⟩

/-- A repeat count was written in the text. -/
lemma readRepetition_spelled {s rest : Slice} {t : Token} {tail : List Char}
    (hs : s.text = '\x7b' :: tail) (h : readRepetition s = .ok (t, rest)) :
    ∃ text, t.Spelled s.start text ∧ s.Starts text rest := by
  have hdrop : s.text.drop 1 = tail := by rw [hs, List.drop_one, List.tail_cons]
  simp only [readRepetition, hdrop] at h
  split at h
  · simp at h
  rename_i hlength
  split at h
  · rename_i count hcount
    simp only [Except.ok.injEq, Prod.mk.injEq] at h
    obtain ⟨rfl, rfl⟩ := h
    generalize hbody : tail.takeWhile (· != '\x7d') = body at hlength hcount
    have hnotin : '\x7d' ∉ body := by
      intro hmem
      rw [← hbody] at hmem
      simpa using List.mem_takeWhile_imp hmem
    have htail : tail = body ++ tail.dropWhile (· != '\x7d') := by
      rw [← hbody, List.takeWhile_append_dropWhile]
    -- there is a character behind the body, and it is the closing brace
    cases hback : tail.dropWhile (· != '\x7d') with
    | nil =>
      rw [hback, List.append_nil] at htail
      simp [Slice.length, hs, htail] at hlength
    | cons c back =>
      have hc : c = '\x7d' := by
        have := List.head_dropWhile_not (· != '\x7d') (by simp [hback] : tail.dropWhile _ ≠ [])
        simpa [hback] using this
      subst hc
      rw [hback] at htail
      refine ⟨'\x7b' :: (body ++ ['\x7d']), .repetition hnotin hcount,
        .of_text_eq (y := back) ?_ (by simp)⟩
      rw [hs, htail]
      simp
  · simp at h

/-- A group was written in the text. -/
lemma readGroup_spelled {s rest : Slice} {t : Token} {tail : List Char}
    (hs : s.text = '(' :: tail) (h : readGroup s = .ok (t, rest)) :
    ∃ text, t.Spelled s.start text ∧ s.Starts text rest := by
  have hdrop : s.text.drop 1 = tail := by rw [hs, List.drop_one, List.tail_cons]
  simp only [readGroup, hdrop] at h
  split at h
  · simp at h
  · rename_i body back hclose
    simp only [Except.ok.injEq, Prod.mk.injEq] at h
    obtain ⟨rfl, rfl⟩ := h
    refine ⟨'(' :: (body ++ [')']), .group (closeParenthesis_congr hclose []),
      .of_text_eq (y := back) ?_ (by simp)⟩
    rw [hs, ← closeParenthesis_append hclose]
    simp

/-- The name that stands behind the mark of a call, if there is one, is the name of a call. -/
lemma isCallName_callName {text : List Char} (h : callName text ≠ []) :
    IsCallName (callName text) := by
  unfold callName at *
  split at *
  · exact .inl rfl
  · exact .inr ⟨h, fun c hc => List.mem_takeWhile_imp hc⟩

/-- The name of a call stands at the front of the text. -/
lemma callName_prefix (text : List Char) : callName text <+: text := by
  unfold callName
  split
  · exact ⟨_, rfl⟩
  · exact List.takeWhile_prefix _

/-- A call was written in the text. -/
lemma readCall_spelled {s rest : Slice} {t : Token} {tail : List Char}
    (hs : s.text = '$' :: tail) (h : readCall s = .ok (t, rest)) :
    ∃ text, t.Spelled s.start text ∧ s.Starts text rest := by
  have hdrop : s.text.drop 1 = tail := by rw [hs, List.drop_one, List.tail_cons]
  simp only [readCall, hdrop] at h
  obtain ⟨back, hback⟩ := callName_prefix tail
  have hname := @isCallName_callName tail
  generalize callName tail = name at *
  subst hback
  have hbehind : s.text.drop (name.length + 1) = back := by simp [hs]
  rw [hbehind] at h
  split at h
  · simp at h
  · rename_i c back'
    split at h
    · simp at h
    split at h
    · simp at h
    rename_i hc hne
    rw [not_not] at hc
    subst hc
    have harguments : s.text.drop (name.length + 2) = back' := by simp [hs]
    simp only [readArguments, harguments] at h
    split at h
    · simp at h
    rename_i body after hclose
    split at h
    · simp at h
    rename_i f hf
    simp only [Except.ok.injEq, Prod.mk.injEq] at h
    obtain ⟨rfl, rfl⟩ := h
    refine ⟨'$' :: (name ++ '(' :: (body ++ [')'])),
      .call (hname (by simpa using hne)) hf (closeParenthesis_congr hclose []),
      .of_text_eq (y := after) ?_ ?_⟩
    · rw [hs, ← closeParenthesis_append hclose]
      simp
    · simp only [List.length_cons, List.length_append, List.length_nil]
      omega

/-- A slice without a token is empty. -/
lemma text_eq_nil_of_next {s : Slice} (h : next s = .ok none) : s.text = [] := by
  unfold next at h
  split at h
  · assumption
  · rename_i c tail hs
    cases hread : readFrom c s <;> simp [hread, Except.map] at h

/-- A token that is read spells the characters that it takes. -/
theorem next_spelled {s rest : Slice} {t : Token} (h : next s = .ok (some (t, rest))) :
    ∃ text, t.Spelled s.start text ∧ s.Starts text rest := by
  unfold next at h
  split at h
  · simp at h
  · rename_i c tail hs
    generalize hr : readFrom c s = r at h
    cases r with
    | error f => simp [Except.map] at h
    | ok p =>
      simp only [Except.map, Except.ok.injEq, Option.some.injEq] at h
      subst h
      unfold readFrom at hr
      split at hr
      · exact readEscaped_spelled hs hr
      · exact readSet_spelled hs hr
      · exact readGroup_spelled hs hr
      · exact readRepetition_spelled hs hr
      · exact readCall_spelled hs hr
      · simp at hr
      · simp at hr
      · rename_i h₁ h₂ h₃ h₄ h₅ h₆ h₇
        simp only [Except.ok.injEq, Prod.mk.injEq] at hr
        obtain ⟨rfl, rfl⟩ := hr
        refine ⟨[c], .literal ?_, .of_text_eq (x := [c]) hs rfl⟩
        simp only [isStructural, List.mem_cons, List.not_mem_nil, or_false, decide_eq_false_iff_not]
        tauto

end Token

/-! ## Repeat counts -/

/-- The bounds of a count are in order and within what may be asked for. -/
structure RepeatCount.Valid (count : RepeatCount) : Prop where
  low_pos : 0 < count.low
  low_le : count.low ≤ count.high
  high_le : count.high ≤ maxRepeat

/-- A count that was read has valid bounds. -/
lemma RepeatCount.valid_ofText {text : List Char} {count : RepeatCount}
    (h : ofText text = .ok count) : count.Valid := by
  unfold ofText at h
  cases hbounds : ofBounds text with
  | error cause => simp [hbounds, bind, Except.bind] at h
  | ok bounds =>
    simp only [hbounds, bind, Except.bind] at h
    split at h
    · cases h
    split at h
    · cases h
    split at h
    · cases h
    · cases h
      exact ⟨by omega, by omega, by omega⟩

/-- A repeat count is spelled by the text between its braces. -/
lemma Token.Spelled.exists_braces {start : Nat} {count : RepeatCount} {text : List Char}
    (h : (Token.repetition count).Spelled start text) :
    ∃ body, '\x7d' ∉ body ∧ RepeatCount.ofText body = .ok count ∧
      text = '\x7b' :: (body ++ ['\x7d']) := by
  generalize ht : Token.repetition count = t at h
  cases h with
  | @repetition body count' hbody hcount =>
    simp only [Token.repetition.injEq] at ht
    exact ⟨body, hbody, ht ▸ hcount, rfl⟩
  | @escape e => cases e <;> simp [Escape.token] at ht
  | _ => simp at ht

/-- A repeat count that is read is valid. -/
lemma Token.valid_of_next {s rest : Slice} {count : RepeatCount}
    (h : next s = .ok (some (.repetition count, rest))) : count.Valid := by
  obtain ⟨text, htext, -⟩ := next_spelled h
  obtain ⟨body, -, hcount, -⟩ := htext.exists_braces
  exact RepeatCount.valid_ofText hcount

end PatternSampler
