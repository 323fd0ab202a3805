import PatternSampler.Proofs.Guarded.Scans

set_option autoImplicit false

/-!
# Guarded readers

The readers of escapes, bracket expressions and tokens compute lengths as differences of positions,
and cut the bodies of groups and calls out of the text. With each of these operations guarded they
yield what the readers without guards do.

## Main definitions

* `Scan.codePoint`, `Scan.escape`, `Scan.bracket`, `Scan.token` — the guarded readers.
* `Slice.RestOf` — a slice is the rest of a text.

## Main results

* `Scan.token_eq` — in the rest of a text, the guarded reader of tokens never panics and yields the
  token that `Token.next` does.
-/

namespace PatternSampler

/-- The slice is what is left of a text. -/
def Slice.RestOf (input : List Char) (s : Slice) : Prop :=
  ∃ front, input = front ++ s.text ∧ s.start = front.length

namespace Slice.RestOf

variable {input : List Char} {s : Slice}

/-- The whole text is what is left of it at the start. -/
protected lemma whole (input : List Char) : (Slice.whole input).RestOf input := ⟨[], rfl, rfl⟩

/-- What is left of a text ends where the text ends. -/
lemma stop_eq (h : s.RestOf input) : s.stop = input.length := by
  obtain ⟨front, rfl, hstart⟩ := h
  rw [List.length_append, ← hstart]
  rfl

/-- Behind what has been read stands what is left of the text. -/
lemma of_starts {x : List Char} {rest : Slice} (h : s.RestOf input) (hrest : s.Starts x rest) :
    rest.RestOf input := by
  obtain ⟨front, hinput, hstart⟩ := h
  refine ⟨front ++ x, ?_, ?_⟩
  · rw [hinput, hrest.text_eq, List.append_assoc]
  · rw [hrest.start_eq, hstart, List.length_append]

end Slice.RestOf

namespace Scan

/-! ## Escapes -/

/-- The character whose code point is spelled by the first `count` characters of `s`, in an escape
that starts at `start`. -/
def codePoint (start count : Nat) (s : Slice) : Scan Fault (Char × Slice) :=
  if s.length < count then do
    let length ← difference s.stop start
    fail (.located .incompleteEscape start length)
  else
    let digits := s.text.take count
    match codePoint? digits with
    | some c => .ok (c, s.drop count)
    | none => do
      let length ← difference (s.start + count) start
      fail (.located (.invalidEscape (String.ofList digits)) start length)

/-- The escape whose backslash stands at `start` and whose other characters are the first ones of
`s`. -/
def escape (start : Nat) (s : Slice) : Scan Fault (Option (Escape × Slice)) :=
  match s.text with
  | 'u' :: _ => do
    let (c, rest) ← codePoint start 4 (s.drop 1)
    return some (.character c, rest)
  | 'U' :: _ => do
    let (c, rest) ← codePoint start 8 (s.drop 1)
    return some (.character c, rest)
  | _ => ofExcept (readEscape start s)

/-- A code point is read as without guards, behind the start of its escape. -/
lemma codePoint_eq {start : Nat} {s : Slice} (h : start ≤ s.start) (count : Nat) :
    codePoint start count s = ofExcept (readCodePoint start count s) := by
  have hstop := s.start_le_stop
  simp only [codePoint, readCodePoint]
  split
  · rw [difference_of_le (by omega)]
    rfl
  · cases codePoint? (s.text.take count) with
    | some c => rfl
    | none =>
      simp only
      rw [difference_of_le (by omega)]
      rfl

/-- An escape is read as without guards, behind its backslash. -/
lemma escape_eq {start : Nat} {s : Slice} (h : start ≤ s.start) :
    escape start s = ofExcept (readEscape start s) := by
  have hdrop : start ≤ (s.drop 1).start := Nat.le_succ_of_le h
  unfold escape
  split
  case h_3 => rfl
  all_goals
    rename_i htext
    simp only [codePoint_eq hdrop, readEscape, htext]
    cases readCodePoint start _ (s.drop 1) <;> rfl

/-! ## Bracket expressions -/

/-- Adds the range from `low` to `high`, whose dash stands at `position`. -/
def closeRange (position : Nat) (low high : Char) (rest : Slice) (d : Draft) :
    Scan Fault BracketStep :=
  match CharRange.ofChars? low high with
  | some range => .ok (.more (d.extend [range]) rest)
  | none => do
    let length ← difference rest.start position
    fail (.located .reversedRange position length)

/-- Reads the end of a range from `low` on, whose dash stands at `position`. -/
def rangeEnd (position : Nat) (low c : Char) (rest : Slice) (d : Draft) :
    Scan Fault BracketStep :=
  if c = '[' then fail (.located .nestedBracket (position + 1) 1)
  else if c = '\x7b' ∨ c = '$' then fail (.located (.forbiddenInBracket c) (position + 1) 1)
  else if c = '\\' then do
    match ← escape (position + 1) rest with
    | none => return .more d rest
    | some (.character high, rest) => closeRange position low high rest d
    | some _ => fail (.located .setInRange (position + 1) 2)
  else closeRange position low c rest d

/-- Reads a dash at `position` and, if it makes a range, the end of the range. -/
def range (position : Nat) (rest : Slice) (d : Draft) : Scan Fault BracketStep :=
  match d.rangeStart, rest.text with
  | some low, c :: _ =>
    if c = ']' then .ok (.more (d.push '-') rest) else rangeEnd position low c (rest.drop 1) d
  | _, _ => .ok (.more (d.push '-') rest)

/-- Reads an item of a bracket expression that starts with `c` at `position`. -/
def bracketItem (position : Nat) (c : Char) (rest : Slice) (d : Draft) : Scan Fault BracketStep :=
  if c = ']' then .ok (.closed rest)
  else if c = '^' ∧ d.isFresh then .ok (.more { d with negated := true } rest)
  else if c = '[' then fail (.located .nestedBracket position 1)
  else if c = '\x7b' ∨ c = '$' then fail (.located (.forbiddenInBracket c) position 1)
  else if c = '\\' then do
    match ← escape position rest with
    | none => return .more d rest
    | some (e, rest) => return .more (d.pushEscape e) rest
  else if c = ':' then ofExcept (d.stepName position rest)
  else if c = '-' then range position rest d
  else .ok (.more (d.push c) rest)

/-- The set of a bracket expression that was opened at `opening`, and the text behind it. An item
that takes no room would be read for ever. -/
def bracket (opening : Nat) (d : Draft) (s : Slice) : Scan Fault (CharSet × Slice) :=
  match s.text with
  | [] => do
    let length ← difference s.stop opening
    fail (.located .unterminatedBracket opening length)
  | c :: _ =>
    match bracketItem s.start c (s.drop 1) d with
    | .error halt => .error halt
    | .ok (.closed rest) => .ok (d.finish, rest)
    | .ok (.more d rest) =>
      if rest.length < s.length then bracket opening d rest else .error .panic
termination_by s.length

/-- A range is closed as without guards, behind its hyphen. -/
lemma closeRange_eq {position : Nat} {rest : Slice} (h : position ≤ rest.start) (low high : Char)
    (d : Draft) :
    closeRange position low high rest d = ofExcept (d.closeRange position low high rest) := by
  unfold closeRange Draft.closeRange
  cases CharRange.ofChars? low high with
  | some range => rfl
  | none =>
    simp only
    rw [difference_of_le h]
    rfl

/-- The end of a range is read as without guards, behind its hyphen. -/
lemma rangeEnd_eq {position : Nat} {rest : Slice} (h : position + 1 ≤ rest.start) (low c : Char)
    (d : Draft) :
    rangeEnd position low c rest d = ofExcept (d.stepRangeEnd position low c rest) := by
  unfold rangeEnd Draft.stepRangeEnd
  split
  · rfl
  split
  · rfl
  split
  · rw [escape_eq h]
    cases hread : readEscape (position + 1) rest with
    | error fault => rfl
    | ok read =>
      obtain _ | ⟨_ | _ | high, rest'⟩ := read
      · rfl
      · rfl
      · rfl
      · obtain ⟨text, -, hstarts⟩ := readEscape_spelled hread
        have hstart := hstarts.start_eq
        exact closeRange_eq (by omega) low high d
  · exact closeRange_eq (by omega) low c d

/-- A range is read as without guards, behind its hyphen. -/
lemma range_eq {position : Nat} {rest : Slice} (h : position ≤ rest.start) (d : Draft) :
    range position rest d = ofExcept (d.stepRange position rest) := by
  have hend : position + 1 ≤ (rest.drop 1).start := Nat.succ_le_succ h
  unfold range Draft.stepRange
  cases d.rangeStart with
  | none => rfl
  | some low =>
    cases rest.text with
    | nil => rfl
    | cons c tail =>
      simp only
      split
      · rfl
      · exact rangeEnd_eq hend low c d

/-- An item is read as without guards, behind its first character. -/
lemma bracketItem_eq {position : Nat} {rest : Slice} (h : position ≤ rest.start) (c : Char)
    (d : Draft) : bracketItem position c rest d = ofExcept (d.step position c rest) := by
  unfold bracketItem Draft.step
  split
  · rfl
  split
  · rfl
  split
  · rfl
  split
  · rfl
  split
  · rw [escape_eq h]
    cases readEscape position rest with
    | error fault => rfl
    | ok read => cases read <;> rfl
  split
  · rfl
  split
  · exact range_eq h d
  · rfl

/-- The guarded reader of bracket expressions yields what the reader without guards does. -/
theorem bracket_eq {opening : Nat} (d : Draft) (s : Slice) (h : opening ≤ s.start) :
    bracket opening d s = ofExcept (readBracket opening d s) := by
  have hstop := s.start_le_stop
  fun_induction readBracket opening d s with
  | case1 d s htext =>
    rw [bracket, htext]
    simp only
    rw [difference_of_le (by omega)]
    rfl
  | case2 d s c tail htext fault hstep =>
    rw [bracket, htext]
    simp only
    rw [bracketItem_eq (Nat.le_succ _), hstep]
    rfl
  | case3 d s c tail htext rest hstep =>
    rw [bracket, htext]
    simp only
    rw [bracketItem_eq (Nat.le_succ _), hstep]
    rfl
  | case4 d s c tail htext d' rest hstep ih =>
    have hlength := Draft.length_step_le hstep
    rw [Slice.length_drop] at hlength
    have hpos : 0 < s.length := by simp [Slice.length, htext]
    have hitem := Draft.readsFrom_step (d := d) (c := c) (s := s.drop 1) rfl
    rw [hstep] at hitem
    have hstart : s.start < rest.start := hitem.1
    rw [bracket, htext]
    simp only
    rw [bracketItem_eq (Nat.le_succ _), hstep]
    simp only [BracketStep.rest] at hlength
    simp only [ofExcept_ok]
    rw [if_pos (by omega)]
    exact ih (by omega) rest.start_le_stop

/-! ## Tokens -/

section Tokens

variable (input : List Char)

/-- What is left of the text from a position on. A position behind the text is one at its end. -/
def seek (position : Nat) : Slice :=
  ⟨min position input.length, input.drop (min position input.length)⟩

/-- Reads an escape, given the slice from its backslash on. -/
def escaped (s : Slice) : Scan Fault (Token × Slice) :=
  let digits := (s.text.drop 1).takeWhile Char.isDigit
  if digits.isEmpty then do
    match ← escape s.start (s.drop 1) with
    | none => fail (.located .loneBackslash s.start 1)
    | some (.digits, rest) => return (.oneOf CharSet.digits, rest)
    | some (.wordCharacters, rest) => return (.oneOf CharSet.wordCharacters, rest)
    | some (.character c, rest) => return (.character c, rest)
  else return (.reference digits, s.drop (digits.length + 1))

/-- Reads a bracket expression, given the slice from its bracket on. -/
def set (s : Slice) : Scan Fault (Token × Slice) := do
  let (set, rest) ← bracket s.start .start (s.drop 1)
  return (.oneOf set, rest)

/-- Reads a repeat count, given the slice from its brace on. -/
def repetition (s : Slice) : Scan Fault (Token × Slice) :=
  let body := (s.text.drop 1).takeWhile (· != '\x7d')
  if s.length ≤ body.length + 1 then do
    let length ← difference s.stop s.start
    fail (.located .unterminatedRepeat s.start length)
  else do
    let rest := s.drop (body.length + 2)
    let length ← difference rest.start s.start
    match RepeatCount.ofText body with
    | .ok count => return (.repetition count, rest)
    | .error cause => fail (.located cause s.start length)

/-- Reads a group, given the slice from its parenthesis on. -/
def group (s : Slice) : Scan Fault (Token × Slice) := do
  match ← closing 0 false s.start s.text with
  | none =>
    let length ← difference input.length s.start
    fail (.located .unterminatedGroup s.start length)
  | some close =>
    let body ← slice input (s.start + 1) close
    return (.group body, seek input (close + 1))

/-- Reads the arguments of a call with the given name, given the slice from the dollar sign on. -/
def arguments (name : List Char) (s : Slice) : Scan Fault (Token × Slice) := do
  let opening := s.start + (name.length + 1)
  match ← closing 0 false opening (s.text.drop (name.length + 1)) with
  | none =>
    let length ← difference input.length s.start
    fail (.located .unterminatedCall s.start length)
  | some close =>
    match Builtin.ofName? (String.ofList name) with
    | none =>
      let length ← difference (opening + 1) s.start
      fail (.located (.unknownFunction (String.ofList name)) s.start length)
    | some f =>
      let body ← slice input (opening + 1) close
      return (.call f body, seek input (close + 1))

/-- Reads a call, given the slice from its dollar sign on. -/
def call (s : Slice) : Scan Fault (Token × Slice) :=
  let name := callName (s.text.drop 1)
  let opening := s.start + (name.length + 1)
  match s.text.drop (name.length + 1) with
  | [] => do
    let length ← difference opening s.start
    fail (.located .unterminatedCall s.start length)
  | c :: _ =>
    if c ≠ '(' then do
      let length ← difference opening s.start
      fail (.located .missingParenthesis s.start (length + 1))
    else if name.isEmpty then fail (.located .missingName s.start 1)
    else arguments input name s

/-- Reads the token that starts with the character `c`, given the slice from it on. -/
def tokenFrom (c : Char) (s : Slice) : Scan Fault (Token × Slice) :=
  match c with
  | '\\' => escaped s
  | '[' => set s
  | '(' => group input s
  | '\x7b' => repetition s
  | '$' => call input s
  | c => ofExcept (Token.readFrom c s)

/-- The first token of a slice and the slice behind it. An empty slice has no token. -/
def token (s : Slice) : Scan Fault (Option (Token × Slice)) :=
  match s.text with
  | [] => .ok none
  | c :: _ => do return some (← tokenFrom input c s)

variable {input}

/-- Going to a position leaves what stands behind it. -/
lemma seek_append {front back : List Char} (hinput : input = front ++ back) {position : Nat}
    (hposition : position = front.length) : seek input position = ⟨position, back⟩ := by
  have hmin : min position input.length = position := by
    rw [hinput, List.length_append]
    omega
  rw [seek, hmin, hinput, hposition, List.drop_left]

/-- From an open parenthesis on, the scan looks for the one that closes it. -/
lemma closing_parenthesis {ε : Type} (i : Nat) (tail : List Char) :
    (closing 0 false i ('(' :: tail) : Scan ε (Option Nat)) =
      .ok (closeIndex .plain 0 (i + 1) tail) := by
  have hopened : (closing 0 false i ('(' :: tail) : Scan ε (Option Nat)) =
      closing (0 + 1) false (i + 1) tail := by
    conv_lhs => unfold closing
    simp
  rw [hopened, closing_eq]
  rfl

/-- An escaped character is read as without guards. -/
lemma escaped_eq (s : Slice) : escaped s = ofExcept (Token.readEscaped s) := by
  simp only [escaped, Token.readEscaped]
  split
  · rw [escape_eq (Nat.le_succ s.start)]
    cases readEscape s.start (s.drop 1) with
    | error fault => rfl
    | ok read => obtain _ | ⟨_ | _ | c, rest⟩ := read <;> rfl
  · rfl

/-- A bracket expression is read as without guards. -/
lemma set_eq (s : Slice) : set s = ofExcept (Token.readSet s) := by
  rw [set, Token.readSet, bracket_eq _ _ (Nat.le_succ s.start)]
  cases readBracket s.start .start (s.drop 1) <;> rfl

/-- The characters dropped from a slice lie between both starts. -/
lemma difference_drop {ε : Type} (s : Slice) (n : Nat) :
    (difference (s.drop n).start s.start : Scan ε Nat) = .ok n := by
  have hle : s.start ≤ (s.drop n).start := Nat.le_add_right _ _
  rw [difference_of_le hle]
  exact congrArg Except.ok (Nat.add_sub_cancel_left _ _)

/-- The length of a slice lies between its start and its end. -/
lemma difference_stop {ε : Type} (s : Slice) :
    (difference s.stop s.start : Scan ε Nat) = .ok s.length := by
  rw [difference_of_le s.start_le_stop]
  exact congrArg Except.ok (Nat.add_sub_cancel_left _ _)

/-- A repeat count is read as without guards. -/
lemma repetition_eq (s : Slice) : repetition s = ofExcept (Token.readRepetition s) := by
  simp only [repetition, Token.readRepetition, difference_drop, difference_stop]
  split
  · rfl
  · simp only [bind, Except.bind]
    cases RepeatCount.ofText ((s.text.drop 1).takeWhile (· != '\x7d')) <;> rfl

/-- The body of a parenthesis that stands behind the first `n` characters, and the text behind
it. -/
lemma slice_body {s : Slice} (h : s.RestOf input) {n : Nat} {tail body rest : List Char}
    (hn : s.text.drop n = '(' :: tail)
    (hclose : closeParenthesis .plain 0 tail = some (body, rest)) :
    (slice input (s.start + n + 1) (s.start + n + 1 + body.length) : Scan Fault Slice) =
        .ok ⟨s.start + n + 1, body⟩ ∧
      seek input (s.start + n + 1 + body.length + 1) = s.drop (n + (body.length + 2)) := by
  obtain ⟨before, hinput, hstart⟩ := h
  have htail := closeParenthesis_append hclose
  have hlength : (s.text.take n).length = n := by
    have := congrArg List.length hn
    rw [List.length_drop, List.length_cons] at this
    rw [List.length_take]
    omega
  have htext : input = (before ++ s.text.take n ++ ['(']) ++ body ++ ')' :: rest := by
    rw [hinput, ← List.take_append_drop n s.text, hn, ← htail]
    simp [hlength]
  have hfront : s.start + n + 1 = (before ++ s.text.take n ++ ['(']).length := by
    rw [List.length_append, List.length_append, hlength, hstart, List.length_singleton]
  refine ⟨?_, ?_⟩
  · rw [htext]
    exact slice_append _ _ _ hfront (by rw [hfront])
  · have hseek : input = (before ++ s.text.take n ++ ['('] ++ body ++ [')']) ++ rest := by
      rw [htext]
      simp
    have hend : s.start + n + 1 + body.length + 1 =
        (before ++ s.text.take n ++ ['('] ++ body ++ [')']).length := by
      rw [List.length_append, List.length_append, ← hfront, List.length_singleton]
    have hrest : s.text.drop (n + (body.length + 2)) = rest := by
      rw [← List.drop_drop, hn, ← htail]
      simp
    rw [seek_append hseek hend, Slice.drop, hrest]
    simp only [Slice.mk.injEq, and_true]
    omega

/-- The length of what is left of a text is what is not in front of it. -/
lemma difference_input {s : Slice} (h : s.RestOf input) :
    (difference input.length s.start : Scan Fault Nat) = .ok s.length := by
  rw [← h.stop_eq, difference_stop]

/-- A group is read as without guards. -/
lemma group_eq {s : Slice} (h : s.RestOf input) {tail : List Char} (hs : s.text = '(' :: tail) :
    group input s = ofExcept (Token.readGroup s) := by
  rw [group, Token.readGroup, hs, closing_parenthesis, closeIndex, List.drop_one, List.tail_cons]
  cases hclose : closeParenthesis .plain 0 tail with
  | none =>
    simp only [Option.map_none, bind, Except.bind, difference_input h]
    rfl
  | some closed =>
    obtain ⟨body, rest⟩ := closed
    obtain ⟨hbody, hrest⟩ := slice_body (n := 0) h hs hclose
    simp only [Nat.add_zero, Nat.zero_add] at hbody hrest
    simp only [Option.map_some, bind, Except.bind, hbody, hrest]
    rfl

/-- The arguments of a call are read as without guards. -/
lemma arguments_eq {s : Slice} (h : s.RestOf input) {name tail : List Char}
    (hs : s.text.drop (name.length + 1) = '(' :: tail) :
    arguments input name s = ofExcept (Token.readArguments name s) := by
  have hdrop : s.text.drop (name.length + 2) = tail := by
    rw [show name.length + 2 = name.length + 1 + 1 from rfl, ← List.drop_drop, hs]
    rfl
  simp only [arguments, Token.readArguments, hs, closing_parenthesis, closeIndex, hdrop]
  cases hclose : closeParenthesis .plain 0 tail with
  | none =>
    simp only [Option.map_none, bind, Except.bind, difference_input h]
    rfl
  | some closed =>
    obtain ⟨body, rest⟩ := closed
    obtain ⟨hbody, hrest⟩ := slice_body h hs hclose
    have hlength : (difference (s.start + (name.length + 1) + 1) s.start : Scan Fault Nat) =
        .ok (name.length + 2) := by
      rw [difference_of_le (by omega)]
      exact congrArg Except.ok (by omega)
    simp only [Option.map_some, bind, Except.bind, hlength]
    cases Builtin.ofName? (String.ofList name) with
    | none => rfl
    | some f =>
      have hstart : s.start + (name.length + 1) + 1 = s.start + name.length + 2 := by omega
      have hbehind : name.length + 1 + (body.length + 2) = name.length + body.length + 3 := by omega
      rw [hstart] at hbody hrest
      rw [hbehind] at hrest
      simp only [hstart, hbody, hrest]
      rfl

/-- A call is read as without guards. -/
lemma call_eq {s : Slice} (h : s.RestOf input) : call input s = ofExcept (Token.readCall s) := by
  have hlength : (difference (s.start + ((callName (s.text.drop 1)).length + 1)) s.start :
      Scan Fault Nat) = .ok ((callName (s.text.drop 1)).length + 1) := by
    rw [difference_of_le (by omega)]
    exact congrArg Except.ok (by omega)
  simp only [call, Token.readCall, hlength]
  cases hback : s.text.drop ((callName (s.text.drop 1)).length + 1) with
  | nil => rfl
  | cons c back =>
    simp only
    split
    · rfl
    split
    · rfl
    · rename_i hc hname
      rw [not_not] at hc
      subst hc
      exact arguments_eq h hback

/-- A token is read as without guards, whatever its first character is. -/
lemma tokenFrom_eq {s : Slice} (h : s.RestOf input) {c : Char} {tail : List Char}
    (hs : s.text = c :: tail) : tokenFrom input c s = ofExcept (Token.readFrom c s) := by
  unfold tokenFrom
  split
  · exact escaped_eq s
  · exact set_eq s
  · exact group_eq h hs
  · exact repetition_eq s
  · exact call_eq h
  · rfl

/-- The guarded reader of tokens yields what the reader without guards does. -/
theorem token_eq {s : Slice} (h : s.RestOf input) : token input s = ofExcept (Token.next s) := by
  rw [token, Token.next]
  cases hs : s.text with
  | nil => rfl
  | cons c tail =>
    simp only
    rw [tokenFrom_eq h hs]
    cases Token.readFrom c s <;> rfl

end Tokens

end Scan

end PatternSampler
