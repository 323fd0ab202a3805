import PatternSampler.Proofs.Descent.Congruence
import PatternSampler.Proofs.Guarded.Agreement

set_option autoImplicit false

/-!
# Reading step by step

A text is read by a cursor with a state. Between two constructs the next character is emitted, or it
opens a construct and is passed. In a construct the rest of it is read and generated at once. A step
of either kind moves the cursor, so reading ends, and whatever is kept along the way stands inside
the text.

## Main definitions

* `Guarded.Opener` — a construct whose first character has been passed.
* `Guarded.Config` — a state of the reader, with the position of its cursor.
* `Guarded.step`, `Guarded.loop` — one step, and all steps up to the end of the text.
* `Guarded.Passes` — the states that reading comes by.

## Main results

* `Guarded.agree_step` — a step moves the cursor, and it evaluates and keeps parts inside the text.
* `Guarded.agree_loop` — so do all steps together.
* `Guarded.run_eq_loop` — the samples of a text are read step by step.
-/

namespace PatternSampler

/-- The part stands in the text, and is shorter by two characters at least. -/
def Slice.EnclosedIn (part : Slice) (text : List Char) : Prop :=
  part.IsPart (.whole text) ∧ part.length + 2 ≤ text.length

/-- A bracket expression has its end at least. -/
lemma Draft.Spelled.length_pos {d : Draft} {items : List Char} {set : CharSet}
    (h : d.Spelled items set) : 0 < items.length := by
  cases h <;> exact Nat.succ_pos _

namespace Guarded

/-- The parts that are kept in the node stand inside the text. -/
def Node.Within (text : List Char) (node : Node) : Prop :=
  ∀ part ∈ node.parts, part.EnclosedIn text

/-! ## States -/

/-- A construct whose first character has been passed. -/
inductive Opener
  | escape
  | bracket
  | count
  | group
  | call
deriving DecidableEq, Repr

namespace Opener

/-- The construct that a character opens. -/
def ofChar? (c : Char) : Option Opener :=
  match c with
  | '\\' => some .escape
  | '[' => some .bracket
  | '\x7b' => some .count
  | '(' => some .group
  | '$' => some .call
  | _ => none

/-- Reads a construct of the text `input`, given the slice from its first character on. -/
def read (input : List Char) : Opener → Slice → Scan Fault (Token × Slice)
  | escape => Scan.escaped
  | bracket => Scan.set
  | count => Scan.repetition
  | group => Scan.group input
  | call => Scan.call input

end Opener

/-- A state of the reader. -/
structure Config where
  /-- The construct whose first character has been passed, if the cursor stands in one. -/
  opened : Option Opener
  /-- What is left of the text from the start of this construct on. -/
  rest : Slice
  /-- The construct generated last. -/
  last : Option Emitted
  samples : List Sample

namespace Config

/-- The state in front of a text. -/
def start (text : List Char) : Config := ⟨none, .whole text, none, []⟩

/-- Where the cursor stands. -/
def position (c : Config) : Nat := c.rest.start + if c.opened.isSome then 1 else 0

end Config

/-- What is read in one step. -/
inductive Lexed
  /-- Nothing is left of the text. -/
  | finished
  /-- The first character of a construct. -/
  | opened (opener : Opener)
  /-- A token, and what is left of the text behind it. -/
  | token (token : Token) (behind : Slice)

/-- A token with what is left behind it, or the end. -/
def Lexed.ofNext : Option (Token × Slice) → Lexed
  | none => finished
  | some (t, behind) => token t behind

/-- Reads up to the next state. -/
def Config.lex (text : List Char) (c : Config) : Scan Fault Lexed :=
  match c.opened with
  | some opener => do
    let (token, behind) ← opener.read text c.rest
    return .token token behind
  | none =>
    match c.rest.text with
    | [] => return .finished
    | first :: _ =>
      match Opener.ofChar? first with
      | some opener => return .opened opener
      | none => do
        let (token, behind) ← Scan.ofExcept (Token.readFrom first c.rest)
        return .token token behind

section Steps

variable (stream : WordStream) (eval : Slice → Guarded (List Sample)) (text : List Char)

/-- One step of the reader, which generates nodes by `generate`. Behind the end of the text there is
none. -/
def stepBy (generate : Node → Guarded Sample) (c : Config) : Guarded (Option Config) := do
  match ← ofScan (c.lex text) with
  | .finished => return none
  | .opened opener => return some { c with opened := some opener }
  | .token token behind =>
    let length ← ofScan (.difference behind.start c.rest.start)
    let (last, s) ← produce stream eval generate c.last ⟨c.rest.start, length⟩ token
    return some ⟨none, behind, some last, c.samples ++ [s]⟩

/-- One step of the reader. -/
def step (c : Config) : Guarded (Option Config) :=
  stepBy stream eval text (Node.generate stream eval) c

/-- All steps from a state on. A step that does not move the cursor would go on for ever. -/
def loop (c : Config) : Guarded (List Sample) := do
  match ← step stream eval text c with
  | none => return c.samples
  | some next =>
    if c.position < next.position ∧ next.position ≤ text.length then loop next else panic
termination_by text.length - c.position

/-- The states that reading a text comes by. -/
inductive Passes : Config → Prop
  | start : Passes (.start text)
  | step {c next : Config} {ctx ctx' : Context} (h : Passes c)
      (hstep : step stream eval text c ctx = .ok (some next) ctx') : Passes next

end Steps

/-! ## Sound states -/

/-- The state is one of the reader of a text. -/
structure Config.Sound (text : List Char) (c : Config) : Prop where
  restOf : c.rest.RestOf text
  /-- The construct at the cursor is the one that its first character opens. -/
  opened : ∀ opener ∈ c.opened, ∃ first tail, c.rest.text = first :: tail ∧
    Opener.ofChar? first = some opener
  within : ∀ emitted ∈ c.last, emitted.node.Within text

/-- In front of the text the reader is in a sound state. -/
lemma Config.sound_start (text : List Char) : (Config.start text).Sound text :=
  ⟨.whole text, nofun, nofun⟩

/-- The state behind a token is sound, if the node of the token is. -/
lemma Config.sound_behind {text : List Char} {behind : Slice} {last : Emitted}
    (samples : List Sample) (hrest : behind.RestOf text) (hwithin : last.node.Within text) :
    Config.Sound text ⟨none, behind, some last, samples⟩ := by
  refine ⟨hrest, by simp, ?_⟩
  rintro _ ⟨⟩
  exact hwithin

/-- A construct whose first character has been passed leaves a sound state sound. -/
lemma Config.Sound.pass {text : List Char} {c : Config} {opener : Opener} {first : Char}
    {tail : List Char} (hc : c.Sound text) (hs : c.rest.text = first :: tail)
    (hopener : Opener.ofChar? first = some opener) :
    Config.Sound text { c with opened := some opener } := by
  refine ⟨hc.restOf, ?_, hc.within⟩
  rintro _ ⟨⟩
  exact ⟨first, tail, hs, hopener⟩

section Lexing

variable {text : List Char} {c : Config} {s rest : Slice} {token : Token}

/-- A token that starts with an opening character is read as what this character opens. -/
lemma tokenFrom_of_opener {first : Char} {opener : Opener} (h : Opener.ofChar? first = some opener)
    (s : Slice) : Scan.tokenFrom text first s = opener.read text s := by
  unfold Opener.ofChar? at h
  split at h <;> cases h <;> rfl

/-- A token of a single character opens nothing. -/
lemma length_of_opener {first : Char} {opener : Opener} {tail : List Char}
    (hopener : Opener.ofChar? first = some opener) (hs : s.text = first :: tail)
    (h : Token.next s = .ok (some (token, rest))) : s.start + 2 ≤ rest.start := by
  obtain ⟨spelled, hspelled, hstarts⟩ := Token.next_spelled h
  have htext := hstarts.text_eq
  rw [hstarts.start_eq]
  rw [hs] at htext
  cases hspelled with
  | literal hc =>
    obtain ⟨rfl, -⟩ := List.cons.inj htext
    unfold Opener.ofChar? at hopener
    split at hopener <;> cases hopener <;> cases hc
  | escape he =>
    have := he.length_pos
    simp only [List.length_cons]
    omega
  | reference hne =>
    have := List.length_pos_of_ne_nil hne
    simp only [List.length_cons]
    omega
  | oneOf hitems =>
    have := hitems.length_pos
    simp only [List.length_cons]
    omega
  | repetition | group | call =>
    simp only [List.length_cons, List.length_append]
    omega

/-- In a sound state the first character of a construct is passed, or else a token is read. -/
lemma Config.Sound.lex_cases (hc : c.Sound text) :
    (c.opened = none ∧ ∃ first tail opener, c.rest.text = first :: tail ∧
      Opener.ofChar? first = some opener ∧ c.lex text = .ok (.opened opener)) ∨
    c.lex text = .ofExcept ((Token.next c.rest).map Lexed.ofNext) := by
  rw [Config.lex]
  cases hopened : c.opened with
  | some opener =>
    obtain ⟨first, tail, hs, hopener⟩ := hc.opened opener hopened
    refine .inr ?_
    dsimp only
    rw [← tokenFrom_of_opener hopener, Scan.tokenFrom_eq hc.restOf hs, Token.next, hs]
    dsimp only
    cases Token.readFrom first c.rest <;> rfl
  | none =>
    dsimp only
    cases hs : c.rest.text with
    | nil =>
      refine .inr ?_
      rw [Token.next, hs]
      rfl
    | cons first tail =>
      cases hopener : Opener.ofChar? first with
      | some opener =>
        simp only [hopener]
        exact .inl ⟨trivial, first, tail, opener, rfl, hopener, rfl⟩
      | none =>
        refine .inr ?_
        rw [Token.next, hs]
        simp only [hopener]
        cases Token.readFrom first c.rest <;> rfl

/-- A token behind the cursor ends further on in the text. -/
lemma Config.Sound.position_lt (hc : c.Sound text)
    (h : Token.next c.rest = .ok (some (token, rest))) :
    c.position < rest.start ∧ rest.start ≤ text.length ∧ rest.RestOf text := by
  obtain ⟨spelled, -, hstarts⟩ := Token.next_spelled h
  have hrest := hc.restOf.of_starts hstarts
  have hstop := hrest.stop_eq
  have hshorter := (Token.room_next h).2
  have hstart := hstarts.start_eq
  have hlength := hstarts.length_eq
  refine ⟨?_, by rw [← hstop]; exact rest.start_le_stop, hrest⟩
  rw [Config.position]
  cases hstate : c.opened with
  | none =>
    simp only [Option.isSome_none, Bool.false_eq_true, if_false]
    omega
  | some opener =>
    obtain ⟨first, tail, hs, hopener⟩ := hc.opened opener hstate
    have := length_of_opener hopener hs h
    simp only [Option.isSome_some, if_true]
    omega

/-- A token that a step reads is the next one of the text. -/
lemma Config.Sound.next_of_lex (hc : c.Sound text) (h : c.lex text = .ok (.token token rest)) :
    Token.next c.rest = .ok (some (token, rest)) := by
  rcases hc.lex_cases with ⟨-, _, _, _, -, -, hlex⟩ | hlex
  · rw [hlex] at h
    cases h
  · rw [hlex] at h
    cases hnext : Token.next c.rest with
    | error fault =>
      rw [hnext] at h
      cases h
    | ok read =>
      rw [hnext] at h
      cases read with
      | none => cases h
      | some read =>
        cases h
        rfl

/-- A part of a token stands inside the text, and so does what was kept in front of the token. -/
lemma Config.Sound.enclosedIn (hc : c.Sound text)
    (h : Token.next c.rest = .ok (some (token, rest))) {part : Slice}
    (hpart : Reaches c.last token part) : part.EnclosedIn text := by
  rcases hpart with ⟨emitted, hlast, hpart⟩ | ⟨inner, hinner, hpart⟩
  · exact hc.within emitted hlast part hpart
  · obtain ⟨hin, hfront, hback⟩ := Token.inner_isPart h hinner
    obtain ⟨spelled, -, hstarts⟩ := Token.next_spelled h
    have hstop := (hc.restOf.of_starts hstarts).stop_eq
    have hbehind := rest.start_le_stop
    have hlength := hpart.length_le
    have hinnerStop : inner.stop = inner.start + inner.length := rfl
    exact ⟨hpart.trans (hin.trans hc.restOf.isPart), by omega⟩

end Lexing

/-! ## Steps -/

section Steps

variable {F : Frame} {stream : WordStream} {eval eval' : Slice → Guarded (List Sample)}
  {text : List Char} {c : Config}

/-- The state behind a step: it is sound, and the cursor has moved. -/
structure Config.Follows (text : List Char) (c next : Config) : Prop where
  sound : next.Sound text
  position_lt : c.position < next.position
  position_le : next.position ≤ text.length

/-- A step moves the cursor, and it evaluates and keeps parts inside the text only. -/
theorem agree_step (hc : c.Sound text)
    (h : ∀ part : Slice, part.EnclosedIn text → PartAgrees F eval eval' part) :
    Agree F (step stream eval text c) (step stream eval' text c) fun next =>
      ∀ next' ∈ next, c.Follows text next' := by
  unfold step stepBy
  rcases hc.lex_cases with ⟨hopened, first, tail, opener, hs, hopener, hlex⟩ | hlex
  · rw [hlex]
    refine agree_pure ?_
    rintro _ ⟨⟩
    have hstop := hc.restOf.stop_eq
    have hlength : c.rest.stop = c.rest.start + c.rest.length := rfl
    rw [Slice.length, hs, List.length_cons] at hlength
    refine ⟨hc.pass hs hopener, ?_, ?_⟩
    · simp [Config.position, hopened]
    · simp only [Config.position, Option.isSome_some, if_true]
      omega
  · rw [hlex]
    cases hnext : Token.next c.rest with
    | error fault => exact agree_fail.bind (P := fun _ => False) fun _ => False.elim
    | ok read =>
      cases read with
      | none => exact agree_pure (by simp)
      | some read =>
        obtain ⟨token, behind⟩ := read
        obtain ⟨hlt, hle, hrest⟩ := hc.position_lt hnext
        have hparts : ∀ part, Reaches c.last token part → PartAgrees F eval eval' part :=
          fun part hpart => h part (hc.enclosedIn hnext hpart)
        have hstart : c.rest.start ≤ c.position := Nat.le_add_right _ _
        show Agree F (ofScan (.difference behind.start c.rest.start) >>= _)
          (ofScan (.difference behind.start c.rest.start) >>= _) _
        rw [difference_bind (by omega), difference_bind (by omega)]
        refine (agree_produce _ hparts).bind ?_
        rintro ⟨last, s⟩ hkept
        refine agree_pure ?_
        rintro _ ⟨⟩
        refine ⟨Config.sound_behind _ hrest fun part hpart =>
          hc.enclosedIn hnext (hkept part hpart), ?_, ?_⟩
        · simpa [Config.position] using hlt
        · simpa [Config.position] using hle

/-- Behind a step the state is sound again, and the cursor has moved. -/
lemma yields_step (stream : WordStream) (eval : Slice → Guarded (List Sample))
    (hc : c.Sound text) : Yields (step stream eval text c) fun next =>
      ∀ next' ∈ next, c.Follows text next' :=
  agree_step hc fun part _ => yields_true (eval part)

/-- The state behind a step of a good run follows on the state in front of it. -/
lemma follows_of_step {next : Config} {ctx ctx' : Context} (hc : c.Sound text)
    (hstep : step stream eval text c ctx = .ok (some next) ctx') : c.Follows text next :=
  (yields_step stream eval hc).of_eq_ok hstep next rfl

/-- A node that is built in a step keeps parts inside the text only, also if it cannot be
generated. -/
lemma within_of_build {token : Token} {behind : Slice} {span : Span} {node : Node}
    {ctx ctx' : Context} (hc : c.Sound text) (hlex : c.lex text = .ok (.token token behind))
    (hbuild : build eval span token ctx = .ok node ctx') : node.Within text := by
  have hnode := (yields_build eval span token).of_eq_ok hbuild
  exact fun part hpart => hc.enclosedIn (hc.next_of_lex hlex) (.inr (hnode.isPart part hpart))

/-- The states that reading comes by are sound. -/
lemma Passes.sound (h : Passes stream eval text c) : c.Sound text := by
  induction h with
  | start => exact Config.sound_start text
  | step _ hstep ih => exact (follows_of_step ih hstep).sound

/-! ## All steps -/

/-- The steps from a state on evaluate parts inside the text only.

**Proof sketch.** By induction on the number of characters behind the cursor. -/
theorem agree_loop (hc : c.Sound text)
    (h : ∀ part : Slice, part.EnclosedIn text → PartAgrees F eval eval' part) :
    Agree F (loop stream eval text c) (loop stream eval' text c) fun _ => True := by
  induction hn : text.length - c.position using Nat.strong_induction_on generalizing c with
  | _ n ih =>
    rw [loop, loop]
    refine (agree_step hc h).bind fun next hnext => ?_
    cases next with
    | none => exact agree_pure trivial
    | some next =>
      obtain ⟨hsound, hlt, hle⟩ := hnext next rfl
      simp only [if_pos (And.intro hlt hle)]
      exact ih _ (by omega) hsound rfl

/-- In a sound state the steps go on without the guard. -/
lemma loop_eq (hc : c.Sound text) :
    loop stream eval text c = step stream eval text c >>= fun next =>
      match next with
      | none => return c.samples
      | some next => loop stream eval text next := by
  rw [loop]
  refine (yields_step stream eval hc).bind_congr fun next hnext => ?_
  cases next with
  | none => rfl
  | some next =>
    obtain ⟨-, hlt, hle⟩ := hnext next rfl
    simp only [if_pos (And.intro hlt hle)]

/-- A token is read as in one step, if what is left behind it is read step by step. -/
lemma onward_eq_loop_of_lex (hc : c.Sound text)
    (hlex : c.lex text = .ofExcept ((Token.next c.rest).map Lexed.ofNext))
    (hbehind : ∀ behind last samples, behind.length < c.rest.length →
      Config.Sound text ⟨none, behind, some last, samples⟩ →
      onward stream eval text behind (some (last.last stream eval)) samples =
        loop stream eval text ⟨none, behind, some last, samples⟩) :
    onward stream eval text c.rest (c.last.map (Emitted.last stream eval)) c.samples =
      loop stream eval text c := by
  rw [onward, Scan.token_eq hc.restOf, loop_eq hc, step, stepBy, hlex]
  cases hnext : Token.next c.rest with
  | error fault => rfl
  | ok read =>
    cases read with
    | none => rfl
    | some read =>
      obtain ⟨token, behind⟩ := read
      obtain ⟨hlt, hle, hrest⟩ := hc.position_lt hnext
      have hshorter := (Token.room_next hnext).2
      have hstart : c.rest.start ≤ c.position := Nat.le_add_right _ _
      simp only [Except.map, Lexed.ofNext, Scan.ofExcept_ok, ofScan_ok, pure_bind, bind_assoc]
      rw [difference_bind (by omega), difference_bind (by omega), advance_eq_produce,
        bind_map_left]
      refine (yields_produce stream eval c.last _ token).bind_congr fun produced hparts => ?_
      obtain ⟨last, s⟩ := produced
      have hsound := Config.sound_behind (c.samples ++ [s]) hrest fun part hpart =>
        hc.enclosedIn hnext (hparts part hpart)
      simp only [Prod.map_apply, id_eq, if_pos hshorter]
      exact hbehind behind last _ hshorter hsound

/-- Reading token by token is reading step by step: two steps for a construct that is opened, and
one for any other character.

**Proof sketch.** By induction on the length of what is left of the text. -/
lemma onward_eq_loop (hc : c.Sound text) :
    onward stream eval text c.rest (c.last.map (Emitted.last stream eval)) c.samples =
      loop stream eval text c := by
  induction hn : c.rest.length using Nat.strong_induction_on generalizing c with
  | _ n ih =>
    have hbehind : ∀ behind last samples, behind.length < c.rest.length →
        Config.Sound text ⟨none, behind, some last, samples⟩ →
        onward stream eval text behind (some (last.last stream eval)) samples =
          loop stream eval text ⟨none, behind, some last, samples⟩ :=
      fun behind last samples hshorter hsound => ih behind.length (hn ▸ hshorter) hsound rfl
    rcases hc.lex_cases with ⟨-, first, tail, opener, hs, hopener, hlex⟩ | hlex
    · have hopen : loop stream eval text c =
          loop stream eval text { c with opened := some opener } := by
        rw [loop_eq hc, step, stepBy, hlex]
        rfl
      have hpassed := hc.pass hs hopener
      rw [hopen]
      refine onward_eq_loop_of_lex hpassed (hpassed.lex_cases.resolve_left ?_) hbehind
      rintro ⟨⟨⟩, -⟩
    · exact onward_eq_loop_of_lex hc hlex hbehind

/-- Evaluating a part runs the text of the part. -/
lemma evaluate_congr {f g : List Char → Guarded (List Sample)} {part : Slice}
    (h : f part.text = g part.text) : evaluate f part = evaluate g part := by
  funext ctx
  simp only [evaluate, h]

/-- The steps from a state on run texts of parts inside the text only. -/
lemma loop_congr {f g : List Char → Guarded (List Sample)} (hc : c.Sound text)
    (h : ∀ part : Slice, part.EnclosedIn text → f part.text = g part.text) :
    loop stream (evaluate f) text c = loop stream (evaluate g) text c := by
  funext ctx
  refine (agree_loop hc (fun part hpart => ?_) ctx (Frame.holds_any ctx)).1
  rw [PartAgrees, evaluate_congr (h part hpart)]
  exact yields_true _

/-- The samples of a text are read step by step. No part is as long as the text, so its length needs
no guard. -/
theorem run_eq_loop (stream : WordStream) (text : List Char) :
    run stream text = loop stream (evaluate (run stream)) text (.start text) := by
  rw [run]
  refine (onward_eq_loop (Config.sound_start text)).trans ?_
  refine loop_congr (Config.sound_start text) fun part hpart => if_pos ?_
  have hshorter : part.text.length + 2 ≤ text.length := hpart.2
  omega

end Steps

end Guarded

end PatternSampler
