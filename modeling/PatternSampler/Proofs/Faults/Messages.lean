import PatternSampler.Proofs.Faults.Named

set_option autoImplicit false

/-!
# What messages name

The message of an error quotes the construct that is at fault, and the error underlines just that
construct in the pattern. Here both are read off the error alone: a message that is worded like one
that names a construct can only come from the mistake that names it.

## Main definitions

* `Mention` — the constructs that messages name, with `Mention.heading`, how such a message
  starts.
* `PatternError.marked` — what an error underlines.
* `PatternError.Names` — an error underlines what its message names.

## Main results

* `Cause.mention?_of_messages` — the wording of a message says which construct it names.
* `Fault.names_toError` — a fault that names a construct is reported by an error that does.
-/

namespace PatternSampler

/-! ## Headings -/

/-- The constructs that messages name. -/
inductive Mention
  | unmatched
  | unexpected
  | unterminated
  | escape
  | reference
  | set
  | function
deriving DecidableEq

namespace Mention

/-- All of them. -/
def all : List Mention :=
  [unmatched, unexpected, unterminated, escape, reference, set, function]

/-- How a message starts that names a construct. -/
def heading : Mention → String
  | unmatched => "unmatched "
  | unexpected => "unexpected '"
  | unterminated => "unterminated '"
  | escape => "invalid unicode escape "
  | reference => "invalid group id "
  | set => "invalid character class \""
  | function => "invalid function "

end Mention

namespace Cause

/-- The construct that the message about a mistake names. -/
def mention? : Cause → Option Mention
  | unmatched _ => some .unmatched
  | unbalanced (.unexpected _ _) => some .unexpected
  | unbalanced (.unterminated _ _) => some .unterminated
  | invalidEscape _ => some .escape
  | invalidReference _ => some .reference
  | unknownSet _ => some .set
  | unknownFunction _ => some .function
  | _ => none

/-- How the message about a mistake starts. -/
def heading : Cause → String
  | unmatched _ => Mention.unmatched.heading
  | unbalanced (.unexpected _ _) => Mention.unexpected.heading
  | unbalanced (.unterminated _ _) => Mention.unterminated.heading
  | invalidEscape _ => Mention.escape.heading
  | invalidReference _ => Mention.reference.heading
  | unknownSet _ => Mention.set.heading
  | unknownFunction _ => Mention.function.heading
  | forbiddenInBracket _ => "'"
  | invalidNumber _ => "invalid number "
  | reversedRepeat _ _ => "invalid repeat range \x7b"
  | invalidWordCount _ => "invalid word count "
  | reversedYears _ _ => "end year "
  | yearsOutOfRange _ _ => "year out of range "
  | transform _ _ => ""
  | cause => cause.message

/-- The bytes of a text. Unlike its characters they can be computed one by one. -/
def octets (text : String) : List UInt8 := text.toByteArray.data.toList

/-- The bytes of two texts in a row are those of one behind those of the other. -/
lemma octets_append (a b : String) : octets (a ++ b) = octets a ++ octets b := by
  simp [octets]

/-- A text that starts with another one does so with more text behind it. -/
lemma octets_prefix_append {text start : String} (h : octets start <+: octets text)
    (rest : String) : octets start <+: octets (text ++ rest) := by
  rw [octets_append]
  exact h.trans (List.prefix_append _ _)

/-- The message about a mistake starts with its heading, unless a transform has failed. -/
lemma heading_prefix_message {cause : Cause} (h : ∀ t e, cause ≠ transform t e) :
    octets cause.heading <+: octets cause.message := by
  have hone (a b : String) : octets a <+: octets (a ++ b) :=
    octets_prefix_append List.prefix_rfl b
  have htwo (a b c : String) : octets a <+: octets (a ++ b ++ c) :=
    octets_prefix_append (hone a b) c
  have hthree (a b c d : String) : octets a <+: octets (a ++ b ++ c ++ d) :=
    octets_prefix_append (htwo a b c) d
  cases cause with
  | transform t e => exact absurd rfl (h t e)
  | unbalanced imbalance => cases imbalance <;> exact htwo _ _ _
  | unmatched | invalidEscape | invalidReference | unknownFunction | invalidNumber
  | invalidWordCount => exact hone _ _
  | unknownSet => exact htwo _ _ _
  | forbiddenInBracket | reversedYears | yearsOutOfRange => exact hthree _ _ _ _
  | reversedRepeat => exact octets_prefix_append (hthree _ _ _ _) _
  | _ => exact List.prefix_rfl

/-- A message that starts like one that names a construct is one. -/
lemma mention?_of_prefix_message {cause : Cause} (h : ∀ t e, cause ≠ transform t e) {k : Mention}
    (hmessage : octets k.heading <+: octets cause.message) : cause.mention? = some k := by
  have hcomparable := List.prefix_or_prefix_of_prefix hmessage (heading_prefix_message h)
  clear hmessage
  revert k
  suffices ∀ k ∈ Mention.all, octets k.heading <+: octets cause.heading ∨
      octets cause.heading <+: octets k.heading → cause.mention? = some k from
    fun {k} => this k (by cases k <;> decide)
  cases cause with
  | transform t e => exact absurd rfl (h t e)
  | unbalanced imbalance =>
    cases imbalance
    all_goals
      simp only [heading, mention?]
      decide +kernel
  | randomArgument argument =>
    cases argument
    all_goals
      simp only [heading, mention?]
      decide +kernel
  | _ =>
    simp only [heading, mention?]
    decide +kernel

/-- The wording of a message says which construct it names. -/
theorem mention?_of_messages {cause : Cause} {k : Mention} {rest : String}
    (h : cause.messages = [k.heading ++ rest]) :
    cause.mention? = some k ∧ cause.message = k.heading ++ rest := by
  have hcause : ∀ t e, cause ≠ transform t e := by
    rintro t e rfl
    exact absurd (congrArg List.length h) (by simp [messages])
  have hmessages : cause.messages = [cause.message] := by
    cases cause with
    | transform t e => exact absurd rfl (hcause t e)
    | _ => rfl
  have hmessage : cause.message = k.heading ++ rest := by
    rw [hmessages] at h
    exact List.singleton_inj.1 h
  refine ⟨mention?_of_prefix_message hcause ?_, hmessage⟩
  rw [hmessage, octets_append]
  exact List.prefix_append _ _

/-- Behind the same heading the same quotation has the same text. -/
lemma eq_of_heading_quoted {k : Mention} {a b : String}
    (h : k.heading ++ quoted a = k.heading ++ quoted b) : a = b := by
  simpa only [quoted, String.append_assoc, String.append_right_inj, String.append_left_inj] using h

/-- Between the same heading and the same end stands the same text. -/
lemma eq_of_heading {k : Mention} {a b closing : String}
    (h : k.heading ++ a ++ closing = k.heading ++ b ++ closing) : a = b := by
  simpa only [String.append_assoc, String.append_right_inj, String.append_left_inj] using h

section

variable {cause : Cause} {c : Char} {name : String}

/-- Only an unmatched character has this message. -/
lemma eq_unmatched (h : cause.messages = ["unmatched " ++ quoted c.toString]) :
    cause = unmatched c := by
  obtain ⟨hmention, hmessage⟩ := mention?_of_messages (k := .unmatched) h
  unfold mention? at hmention
  split at hmention <;> cases hmention
  rw [String.singleton_inj.1 (eq_of_heading_quoted (k := .unmatched) hmessage)]

/-- Only a character that is not expected has this message. -/
lemma eq_unexpected (h : cause.messages = ["unexpected '" ++ c.toString ++ "'"]) :
    ∃ position, cause = unbalanced (.unexpected position c) := by
  rw [String.append_assoc] at h
  obtain ⟨hmention, hmessage⟩ := mention?_of_messages (k := .unexpected) h
  rw [← String.append_assoc] at hmessage
  unfold mention? at hmention
  split at hmention <;> cases hmention
  exact ⟨_, by rw [String.singleton_inj.1 (eq_of_heading (k := .unexpected) hmessage)]⟩

/-- Only a character that is not closed has this message. -/
lemma eq_unterminated (h : cause.messages = ["unterminated '" ++ c.toString ++ "'"]) :
    ∃ position, cause = unbalanced (.unterminated position c) := by
  rw [String.append_assoc] at h
  obtain ⟨hmention, hmessage⟩ := mention?_of_messages (k := .unterminated) h
  rw [← String.append_assoc] at hmessage
  unfold mention? at hmention
  split at hmention <;> cases hmention
  exact ⟨_, by rw [String.singleton_inj.1 (eq_of_heading (k := .unterminated) hmessage)]⟩

/-- Only an invalid escape has this message. -/
lemma eq_invalidEscape (h : cause.messages = ["invalid unicode escape " ++ quoted name]) :
    cause = invalidEscape name := by
  obtain ⟨hmention, hmessage⟩ := mention?_of_messages (k := .escape) h
  unfold mention? at hmention
  split at hmention <;> cases hmention
  rw [eq_of_heading_quoted (k := .escape) hmessage]

/-- Only a reference to an unknown group has this message. -/
lemma eq_invalidReference (h : cause.messages = ["invalid group id " ++ quoted name]) :
    cause = invalidReference name := by
  obtain ⟨hmention, hmessage⟩ := mention?_of_messages (k := .reference) h
  unfold mention? at hmention
  split at hmention <;> cases hmention
  rw [eq_of_heading_quoted (k := .reference) hmessage]

/-- Only an unknown class has this message. -/
lemma eq_unknownSet (h : cause.messages = ["invalid character class \"" ++ name ++ "\""]) :
    cause = unknownSet name := by
  rw [String.append_assoc] at h
  obtain ⟨hmention, hmessage⟩ := mention?_of_messages (k := .set) h
  rw [← String.append_assoc] at hmessage
  unfold mention? at hmention
  split at hmention <;> cases hmention
  rw [eq_of_heading (k := .set) hmessage]

/-- Only an unknown function has this message. -/
lemma eq_unknownFunction (h : cause.messages = ["invalid function " ++ quoted name]) :
    cause = unknownFunction name := by
  obtain ⟨hmention, hmessage⟩ := mention?_of_messages (k := .function) h
  unfold mention? at hmention
  split at hmention <;> cases hmention
  rw [eq_of_heading_quoted (k := .function) hmessage]

/-- Only a transform that fails has two messages, of which the first one is its name. -/
lemma eq_transform {message : String} (h : cause.messages = [name, message]) :
    ∃ t e, cause = transform t e ∧ t.name = name := by
  unfold messages at h
  split at h
  · exact ⟨_, _, rfl, (List.cons.inj h).1⟩
  · exact absurd (congrArg List.length h) (by simp)

end

end Cause

/-! ## Errors -/

namespace PatternError

/-- What an error underlines in the pattern. -/
def marked (pattern : List Char) (e : PatternError) : Option (List Char) :=
  e.position.map fun position => (pattern.drop position).take e.markLength

/-- What stands in front of the place of an error. -/
def inFront (pattern : List Char) (e : PatternError) : Option (List Char) :=
  e.position.map fun position => pattern.take position

/-- An error underlines the construct that its message names, and a transform that fails stands
behind its name. -/
structure Names (pattern : List Char) (e : PatternError) : Prop where
  unmatched (c : Char) (h : e.messages = ["unmatched " ++ Cause.quoted c.toString]) :
    e.marked pattern = some [c]
  unexpected (c : Char) (h : e.messages = ["unexpected '" ++ c.toString ++ "'"]) :
    e.marked pattern = some [c]
  unterminated (c : Char) (h : e.messages = ["unterminated '" ++ c.toString ++ "'"]) :
    e.marked pattern = some [c]
  escape (digits : String) (h : e.messages = ["invalid unicode escape " ++ Cause.quoted digits]) :
    e.marked pattern = some ('\\' :: 'u' :: digits.toList) ∨
      e.marked pattern = some ('\\' :: 'U' :: digits.toList)
  reference (digits : String) (h : e.messages = ["invalid group id " ++ Cause.quoted digits]) :
    e.marked pattern = some ('\\' :: digits.toList)
  set (name : String) (h : e.messages = ["invalid character class \"" ++ name ++ "\""]) :
    e.marked pattern = some (':' :: (name.toList ++ [':']))
  function (name : String) (h : e.messages = ["invalid function " ++ Cause.quoted name]) :
    e.marked pattern = some ('$' :: (name.toList ++ ['(']))
  transform (name message : String) (h : e.messages = [name, message]) :
    ∃ front, e.inFront pattern = some front ∧ '$' :: (name.toList ++ ['(']) <:+ front

end PatternError

namespace Fault

variable {pattern : List Char} {fault : Fault}

/-- What a fault spells is what its error underlines in the pattern. -/
lemma Spells.marked_toError {text : List Char} (h : fault.Spells (.whole pattern) text)
    (htext : text ≠ []) : fault.toError.marked pattern = some text := by
  obtain ⟨start, hplace, hpart⟩ := h
  have hlength : max text.length 1 = text.length := by
    have := List.length_pos_iff.2 htext
    omega
  rw [PatternError.marked, toError, hplace, Option.map_some, Option.map_some]
  simp only [hlength, hpart.take_drop.2]

/-- **Errors underline what their messages name.** -/
theorem names_toError (h : fault.NamedIn (.whole pattern)) : fault.toError.Names pattern := by
  obtain ⟨cause, place⟩ := fault
  constructor
  case unmatched =>
    intro c hmessages
    obtain rfl : cause = _ := Cause.eq_unmatched hmessages
    exact h.marked_toError (List.cons_ne_nil _ _)
  case unexpected =>
    intro c hmessages
    obtain ⟨position, rfl⟩ : ∃ position, cause = _ := Cause.eq_unexpected hmessages
    exact h.marked_toError (List.cons_ne_nil _ _)
  case unterminated =>
    intro c hmessages
    obtain ⟨position, rfl⟩ : ∃ position, cause = _ := Cause.eq_unterminated hmessages
    exact h.marked_toError (List.cons_ne_nil _ _)
  case escape =>
    intro digits hmessages
    obtain rfl : cause = _ := Cause.eq_invalidEscape hmessages
    exact h.imp (·.marked_toError (List.cons_ne_nil _ _))
      (·.marked_toError (List.cons_ne_nil _ _))
  case reference =>
    intro digits hmessages
    obtain rfl : cause = _ := Cause.eq_invalidReference hmessages
    exact h.marked_toError (List.cons_ne_nil _ _)
  case set =>
    intro name hmessages
    obtain rfl : cause = _ := Cause.eq_unknownSet hmessages
    exact h.marked_toError (List.cons_ne_nil _ _)
  case function =>
    intro name hmessages
    obtain rfl : cause = _ := Cause.eq_unknownFunction hmessages
    exact h.marked_toError (List.cons_ne_nil _ _)
  case transform =>
    intro name message hmessages
    obtain ⟨t, e, rfl, rfl⟩ : ∃ t e, cause = .transform t e ∧ t.name = name :=
      Cause.eq_transform hmessages
    obtain ⟨span, start, hplace, hspan, front, back, hpattern, hstart⟩ := h
    obtain rfl : place = some span := hplace
    simp only [Slice.whole, Nat.zero_add] at hpattern hstart
    refine ⟨front ++ '$' :: (t.name.toList ++ ['(']), ?_, List.suffix_append _ _⟩
    have hlength : span.start = (front ++ '$' :: (t.name.toList ++ ['('])).length := by
      simp [hspan, hstart, String.length_toList]
    rw [PatternError.inFront, toError, Option.map_some, Option.map_some, hpattern, hlength,
      List.take_left]

/-- A function that does not exist is underlined with its dollar sign and its parenthesis. -/
example : (within (.unknownFunction "f") ⟨1, 3⟩).toError.marked "a$f(b)".toList =
    some "$f(".toList := by
  decide +kernel

end Fault

end PatternSampler
