import PatternSampler.Proofs.Faults.Possible

set_option autoImplicit false

/-!
# The parts that patterns are read from

The patterns inside a construct are read from parts of its token. Whatever is to be known of them
follows from where these parts stand, so that no later argument goes through the tokens again.

## Main definitions

* `Slice.IsPart` — a slice is cut out of another one.
* `Token.inner?` — the part of a token that is a pattern itself, or a row of arguments.
* `Construct.arguments`, `Construct.bodies` — the arguments of a construct, and all patterns in it.

## Main results

* `Slice.isPart_of_mem_split` — the parts between separators are cut out of the slice.
* `Token.inner_isPart` — the inner part of a token stands between the ends of the token.
* `Construct.arguments_ofToken`, `Construct.bodies_ofToken` — the patterns in the construct of a
  token are read from parts of the inner part of the token.
-/

namespace PatternSampler

/-! ## Parts of slices -/

/-- The slice `part` is cut out of the slice `s`. -/
def Slice.IsPart (part s : Slice) : Prop :=
  ∃ front back, s.text = front ++ part.text ++ back ∧ part.start = s.start + front.length

namespace Slice.IsPart

variable {part mid s : Slice}

/-- A slice is a part of itself. -/
protected lemma refl (s : Slice) : s.IsPart s := ⟨[], [], by simp, rfl⟩

/-- A part of a part is a part. -/
protected lemma trans (h : part.IsPart mid) (h' : mid.IsPart s) : part.IsPart s := by
  obtain ⟨front, back, htext, hstart⟩ := h
  obtain ⟨front', back', htext', hstart'⟩ := h'
  refine ⟨front' ++ front, back ++ back', ?_, ?_⟩
  · rw [htext', htext]
    simp only [List.append_assoc]
  · rw [hstart, hstart', List.length_append, Nat.add_assoc]

/-- A part does not start in front of its slice. -/
lemma start_le (h : part.IsPart s) : s.start ≤ part.start := by
  obtain ⟨front, -, -, hstart⟩ := h
  omega

/-- A part does not stop behind its slice. -/
lemma stop_le (h : part.IsPart s) : part.stop ≤ s.stop := by
  obtain ⟨front, back, htext, hstart⟩ := h
  simp only [Slice.stop, Slice.length, htext, hstart, List.length_append]
  omega

/-- A part is not longer than its slice. -/
lemma length_le (h : part.IsPart s) : part.length ≤ s.length := by
  obtain ⟨front, back, htext, -⟩ := h
  simp only [Slice.length, htext, List.length_append]
  omega

/-- A part of what stands behind a character. -/
lemma cons {position : Nat} {c : Char} {text : List Char}
    (h : part.IsPart ⟨position + 1, text⟩) : part.IsPart ⟨position, c :: text⟩ :=
  h.trans ⟨[c], [], by simp, rfl⟩

end Slice.IsPart

/-- What stands in front of a separator and what stands behind it are parts of the text. -/
lemma isPart_of_splitFrom {separator : Char} {n : Nesting} {position : Nat}
    {text part : List Char} {later : List Slice}
    (h : splitFrom separator n position text = .ok (part, later)) :
    part <+: text ∧ ∀ s ∈ later, s.IsPart ⟨position, text⟩ := by
  induction text generalizing n position part later with
  | nil =>
    unfold splitFrom at h
    split at h <;> cases h
    exact ⟨List.prefix_refl [], by simp⟩
  | cons c rest ih =>
    unfold splitFrom at h
    split at h
    · split at h <;> cases h
      rename_i part later hrest
      obtain ⟨⟨back, hpart⟩, hlater⟩ := ih hrest
      refine ⟨List.nil_prefix, ?_⟩
      rw [List.forall_mem_cons]
      exact ⟨⟨[c], back, by simp [hpart], rfl⟩, fun s hs => (hlater s hs).cons⟩
    · split at h
      · split at h <;> cases h
        rename_i hrest
        obtain ⟨hpart, hlater⟩ := ih hrest
        exact ⟨List.cons_prefix_cons.2 ⟨rfl, hpart⟩, fun s hs => (hlater s hs).cons⟩
      · cases h

/-- The parts between separators are cut out of the slice. -/
theorem Slice.isPart_of_mem_split {separator : Char} {s part : Slice} {parts : List Slice}
    (h : s.split separator = .ok parts) (hpart : part ∈ parts) : part.IsPart s := by
  unfold Slice.split at h
  split at h <;> cases h
  rename_i first later hfrom
  obtain ⟨⟨back, hfirst⟩, hlater⟩ := isPart_of_splitFrom hfrom
  rcases List.mem_cons.1 hpart with rfl | hpart
  · exact ⟨[], back, by simp [hfirst], rfl⟩
  · exact hlater part hpart

/-- What a slice is split into are parts of it. -/
lemma isPart_of_mem_splitParts {separator : Char} {s part : Slice} {parts : List Slice}
    (h : splitParts separator s = .ok parts) (hpart : part ∈ parts) : part.IsPart s := by
  unfold splitParts at h
  split at h <;> cases h
  rename_i hsplit
  exact Slice.isPart_of_mem_split hsplit hpart

/-! ## The inner part of a token -/

/-- The part of a token that is a pattern itself, or a row of arguments. -/
def Token.inner? : Token → Option Slice
  | group body => some body
  | call _ arguments => some arguments
  | _ => none

/-- The inner part of a token stands between the ends of the token. -/
theorem Token.inner_isPart {s rest inner : Slice} {t : Token}
    (h : next s = .ok (some (t, rest))) (hinner : t.inner? = some inner) :
    inner.IsPart s ∧ s.start < inner.start ∧ inner.stop < rest.start := by
  obtain ⟨text, htext, hstarts⟩ := next_spelled h
  have hstart := hstarts.start_eq
  cases htext with
  | literal | reference | oneOf | repetition => cases hinner
  | @escape e => cases e <;> cases hinner
  | @group body =>
    cases hinner
    refine ⟨⟨['('], ')' :: rest.text, ?_, rfl⟩, Nat.lt_succ_self _, ?_⟩
    · simp [hstarts.text_eq]
    · simp only [List.length_cons, List.length_append, List.length_nil] at hstart
      simp only [Slice.stop, Slice.length]
      omega
  | @call name body =>
    cases hinner
    refine ⟨⟨'$' :: (name ++ ['(']), ')' :: rest.text, ?_, ?_⟩, ?_, ?_⟩
    · simp [hstarts.text_eq]
    · simp only [List.length_cons, List.length_append, List.length_nil]
      omega
    · show s.start < s.start + name.length + 2
      omega
    · simp only [List.length_cons, List.length_append, List.length_nil] at hstart
      simp only [Slice.stop, Slice.length]
      omega

/-- Repeat counts that are read have their bounds in order. -/
lemma valid_readCounts (product : Nat) (s : Slice) :
    ∀ count ∈ (readCounts product s).counts, count.Valid := by
  fun_induction readCounts product s with
  | case1 => simp
  | case2 product s count rest h hle later ih =>
    rw [List.forall_mem_cons]
    exact ⟨Token.valid_of_next h, ih⟩
  | case3 => simp

/-! ## The patterns in a construct -/

/-- The arguments of a construct. -/
def Construct.arguments : Construct → List Argument
  | .encode _ argument | .words argument | .shuffle argument | .optional argument => [argument]
  | .expand argument separator => [argument, separator]
  | .date first second third | .justify _ first second third => [first, second, third]
  | _ => []

/-- The patterns in a construct. -/
def Construct.bodies : Construct → List Pattern
  | .group _ body => [body]
  | .alternation _ branches => branches.bodies
  | c => c.arguments.map Argument.body

/-- The construct is read from a call. -/
def Construct.isCall : Construct → Bool
  | .character _ | .oneOf _ | .reference _ _ | .group _ _ | .alternation _ _ => false
  | _ => true

/-- A call makes a construct that is a call. -/
lemma Construct.isCall_ofToken {opened : Nat} {span : Span} {f : Builtin} {arguments : Slice}
    {c : Construct} (h : Construct.ofToken opened span (.call f arguments) = .ok c) :
    c.isCall = true := by
  cases f <;> simp only [Construct.ofToken] at h <;> (repeat' split at h) <;> cases h <;> rfl

/-- The argument is read from a part of `inner`, or it stands for a character that is left out. -/
def Argument.ReadIn (span : Span) (inner : Slice) (a : Argument) : Prop :=
  (∃ part opened, part.IsPart inner ∧ a = ⟨part.span, Pattern.ofSlice opened part⟩) ∨
    ∃ c, a = .ofChar span c

/-- The patterns of branches are read from the parts. -/
lemma Branches.bodies_ofSlices {opened : Nat} {first : Slice} {others : List Slice} :
    ∀ body ∈ (Branches.ofSlices opened first others).bodies,
      ∃ part ∈ first :: others, ∃ opened', body = Pattern.ofSlice opened' part := by
  induction others generalizing opened first with
  | nil =>
    rw [Branches.ofSlices, Branches.bodies, List.forall_mem_singleton]
    exact ⟨first, List.mem_singleton_self _, opened, rfl⟩
  | cons second rest ih =>
    rw [Branches.ofSlices, Branches.bodies, List.forall_mem_cons]
    refine ⟨⟨first, List.mem_cons_self, opened, rfl⟩, fun body hbody => ?_⟩
    obtain ⟨part, hpart, hread⟩ := ih body hbody
    exact ⟨part, List.mem_cons_of_mem _ hpart, hread⟩

/-- The arguments in the construct of a call are read from parts of what stands between its
parentheses. -/
theorem Construct.arguments_ofToken {opened : Nat} {span : Span} {t : Token} {c : Construct}
    (h : Construct.ofToken opened span t = .ok c) :
    ∀ a ∈ c.arguments, ∃ inner, t.inner? = some inner ∧ a.ReadIn span inner := by
  cases t with
  | character | oneOf | reference =>
    simp only [Construct.ofToken] at h
    cases h
    simp [Construct.arguments]
  | repetition =>
    simp only [Construct.ofToken] at h
    cases h
  | group body =>
    simp only [Construct.ofToken] at h
    split at h <;> cases h <;> simp [Construct.arguments]
  | call f arguments =>
    have hwhole : ∀ opened, Argument.ReadIn span arguments
        ⟨arguments.span, Pattern.ofSlice opened arguments⟩ := fun opened =>
      .inl ⟨arguments, opened, .refl _, rfl⟩
    have hpart : ∀ {parts : List Slice}, splitParts ',' arguments = .ok parts → ∀ part ∈ parts,
        ∀ opened, Argument.ReadIn span arguments ⟨part.span, Pattern.ofSlice opened part⟩ :=
      fun hparts part hmem opened =>
        .inl ⟨part, opened, isPart_of_mem_splitParts hparts hmem, rfl⟩
    have hchar : ∀ c, Argument.ReadIn span arguments (.ofChar span c) := fun c => .inr ⟨c, rfl⟩
    suffices ∀ a ∈ c.arguments, a.ReadIn span arguments from
      fun a ha => ⟨arguments, rfl, this a ha⟩
    cases f with
    | encode | shuffle | optional =>
      simp only [Construct.ofToken] at h
      cases h
      simpa only [Construct.arguments, List.forall_mem_singleton] using hwhole opened
    | byte =>
      simp only [Construct.ofToken] at h
      split at h <;> cases h
      simp [Construct.arguments]
    | words =>
      simp only [Construct.ofToken] at h
      split at h <;> cases h <;> simp only [Construct.arguments, List.forall_mem_singleton]
      · exact hchar '1'
      · exact hwhole opened
    | expand | date | justify =>
      simp only [Construct.ofToken] at h
      split at h
      · cases h
      all_goals
        rename_i hparts
        cases h
      all_goals
        simp only [Construct.arguments, List.forall_mem_cons]
        simp [hpart hparts, hchar]

/-- The patterns in the construct of a token are read from parts of the inner part of the token. -/
theorem Construct.bodies_ofToken {opened : Nat} {span : Span} {t : Token} {c : Construct}
    (h : Construct.ofToken opened span t = .ok c) :
    ∀ body ∈ c.bodies, (∃ inner part opened', t.inner? = some inner ∧ part.IsPart inner ∧
      body = Pattern.ofSlice opened' part) ∨ ∃ ch, body = .seq (.character ch) [] .done := by
  have harguments : ∀ body ∈ c.arguments.map Argument.body,
      (∃ inner part opened', t.inner? = some inner ∧ part.IsPart inner ∧
        body = Pattern.ofSlice opened' part) ∨ ∃ ch, body = .seq (.character ch) [] .done := by
    rw [List.forall_mem_map]
    intro a ha
    obtain ⟨inner, hinner, ⟨part, opened', hpart, rfl⟩ | ⟨ch, rfl⟩⟩ := arguments_ofToken h a ha
    · exact .inl ⟨inner, part, opened', hinner, hpart, rfl⟩
    · exact .inr ⟨ch, rfl⟩
  cases t with
  | group body =>
    simp only [Construct.ofToken] at h
    split at h
    · cases h
    · rename_i hparts
      have := roomOf_splitParts hparts
      simp at this
    · cases h
      rw [Construct.bodies, List.forall_mem_singleton]
      exact .inl ⟨body, body, opened + 1, rfl, .refl _, rfl⟩
    · rename_i first second rest hparts
      cases h
      intro inside hinside
      obtain ⟨part, hpart, opened', hread⟩ := Branches.bodies_ofSlices inside hinside
      exact .inl ⟨body, part, opened', rfl, isPart_of_mem_splitParts hparts hpart, hread⟩
  | character | oneOf | reference =>
    simp only [Construct.ofToken] at h
    cases h
    simp [Construct.bodies, Construct.arguments]
  | repetition =>
    simp only [Construct.ofToken] at h
    cases h
  | call f arguments =>
    have hcall := Construct.isCall_ofToken h
    cases c with
    | group | alternation => cases hcall
    | _ => exact harguments

end PatternSampler
