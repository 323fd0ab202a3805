import PatternSampler.Proofs.Reading.Enclosed
import PatternSampler.Proofs.Run.Append

set_option autoImplicit false

/-!
# Generating from texts in parentheses

A text in parentheses generates what the text itself generates, with plain characters around it. Its
mistakes are reported further on by the characters in front of it, whatever the number of
parentheses.

## Main definitions

* `encloseAll` — a text in several pairs of parentheses.

## Main results

* `Slice.sample_enclose` — the sample of an enclosed text.
* `walk_enclose` — an enclosed text, with all that a run reads and leaves behind.
-/

namespace PatternSampler

variable {text front back : List Char}

/-! ## One pair of parentheses -/

/-- The samples of plain characters. -/
def Sample.ofCharacters (text : List Char) : List Sample := text.map fun c => .fixed c.toString

/-- A row of characters is generated as it is. -/
lemma Pattern.samples_ofCharacters (stream : WordStream) (text : List Char) :
    (ofCharacters text).samples stream = pure (Sample.ofCharacters text) := by
  induction text with
  | nil => rfl
  | cons c text ih =>
    simp [ofCharacters, samples, Construct.prepare, extras, ih, Sample.ofCharacters]

/-- The text of a row of characters. -/
lemma Sample.text_ofCharacters (text : List Char) :
    (join (ofCharacters text)).text = String.ofList text := by
  induction text with
  | nil => rfl
  | cons c text ih =>
    have hcons : ofCharacters (c :: text) = [fixed c.toString] ++ ofCharacters text := rfl
    have hsingle : (fixed c.toString).text = String.ofList [c] := rfl
    rw [hcons, text_join_append, ih, text_join_singleton, hsingle, ← String.ofList_append,
      List.singleton_append]

/-- A row of characters carries no entropy. -/
lemma Sample.exact_ofCharacters (text : List Char) :
    (join (ofCharacters text)).entropy.exact = 0 := by
  rw [exact_join]
  refine List.sum_eq_zero fun x hx => ?_
  obtain ⟨s, hs, rfl⟩ := List.mem_map.1 hx
  obtain ⟨c, -, rfl⟩ := List.mem_map.1 hs
  exact Entropy.exact_zero

/-- A sample with plain characters around it. -/
def Sample.between (front back : List Char) (s : Sample) : Sample :=
  join (ofCharacters front ++ s :: ofCharacters back)

/-- The text with plain characters around it. -/
lemma Sample.text_between (front back : List Char) (s : Sample) :
    (s.between front back).text = String.ofList front ++ s.text ++ String.ofList back := by
  rw [between, ← List.singleton_append, text_join_append, text_join_append, text_join_singleton,
    text_ofCharacters, text_ofCharacters, String.append_assoc]

/-- Plain characters add no entropy. -/
lemma Sample.exact_between (front back : List Char) (s : Sample) :
    (s.between front back).entropy.exact = s.entropy.exact := by
  rw [between, ← List.singleton_append, exact_join_append, exact_join_append,
    exact_join_singleton, exact_ofCharacters, exact_ofCharacters, zero_add, add_zero]

/-- The sample of an enclosed text. -/
theorem Slice.sample_enclose (h : Enclosable text) (hfront : ∀ c ∈ front, IsPlain c)
    (hback : ∀ c ∈ back, IsPlain c) (stream : WordStream) (opened start : Nat) :
    (⟨start, enclose front back text⟩ : Slice).sample stream opened = do
      let s ← Run.shift (front.length + 1) ((⟨start, text⟩ : Slice).sample stream (opened + 1))
      Run.record (opened + 1) s.text
      return s.between front back := by
  have hmoved : (⟨start + front.length + 1, text⟩ : Slice) =
      (⟨start, text⟩ : Slice).shift (front.length + 1) := rfl
  rw [Slice.sample, Pattern.ofSlice_enclose h hfront hback, Pattern.samples_append, hmoved,
    Pattern.ofSlice_shift]
  simp [Pattern.samples_ofCharacters, Pattern.samples, Construct.prepare, extras,
    Pattern.samples_shift, Slice.sample, Sample.between]

/-- An enclosed text opens one more group. -/
lemma countGroups_enclose (h : Enclosable text) (hfront : ∀ c ∈ front, IsPlain c)
    (hback : ∀ c ∈ back, IsPlain c) :
    countGroups (enclose front back text) = 1 + countGroups text := by
  have hunbroken : (Pattern.ofSlice 0 ⟨0, front⟩).Unbroken := by
    rw [Pattern.ofSlice_of_isPlain hfront]
    exact Pattern.unbroken_ofCharacters front
  have hinner := (Token.opens_next (h.next_eq 0 back)).countGroups_eq
  simp only [Token.groups, countGroups_of_isPlain hback, Nat.add_zero] at hinner
  have happend := hunbroken.countGroups_append ('(' :: (text ++ ')' :: back))
  rw [countGroups_of_isPlain hfront, Nat.zero_add, hinner] at happend
  exact happend

/-! ## Along the text -/

/-- An enclosed text is generated as the text itself is with the counter one higher. -/
theorem sample_enclose_walk (h : Enclosable text) (hfront : ∀ c ∈ front, IsPlain c)
    (hback : ∀ c ∈ back, IsPlain c) (stream : WordStream) (start b : Nat) (p : Progress) :
    match Walk.sample (walk stream) ⟨start, text⟩ ⟨p, b + 1⟩ with
    | .ok s l => ∃ x, Walk.sample (walk stream) ⟨start, enclose front back text⟩ ⟨p, b⟩ =
          .ok x ⟨{ l.progress with groups := l.progress.groups.record (b + 1) s.text }, l.opened⟩ ∧
        x.text = String.ofList front ++ s.text ++ String.ofList back ∧
        x.entropy.exact = s.entropy.exact
    | .error fault l => ∃ fault' l', Walk.sample (walk stream) ⟨start, enclose front back text⟩
          ⟨p, b⟩ = .error fault' l' ∧ l'.progress = l.progress ∧
        fault'.toError =
          { fault.toError with
            position := fault.toError.position.map (· + (front.length + 1)) } := by
  have hinner := tracks_sample stream ⟨start, text⟩ (b + 1) p
  have houter := tracks_sample stream ⟨start, enclose front back text⟩ b p
  have hgroups : b + countGroups (enclose front back text) = b + 1 + countGroups text := by
    rw [countGroups_enclose h hfront hback, Nat.add_assoc]
  rw [Slice.sample_enclose h hfront hback] at houter
  simp only [hgroups, bind, EStateM.bind, Run.shift_apply] at houter
  cases hs : (⟨start, text⟩ : Slice).sample stream (b + 1) p with
  | ok s q =>
    rw [hs] at hinner houter
    obtain ⟨_, hinner, rfl⟩ := hinner
    obtain ⟨_, houter, rfl⟩ := houter
    rw [hinner]
    exact ⟨_, houter, Sample.text_between front back _, Sample.exact_between front back _⟩
  | error fault q =>
    rw [hs] at hinner houter
    obtain ⟨n, hinner⟩ := hinner
    obtain ⟨m, houter⟩ := houter
    rw [hinner]
    exact ⟨_, _, houter, rfl, Fault.toError_shift (front.length + 1) fault⟩

/-! ## Several pairs of parentheses -/

/-- The text in several pairs of parentheses, the outermost first, each with texts around it. -/
def encloseAll : (around : List (List Char × List Char)) → (text : List Char) → List Char
  | [], text => text
  | (front, back) :: inner, text => enclose front back (encloseAll inner text)

/-- What stands in front of a text in several pairs of parentheses. -/
def inFront (around : List (List Char × List Char)) : List Char :=
  around.flatMap fun (front, _) => front ++ ['(']

/-- Several pairs of parentheses begin with what stands in front of the text, and the text. -/
lemma inFront_append_prefix_encloseAll (around : List (List Char × List Char)) (text : List Char) :
    inFront around ++ text <+: encloseAll around text := by
  induction around with
  | nil => exact List.prefix_rfl
  | cons w around ih =>
    obtain ⟨front, back⟩ := w
    obtain ⟨rest, hrest⟩ := ih
    refine ⟨rest ++ ')' :: back, ?_⟩
    simp only [encloseAll, enclose, ← hrest, inFront, List.flatMap_cons, List.append_assoc,
      List.cons_append, List.nil_append]

/-- A text in several pairs of parentheses may be enclosed once more. -/
lemma Enclosable.encloseAll (h : Enclosable text) {around : List (List Char × List Char)}
    (haround : ∀ w ∈ around, (∀ c ∈ w.1, IsPlain c) ∧ ∀ c ∈ w.2, IsPlain c) :
    Enclosable (encloseAll around text) := by
  induction around with
  | nil => exact h
  | cons w around ih =>
    obtain ⟨hw, haround⟩ := List.forall_mem_cons.1 haround
    exact (ih haround).enclose hw.1 hw.2

/-- A text in several pairs of parentheses is generated as the text itself is with the counter
behind them. -/
theorem sample_encloseAll_walk (h : Enclosable text) {around : List (List Char × List Char)}
    (haround : ∀ w ∈ around, (∀ c ∈ w.1, IsPlain c) ∧ ∀ c ∈ w.2, IsPlain c)
    (stream : WordStream) (start b : Nat) (p : Progress) :
    match Walk.sample (walk stream) ⟨start, text⟩ ⟨p, b + around.length⟩ with
    | .ok s l => ∃ x l', Walk.sample (walk stream) ⟨start, encloseAll around text⟩ ⟨p, b⟩ =
          .ok x l' ∧ l'.progress.position = l.progress.position ∧
        x.entropy.exact = s.entropy.exact
    | .error fault l => ∃ fault' l', Walk.sample (walk stream) ⟨start, encloseAll around text⟩
          ⟨p, b⟩ = .error fault' l' ∧ l'.progress = l.progress ∧
        fault'.toError =
          { fault.toError with
            position := fault.toError.position.map (· + (inFront around).length) } := by
  induction around generalizing b with
  | nil =>
    simp only [List.length_nil, Nat.add_zero, encloseAll]
    cases Walk.sample (walk stream) ⟨start, text⟩ ⟨p, b⟩ with
    | ok s l => exact ⟨s, l, rfl, rfl, rfl⟩
    | error fault l =>
      refine ⟨fault, l, rfl, rfl, ?_⟩
      simp [inFront]
  | cons w around ih =>
    obtain ⟨⟨hfront, hback⟩, haround'⟩ := List.forall_mem_cons.1 haround
    have hcounter : b + (w :: around).length = b + 1 + around.length := by
      rw [List.length_cons]
      omega
    have hinner := ih haround' (b + 1)
    have hstep := sample_enclose_walk (h.encloseAll haround') hfront hback stream start b p
    rw [hcounter]
    cases hs : Walk.sample (walk stream) ⟨start, text⟩ ⟨p, b + 1 + around.length⟩ with
    | ok s l =>
      rw [hs] at hinner
      obtain ⟨x, l', hx, hposition, hentropy⟩ := hinner
      rw [hx] at hstep
      obtain ⟨x', hx', -, hentropy'⟩ := hstep
      exact ⟨x', _, hx', hposition, hentropy'.trans hentropy⟩
    | error fault l =>
      rw [hs] at hinner
      obtain ⟨fault', l', hfault', hprogress, herror⟩ := hinner
      rw [hfault'] at hstep
      obtain ⟨fault'', l'', hfault'', hprogress', herror'⟩ := hstep
      refine ⟨fault'', l'', hfault'', hprogress'.trans hprogress, ?_⟩
      rw [herror', herror]
      simp only [inFront, List.flatMap_cons, List.length_append, List.length_singleton,
        Option.map_map]
      congr 2
      funext position
      simp only [Function.comp]
      omega

/-- **Nesting**: let `text` be a single part without a backslash at its end that escapes nothing,
and let `front` and `back` be plain. With the counter at `b`, the text `front(text)back` does what
`text` does with the counter at `b + 1`. It fails with the same error, further on by one more than
the length of `front`. Or it generates the same text between `front` and `back`, with the same
entropy from the same words, and keeps this text under the number `b + 1`.

Behind any number of pairs of parentheses an error is therefore further on by just what stands in
front of the text. -/
theorem walk_enclose (stream : WordStream) (start b : Nat) (p : Progress) (text : List Char)
    (h : Enclosable text) :
    (∀ front back : List Char, (∀ c ∈ front, IsPlain c) → (∀ c ∈ back, IsPlain c) →
      match Walk.sample (walk stream) ⟨start, text⟩ ⟨p, b + 1⟩ with
      | .ok s l => ∃ x, Walk.sample (walk stream) ⟨start, enclose front back text⟩ ⟨p, b⟩ =
            .ok x ⟨{ l.progress with groups := l.progress.groups.record (b + 1) s.text },
              l.opened⟩ ∧
          x.text = String.ofList front ++ s.text ++ String.ofList back ∧
          x.entropy.exact = s.entropy.exact
      | .error fault l => ∃ fault' l', Walk.sample (walk stream)
            ⟨start, enclose front back text⟩ ⟨p, b⟩ = .error fault' l' ∧
          l'.progress = l.progress ∧
          fault'.toError =
            { fault.toError with
              position := fault.toError.position.map (· + (front.length + 1)) }) ∧
      ∀ around : List (List Char × List Char),
        (∀ w ∈ around, (∀ c ∈ w.1, IsPlain c) ∧ ∀ c ∈ w.2, IsPlain c) →
        inFront around ++ text <+: encloseAll around text ∧
          match Walk.sample (walk stream) ⟨start, text⟩ ⟨p, b + around.length⟩ with
          | .ok s l => ∃ x l', Walk.sample (walk stream) ⟨start, encloseAll around text⟩ ⟨p, b⟩ =
                .ok x l' ∧ l'.progress.position = l.progress.position ∧
              x.entropy.exact = s.entropy.exact
          | .error fault l => ∃ fault' l', Walk.sample (walk stream)
                ⟨start, encloseAll around text⟩ ⟨p, b⟩ = .error fault' l' ∧
              l'.progress = l.progress ∧
              fault'.toError =
                { fault.toError with
                  position := fault.toError.position.map (· + (inFront around).length) } := by
  constructor
  · intro front back hfront hback
    exact sample_enclose_walk h hfront hback stream start b p
  · intro around haround
    exact ⟨inFront_append_prefix_encloseAll around text,
      sample_encloseAll_walk h haround stream start b p⟩

/-- In two pairs of parentheses, behind five more characters, a reference to a group that does not
exist fails seven characters further on. -/
theorem walk_enclose_reference :
    ∃ fault l, Walk.sample (walk fun _ => 0) ⟨0, "ab(cde(x\\\\\\7)f)".toList⟩ ⟨⟨0, .empty⟩, 0⟩ =
      .error fault l ∧ fault.toError.position = some 10 := by
  have htext : Walk.sample (walk fun _ => 0) ⟨0, "x\\\\\\7".toList⟩ ⟨⟨0, .empty⟩, 2⟩ =
      .error (.located (.invalidReference "7") 3 2) ⟨⟨0, .empty⟩, 2⟩ := by cbv
  have henclosable : Enclosable "x\\\\\\7".toList := ⟨⟨⟨0, "x\\\\\\7".toList⟩, by cbv⟩, by decide⟩
  have hnested := ((walk_enclose (fun _ => 0) 0 0 ⟨0, .empty⟩ "x\\\\\\7".toList henclosable).2
    [(['a', 'b'], []), (['c', 'd', 'e'], ['f'])] (by simp [IsPlain, isStructural])).2
  rw [show 0 + [(['a', 'b'], []), (['c', 'd', 'e'], ['f'])].length = 2 from rfl, htext]
    at hnested
  obtain ⟨fault, l, hrun, -, herror⟩ := hnested
  exact ⟨fault, l, hrun, by rw [herror]; rfl⟩

end PatternSampler
