import PatternSampler.Proofs.Reading.Enclosed
import PatternSampler.Proofs.Text.Balance

set_option autoImplicit false

/-!
# Cutting balanced texts

A text can be cut at its separators if it is balanced, and the cuts lose nothing: they are made at
the separators at the top level, and the parts with separators between them are the text again.

## Main definitions

* `Nesting.through` — the nesting behind a whole text.
* `IsTopLevel` — nothing is open behind a text, and its last character escapes nothing.
* `IsCut` — a text is cut at an index.
* `MakesUp` — parts that are what a text consists of between its separators at the top level.

## Main results

* `splitFrom_eq_through` — cutting ends as reading the openers does.
* `start_mem_iff` — parts begin behind the separators at the top level.
* `split_makesUp_or_breaks` — which texts can be cut, into which parts, and what is reported of the
  others.
-/

namespace PatternSampler

open Scan

/-! ## Nestings along a text -/

namespace Nesting

variable {n n' : Nesting} {position : Nat} {c separator : Char} {text : List Char}

/-- The nesting behind a text that starts at `position`. -/
def through (n : Nesting) (position : Nat) : List Char → Except Imbalance Nesting
  | [] => .ok n
  | c :: rest =>
    match n.step position c with
    | .ok n' => n'.through (position + 1) rest
    | .error e => .error e

/-- One more character in front, which the nesting allows. -/
lemma through_cons (h : n.step position c = .ok n') :
    n.through position (c :: text) = n'.through (position + 1) text := by
  rw [through, h]

/-- The first character at fault decides. -/
lemma through_cons_error {e : Imbalance} (h : n.step position c = .error e) :
    n.through position (c :: text) = .error e := by
  rw [through, h]

/-- The zone behind a text is the one that its characters lead to. -/
lemma zone_through (h : n.through position text = .ok n') : n'.zone = n.zone.after text := by
  induction text generalizing n position with
  | nil =>
    cases h
    rfl
  | cons c rest ih =>
    cases hstep : n.step position c with
    | error e =>
      rw [through_cons_error hstep] at h
      cases h
    | ok mid =>
      rw [through_cons hstep] at h
      rw [ih h, zone_step hstep, Zone.after_cons]

/-- A well-formed nesting stays well-formed. -/
lemma WellFormed.through (hn : n.WellFormed) (h : n.through position text = .ok n') :
    n'.WellFormed := by
  induction text generalizing n position with
  | nil =>
    cases h
    exact hn
  | cons c rest ih =>
    cases hstep : n.step position c with
    | error e =>
      rw [through_cons_error hstep] at h
      cases h
    | ok mid =>
      rw [through_cons hstep] at h
      exact ih (hn.step hstep) h

/-- A separator leaves the nesting as it is. -/
lemma step_of_cutsAt (h : n.cutsAt separator c = true) : n.step position c = .ok n := by
  obtain ⟨zone, opens⟩ := n
  simp only [cutsAt, Bool.and_eq_true, beq_iff_eq, Bool.not_eq_true', Bool.or_eq_false_iff,
    beq_eq_false_iff_ne] at h
  obtain ⟨⟨⟨rfl, -⟩, -⟩, ⟨hescape, hopener⟩, hcloser⟩ := h
  have hbracket : c ≠ '[' := by
    rintro rfl
    cases hopener
  simp [step, hopener, hcloser, Zone.next, hescape, hbracket]

end Nesting

open Nesting

/-- Behind a character that is no backslash the nesting follows from the openers again. -/
lemma nestingOf_of_step {opens : List Mark} {n : Nesting} {position : Nat} {c : Char}
    (hopens : WellStacked opens) (hc : c ≠ '\\')
    (h : (nestingOf opens).step position c = .ok n) :
    n = nestingOf n.opens ∧ WellStacked n.opens := by
  have hplain : (nestingOf opens).zone = .plain → inBracket opens = false := by
    cases hbracket : inBracket opens <;> simp [nestingOf, hbracket, zoneOf]
  have hbracket : (nestingOf opens).zone = .bracket → inBracket opens = true := by
    cases hbracket : inBracket opens <;> simp [nestingOf, hbracket, zoneOf]
  rcases step_cases h with ⟨hz, hopener, rfl⟩ | ⟨hz, -, -, opener, outer, rfl, -, rfl⟩ |
    ⟨hz, hopener, -, rfl⟩ | ⟨hz, -, rfl⟩ | ⟨hz, hclose, rfl⟩ | ⟨hz, -⟩
  · refine ⟨?_, hopens.forall_mem (hplain hz)⟩
    rw [hz]
    by_cases hopen : c = '[' <;> simp [nestingOf, inBracket, Zone.next, zoneOf, hc, hopen]
  · have houter : inBracket outer = false := hopens.inBracket_tail
    refine ⟨(nestingOf_of_not_inBracket houter).symm, ?_⟩
    exact fun top htop => hopens top (List.mem_of_mem_tail htop)
  · have hopen : c ≠ '[' := by
      rintro rfl
      cases hopener
    refine ⟨?_, hopens⟩
    show ⟨(nestingOf opens).zone.next c, opens⟩ = nestingOf opens
    rw [nestingOf_of_not_inBracket (hplain hz)]
    simp [Zone.next, hc, hopen]
  · refine ⟨(nestingOf_of_not_inBracket hopens.inBracket_tail).symm, ?_⟩
    exact fun top htop => hopens top (List.mem_of_mem_tail htop)
  · refine ⟨?_, hopens⟩
    show ⟨(nestingOf opens).zone.next c, opens⟩ = nestingOf opens
    rw [nestingOf_of_inBracket (hbracket hz)]
    simp [Zone.next, hc, hclose]
  · cases hzone : inBracket opens <;> simp [nestingOf, hzone, zoneOf, Zone.isEscaped] at hz

/-- A backslash and the character behind it leave the nesting as it is. -/
lemma through_escape (opens : List Mark) (position : Nat) (c : Char) (rest : List Char) :
    (nestingOf opens).through position ('\\' :: c :: rest) =
      (nestingOf opens).through (position + 2) rest := by
  rw [through_cons (step_backslash opens position), through_cons (step_escaped opens _ c)]

/-- The openers behind a text are those of the characters that no backslash touches. -/
lemma opens_through {opens : List Mark} (hopens : WellStacked opens) (position : Nat)
    (text : List Char) :
    ((nestingOf opens).through position text).map Nesting.opens =
      openers opens (unescaped position text) := by
  fun_induction unescaped position text generalizing opens with
  | case1 => rfl
  | case2 position =>
    rw [through_cons (step_backslash opens position)]
    rfl
  | case3 position c rest ih => rw [through_escape, ih hopens]
  | case4 position c rest hc ih =>
    cases hstep : (nestingOf opens).step position c with
    | error e =>
      have hmark : afterMark opens (position, c) = .error e := by rw [afterMark, hstep]; rfl
      rw [through_cons_error hstep, openers_cons_error hmark]
      rfl
    | ok n =>
      have hmark : afterMark opens (position, c) = .ok n.opens := by rw [afterMark, hstep]; rfl
      obtain ⟨hn, hwell⟩ := nestingOf_of_step hopens hc hstep
      rw [through_cons hstep, openers_cons hmark, hn]
      exact ih hwell

/-! ## The top level -/

/-- What follows behind `front` stands outside all openers, and not behind a backslash. -/
def IsTopLevel (front : List Char) : Prop :=
  endsInBackslash front = false ∧ Balanced (unescaped 0 front)

/-- Behind a text nothing is open exactly if its end stands at the top level. -/
lemma through_eq_outermost {front : List Char} :
    outermost.through 0 front = .ok outermost ↔ IsTopLevel front := by
  have hend : (outermost.zone.after front).isEscaped = endsInBackslash front :=
    isEscaped_after rfl front
  have hopeners : (outermost.through 0 front).map Nesting.opens = openers [] (unescaped 0 front) :=
    opens_through (show WellStacked [] by simp [WellStacked]) 0 front
  rw [IsTopLevel, balanced_iff, ← hopeners]
  constructor
  · intro h
    rw [← hend, ← zone_through h, h]
    exact ⟨rfl, rfl⟩
  · rintro ⟨hescaped, hopens⟩
    cases hthrough : outermost.through 0 front with
    | error e =>
      rw [hthrough] at hopens
      cases hopens
    | ok n =>
      obtain ⟨zone, opens⟩ := n
      rw [hthrough] at hopens
      obtain rfl : opens = [] := Except.ok.inj hopens
      have hzone : zone.isEscaped = false := by
        rw [← hescaped, ← hend, ← zone_through hthrough]
      have hwell : WellFormed ⟨zone, []⟩ := wellFormed_outermost.through hthrough
      cases zone with
      | plain => rfl
      | bracket =>
        obtain ⟨p, outer, h⟩ := hwell (.inl rfl)
        cases h
      | escaped | bracketEscaped => cases hzone

/-! ## Cutting -/

section Cutting

variable {separator : Char} {n : Nesting} {position : Nat} {text part : List Char}
  {later : List Slice}

/-- Cutting ends as reading the openers does. -/
theorem splitFrom_eq_through (separator : Char) (n : Nesting) (position : Nat) (text : List Char) :
    (splitFrom separator n position text).map (fun _ => ()) =
      n.through position text >>= fun n' => ended n'.opens := by
  induction text generalizing n position with
  | nil =>
    obtain ⟨zone, opens⟩ := n
    cases opens <;> rfl
  | cons c rest ih =>
    rw [splitFrom]
    split
    · rename_i hcut
      rw [through_cons (step_of_cutsAt hcut), ← ih]
      cases splitFrom separator n (position + 1) rest <;> rfl
    · cases hstep : n.step position c with
      | error e =>
        rw [through_cons_error hstep]
        rfl
      | ok n' =>
        rw [through_cons hstep, ← ih]
        dsimp only
        cases splitFrom separator n' (position + 1) rest <;> rfl

/-- The parts stand behind one another. -/
lemma ascending_of_splitFrom (h : splitFrom separator n position text = .ok (part, later)) :
    (∀ s ∈ later, position + part.length < s.start) ∧ (later.map Slice.start).Pairwise (· < ·) := by
  induction text generalizing n position part later with
  | nil =>
    rw [splitFrom] at h
    split at h <;> cases h
    simp
  | cons c rest ih =>
    rw [splitFrom] at h
    split at h
    · split at h <;> cases h
      rename_i hrest
      obtain ⟨hbehind, hascending⟩ := ih hrest
      rw [List.forall_mem_cons, List.map_cons, List.pairwise_cons, List.forall_mem_map]
      simp only [List.length_nil]
      refine ⟨⟨by omega, fun s hs => ?_⟩, fun s hs => ?_, hascending⟩
      all_goals
        have := hbehind s hs
        omega
    · split at h
      · split at h <;> cases h
        rename_i hrest
        obtain ⟨hbehind, hascending⟩ := ih hrest
        refine ⟨fun s hs => ?_, hascending⟩
        have := hbehind s hs
        simp only [List.length_cons]
        omega
      · cases h

/-- The character at the index `i` of a text that starts at `position` is a separator at which the
text is cut. -/
def IsCut (separator : Char) (n : Nesting) (position : Nat) (text : List Char) (i : Nat) : Prop :=
  ∃ front c back n', text = front ++ c :: back ∧ front.length = i ∧
    n.through position front = .ok n' ∧ n'.cutsAt separator c = true

/-- The first character is a cut if the nesting cuts there. -/
lemma isCut_zero {c : Char} : IsCut separator n position (c :: text) 0 ↔ n.cutsAt separator c := by
  constructor
  · rintro ⟨front, c', back, n', htext, hlength, hthrough, hcut⟩
    rw [List.length_eq_zero_iff] at hlength
    subst hlength
    cases htext
    cases hthrough
    exact hcut
  · intro hcut
    exact ⟨[], c, text, n, rfl, rfl, rfl, hcut⟩

/-- A later character is a cut if it is one behind the first character. -/
lemma isCut_succ {c : Char} {n' : Nesting} {i : Nat} (hstep : n.step position c = .ok n') :
    IsCut separator n position (c :: text) (i + 1) ↔ IsCut separator n' (position + 1) text i := by
  constructor
  · rintro ⟨front, c', back, n'', htext, hlength, hthrough, hcut⟩
    obtain ⟨d, front, rfl⟩ := List.exists_cons_of_length_eq_add_one hlength
    cases htext
    rw [through_cons hstep] at hthrough
    exact ⟨front, c', back, n'', rfl, by simpa using hlength, hthrough, hcut⟩
  · rintro ⟨front, c', back, n'', rfl, rfl, hthrough, hcut⟩
    exact ⟨c :: front, c', back, n'', rfl, rfl, by rw [through_cons hstep, hthrough], hcut⟩

/-- Parts begin behind the separators at which the text is cut. -/
theorem start_mem_iff (h : splitFrom separator n position text = .ok (part, later)) (i : Nat) :
    (∃ s ∈ later, s.start = position + i + 1) ↔ IsCut separator n position text i := by
  induction text generalizing n position part later i with
  | nil =>
    rw [splitFrom] at h
    split at h <;> cases h
    simp [IsCut]
  | cons c rest ih =>
    rw [splitFrom] at h
    split at h
    · rename_i hcut
      split at h <;> cases h
      rename_i hrest
      cases i with
      | zero => simp [isCut_zero, hcut]
      | succ i =>
        rw [isCut_succ (step_of_cutsAt hcut), ← ih hrest]
        simp [Nat.add_right_comm, Nat.add_assoc]
    · rename_i hcut
      split at h
      · rename_i n' hstep
        split at h <;> cases h
        rename_i hrest
        cases i with
        | zero =>
          rw [isCut_zero]
          refine iff_of_false ?_ hcut
          rintro ⟨s, hs, hstart⟩
          have := (ascending_of_splitFrom hrest).1 s hs
          omega
        | succ i =>
          rw [isCut_succ hstep, ← ih hrest]
          simp [Nat.add_right_comm, Nat.add_assoc]
      · cases h

end Cutting

/-! ## Parts of a text -/

/-- The parts are what the text consists of between its separators at the top level. -/
structure MakesUp (separator : Char) (text : List Char) (parts : List Slice) : Prop where
  /-- The first part starts where the text does. -/
  head : parts.head?.map Slice.start = some 0
  /-- With separators between them the parts are the text. -/
  joined : [separator].intercalate (parts.map Slice.text) = text
  /-- Each part stands in the text at its own position. -/
  within : ∀ part ∈ parts,
    part.stop ≤ text.length ∧ part.text = (text.drop part.start).take part.length
  /-- The parts stand behind one another. -/
  ascending : (parts.map Slice.start).Pairwise (· < ·)
  /-- A part is not cut again. -/
  uncut : ∀ part ∈ parts, (Slice.whole part.text).split separator = .ok [Slice.whole part.text]
  /-- The parts behind the first one begin behind the separators at the top level. -/
  cuts : separator ∉ ['\\', '(', ')', '[', '\x7b', '\x7d'] → ∀ i,
    (∃ part ∈ parts.tail, part.start = i + 1) ↔
      ∃ front back, text = front ++ separator :: back ∧ front.length = i ∧ IsTopLevel front

section Parts

variable {separator : Char} {text : List Char} {parts : List Slice}

/-- A text is cut at the separators at its top level. -/
lemma isCut_outermost (hseparator : separator ∉ ['\\', '(', ')', '[', '\x7b', '\x7d']) {i : Nat} :
    IsCut separator outermost 0 text i ↔
      ∃ front back, text = front ++ separator :: back ∧ front.length = i ∧ IsTopLevel front := by
  simp only [List.mem_cons, List.not_mem_nil, or_false, not_or] at hseparator
  constructor
  · rintro ⟨front, c, back, n, htext, hlength, hthrough, hcut⟩
    obtain ⟨rfl, rfl, -⟩ := eq_of_cutsAt hcut
    exact ⟨front, back, htext, hlength, through_eq_outermost.1 hthrough⟩
  · rintro ⟨front, back, htext, hlength, htop⟩
    refine ⟨front, separator, back, outermost, htext, hlength, through_eq_outermost.2 htop, ?_⟩
    simp [cutsAt, outermost, isOpener, isCloser, hseparator]

/-- The parts joined by the separator, the first one in front. -/
lemma intercalate_text (first : Slice) (later : List Slice) :
    [separator].intercalate ((first :: later).map Slice.text) =
      first.text ++ later.flatMap fun s => separator :: s.text := by
  induction later generalizing first with
  | nil => simp [List.intercalate]
  | cons second later ih =>
    have hsecond := ih second
    simp only [List.map_cons, List.intercalate, List.intersperse, List.flatten_cons] at hsecond ⊢
    simp [hsecond]

/-- A text that is not cut where it stands is not cut at the start of a text. -/
lemma split_of_splitFrom {position : Nat}
    (h : splitFrom separator outermost position text = .ok (text, [])) :
    (Slice.whole text).split separator = .ok [Slice.whole text] := by
  have hmoved := splitFrom_shift position separator outermost 0 text
  have hstart : outermost.shift position = outermost := rfl
  rw [hstart, Nat.zero_add, h] at hmoved
  rw [Slice.split, Slice.whole]
  cases hfrom : splitFrom separator outermost 0 text with
  | error e =>
    rw [hfrom] at hmoved
    cases hmoved
  | ok cut =>
    obtain ⟨part, later⟩ := cut
    rw [hfrom] at hmoved
    simp only [shiftCut, Prod.map_apply, id_eq, Except.ok.injEq, Prod.mk.injEq,
      List.nil_eq, List.map_eq_nil_iff] at hmoved
    obtain ⟨rfl, rfl⟩ := hmoved
    rfl

/-- The parts that a text is cut into are what it consists of. -/
lemma makesUp_of_split (h : (Slice.whole text).split separator = .ok parts) :
    MakesUp separator text parts := by
  have hparts : ∀ part ∈ parts, part.IsPart (Slice.whole text) := fun part hpart =>
    Slice.isPart_of_mem_split h hpart
  simp only [Slice.split, Slice.whole] at h
  split at h <;> cases h
  rename_i part later hfrom
  obtain ⟨hpart, hlater, htext⟩ := parts_of_splitFrom hfrom
  obtain ⟨hbehind, hascending⟩ := ascending_of_splitFrom hfrom
  refine ⟨rfl, ?_, ?_, ?_, ?_, ?_⟩
  · rw [intercalate_text, htext]
  · intro s hs
    obtain ⟨front, back, hwhole, hstart⟩ := hparts s hs
    have hdrop : text.drop s.start = s.text ++ back := by
      have hfront : text = front ++ (s.text ++ back) := by simpa [Slice.whole] using hwhole
      rw [hfront, hstart, Slice.whole, Nat.zero_add, List.drop_left]
    refine ⟨by simpa [Slice.stop, Slice.whole] using (hparts s hs).stop_le, ?_⟩
    rw [hdrop, Slice.length, List.take_left]
  · rw [List.map_cons, List.pairwise_cons, List.forall_mem_map]
    exact ⟨fun s hs => Nat.lt_of_le_of_lt (Nat.zero_le _) (hbehind s hs), hascending⟩
  · rw [List.forall_mem_cons]
    exact ⟨split_of_splitFrom hpart, fun s hs => split_of_splitFrom (hlater s hs)⟩
  · intro hseparator i
    rw [← isCut_outermost hseparator, ← start_mem_iff hfrom, Nat.zero_add]
    rfl

/-- Cutting a slice ends as reading its openers does. -/
lemma Slice.split_eq_openers (separator : Char) (s : Slice) :
    (s.split separator).map (fun _ => ()) = openers [] (unescaped s.start s.text) >>= ended := by
  have hthrough := splitFrom_eq_through separator outermost s.start s.text
  have hopeners : (outermost.through s.start s.text).map Nesting.opens =
      openers [] (unescaped s.start s.text) :=
    opens_through (show WellStacked [] by simp [WellStacked]) s.start s.text
  have hsplit : (s.split separator).map (fun _ => ()) =
      (splitFrom separator outermost s.start s.text).map fun _ => () := by
    rw [Slice.split]
    cases splitFrom separator outermost s.start s.text <;> rfl
  rw [hsplit, hthrough, ← hopeners]
  cases outermost.through s.start s.text <;> rfl

/-- A slice can be cut if and only if nothing is open behind it. -/
lemma Slice.exists_split_iff (separator : Char) (s : Slice) :
    (∃ parts, s.split separator = .ok parts) ↔ openers [] (unescaped s.start s.text) = .ok [] := by
  rw [← bind_ended_eq_ok, ← s.split_eq_openers separator]
  cases s.split separator <;> simp [Except.map]

/-- Cutting a text ends as reading its openers does. -/
lemma split_eq_openers (separator : Char) (text : List Char) :
    ((Slice.whole text).split separator).map (fun _ => ()) =
      openers [] (unescaped 0 text) >>= ended :=
  (Slice.whole text).split_eq_openers separator

/-- A text can be cut if and only if it is balanced. Then the parts are what it consists of between
the separators at its top level. Otherwise the character is reported that keeps it from being
balanced.

**Proof sketch.** Cutting goes through the text with a nesting, whose openers change only at the
characters that no backslash touches. There they change as the stack of openers does, and this stack
is the spine of the grammar. -/
theorem split_makesUp_or_breaks (separator : Char) (text : List Char) :
    ((∃ parts, (Slice.whole text).split separator = .ok parts) ↔ Balanced (unescaped 0 text)) ∧
    (∀ parts, (Slice.whole text).split separator = .ok parts → MakesUp separator text parts) ∧
    (∀ e, (Slice.whole text).split separator = .error e ↔ Breaks (unescaped 0 text) e) := by
  have hopeners := split_eq_openers separator text
  refine ⟨?_, fun parts h => makesUp_of_split h, fun e => ?_⟩
  · rw [balanced_iff, ← bind_ended_eq_ok, ← hopeners]
    cases (Slice.whole text).split separator <;> simp [Except.map]
  · rw [breaks_iff, ← hopeners]
    cases (Slice.whole text).split separator <;> simp [Except.map]

example : (Slice.whole ['a', ',', '(', '\\', ')']).split ',' = .error (.unterminated 2 '(') := rfl

end Parts

end PatternSampler
