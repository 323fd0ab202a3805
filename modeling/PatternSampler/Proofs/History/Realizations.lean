import PatternSampler.Proofs.History.Latest
import PatternSampler.Proofs.Reading.Enclosed
import PatternSampler.Proofs.Run.Unrolled

set_option autoImplicit false

/-!
# References behind a repeated group

A group with a count behind it is generated several times over. The history tells of each of these
realizations, and a reference behind them repeats the last one.

## Main definitions

* `realizations` — the texts that a history has kept of a group.
* `Traced.Realizes` — what the realizations during an action have to do with its result.

## Main results

* `Construct.realizes_prepare` — a group is realized once, with its own text.
* `references_repeat_last_realization` — references in general, and behind a repeated group.
-/

namespace PatternSampler

open Run Sample Traced

/-- The text that an event keeps of a group. -/
def Event.realization? (number : Nat) : Event → Option String
  | kept number' text => if number' = number then some text else none
  | _ => none

/-- The texts of the realizations of a group that a history tells of, in order. -/
def realizations (number : Nat) (history : List Event) : List String :=
  history.filterMap (Event.realization? number)

/-- The realizations of two histories are those of one behind those of the other. -/
lemma realizations_append (number : Nat) (front back : List Event) :
    realizations number (front ++ back) = realizations number front ++ realizations number back :=
  List.filterMap_append

/-- A text that is kept is a realization. -/
lemma realizations_kept (number : Nat) (text : String) :
    realizations number [.kept number text] = [text] := by
  simp [realizations, Event.realization?]

/-- A history of groups further on has no realization of a group. -/
lemma realizations_of_behind {number : Nat} {history : List Event}
    (h : ∀ event ∈ history, ∀ number' text, event.Sets number' text → number < number') :
    realizations number history = [] := by
  refine List.filterMap_eq_nil_iff.2 fun event hevent => ?_
  cases event with
  | kept number' text =>
    have := h _ hevent number' text ⟨rfl, rfl⟩
    exact if_neg (by omega)
  | _ => rfl

namespace Traced

variable {α β : Type} {number : Nat} {m : Traced α} {R : α → List String → Prop}

/-- Where the action ends well, `R` relates its result to the texts of the realizations of a group
on the way, and the table knows the last of them. -/
def Realizes (m : Traced α) (number : Nat) (R : α → List String → Prop) : Prop :=
  ∀ p x q, (m p).2 = .ok x q → R x (realizations number (m p).1) ∧
    q.groups.text? number = (realizations number (m p).1).getLast?.or (p.groups.text? number)

/-- Yielding a result realizes nothing. -/
lemma realizes_pure {x : α} (h : R x []) : (pure x : Traced α).Realizes number R := by
  rintro p y q ⟨⟩
  exact ⟨h, rfl⟩

/-- Realizations of two actions in a row come one behind the other. -/
lemma Realizes.bind {f : α → Traced β} {S : β → List String → Prop}
    (hm : m.Realizes number R)
    (hf : ∀ x texts, R x texts → (f x).Realizes number fun y more => S y (texts ++ more)) :
    (m >>= f).Realizes number S := by
  intro p y r hy
  obtain ⟨x, q, hx, hy, hhistory⟩ := exists_of_bind hy
  obtain ⟨hR, htext⟩ := hm p x q hx
  obtain ⟨hS, htext'⟩ := hf x _ hR q y r hy
  rw [hhistory, realizations_append]
  refine ⟨hS, ?_⟩
  rw [htext', htext, List.getLast?_append, Option.or_assoc]

/-- Every generation of a repeated action is a realization. -/
lemma Realizes.replay {m : Traced Sample} (h : m.Realizes number fun s texts => texts = [s.text])
    (count : Nat) : (Traced.replay count m).Realizes number fun samples texts =>
      texts.length = count ∧ texts = samples.map Sample.text := by
  induction count with
  | zero => exact realizes_pure ⟨rfl, rfl⟩
  | succ count ih =>
    refine h.bind fun s texts hs => ih.bind fun samples more hmore => realizes_pure ?_
    obtain ⟨rfl, rfl⟩ := hmore
    rw [hs]
    simp

/-- What an action generates is one realization of the group that it is kept for. -/
lemma realizes_kept {action : Traced Sample} (h : action.AccountsFor number) :
    (tracedKept number action).Realizes number fun s texts => texts = [s.text] := by
  intro p x q hx
  obtain ⟨s, r, -, hx, hhistory⟩ := exists_of_bind hx
  cases hx
  have hhistory : (tracedKept number action p).1 = (action p).1 ++ [.kept number x.text] := hhistory
  rw [hhistory, realizations_append, realizations_of_behind (h.behind p), realizations_kept]
  exact ⟨rfl, GroupTable.text?_record_self number x.text _⟩

end Traced

/-! ## Groups -/

/-- A group needs no preparation, and its action is one realization. -/
lemma Construct.realizes_prepare (stream : WordStream) {before after : Nat} {c : Construct}
    {number : Nat} (h : c.Numbered before after)
    (hc : (∃ body, c = .group number body) ∨ ∃ branches, c = .alternation number branches) :
    ∃ m : Traced Sample, c.tracedPrepare stream = pure m ∧
      m.Realizes number fun s texts => texts = [s.text] := by
  rcases hc with ⟨body, rfl⟩ | ⟨branches, rfl⟩
  · obtain ⟨-, hbody⟩ := h
    exact ⟨_, Construct.tracedPrepare_group stream number body, realizes_kept
      ((Pattern.accounts_traced stream hbody).bind fun _ _ => accounts_pure trivial)⟩
  · obtain ⟨-, hbranches⟩ := h
    exact ⟨_, Construct.tracedPrepare_alternation stream number branches, realizes_kept
      (Branches.accounts_tracedChoice
        (fun choice => Branches.accounts_probes stream hbranches choice 0)
        (Branches.accounts_chosen stream hbranches) (Branches.accounts_tracedClear hbranches))⟩

/-- A group in parentheses, as far as it is balanced. -/
lemma Construct.ofToken_group {opened : Nat} {span : Span} {body : Slice} {c : Construct}
    (h : ofToken opened span (.group body) = .ok c) :
    (∃ p, c = .group (opened + 1) p) ∨ ∃ branches, c = .alternation (opened + 1) branches := by
  rw [ofToken] at h
  split at h <;> cases h
  · exact .inl ⟨_, rfl⟩
  · exact .inl ⟨_, rfl⟩
  · exact .inr ⟨_, rfl⟩

/-- The tree of a group with a count behind it, unless the text is a mistake. -/
lemma Pattern.ofText_repeated {body count : List Char} {n : Nat}
    (hclose : closeParenthesis .plain 0 (body ++ [')']) = some (body, []))
    (hcount : RepeatCount.ofText count = .ok (.exactly n)) :
    (∃ fault, Pattern.ofText (enclose [] (braced count) body) = .stop fault) ∨
      ∃ c, Pattern.ofText (enclose [] (braced count) body) = .seq c [.exactly n] .done ∧
        ((∃ p, c = .group 1 p) ∨ ∃ branches, c = .alternation 1 branches) := by
  have hspelled : RepeatCount.Spelled [.exactly n] (braced count) := by
    simpa using RepeatCount.Spelled.braced hcount .nil
  have hstarts : (Slice.whole (enclose [] (braced count) body)).Starts ('(' :: (body ++ [')']))
      ⟨body.length + 2, braced count⟩ := by
    refine ⟨by simp [enclose, Slice.whole], ?_⟩
    simp [Slice.whole]
  have hnext := Token.next_of_spelled (t := .group ⟨1, body⟩) (.group hclose) hstarts (by simp)
  have hbehind : (⟨body.length + 2, braced count⟩ : Slice).Starts (braced count)
      ⟨body.length + 2 + (braced count).length, []⟩ := ⟨(List.append_nil _).symm, rfl⟩
  have hhigh : 1 * ([RepeatCount.exactly n].map RepeatCount.high).prod ≤ maxRepeat := by
    simpa [RepeatCount.high] using (RepeatCount.valid_ofText hcount).high_le
  have hread := readCounts_of_spelled hspelled hbehind (fun _ _ => by simp [Token.next]) hhigh
  cases hc : Construct.ofToken 0 ⟨0, body.length + 2⟩ (.group ⟨1, body⟩) with
  | error fault => exact .inl ⟨fault, Pattern.ofSlice_of_error hnext hc⟩
  | ok c =>
    refine .inr ⟨c, ?_, Construct.ofToken_group hc⟩
    rw [Pattern.ofText, Pattern.ofSlice_of_construct hnext hc, hread]
    simp only
    rw [Pattern.ofSlice]
    rfl

/-! ## Whole texts -/

/-- A group with a count behind it is realized as often as the count says, and its text is that of
all realizations. -/
lemma realizes_repeated {stream : WordStream} {n : Nat} {body count : List Char}
    (hclose : closeParenthesis .plain 0 (body ++ [')']) = some (body, []))
    (hcount : RepeatCount.ofText count = .ok (.exactly n)) :
    ((Pattern.ofText (enclose [] (braced count) body)).traced stream).Realizes 1
      fun samples texts =>
        texts.length = n ∧ (Sample.join samples).text = String.join texts := by
  have hpos : 0 < n := (RepeatCount.valid_ofText hcount).low_pos
  obtain ⟨fault, htree⟩ | ⟨c, htree, hc⟩ := Pattern.ofText_repeated hclose hcount
  · rw [htree, Pattern.traced]
    intro p x q hx
    cases hx
  · have hnumbered := Pattern.numbered_ofSlice 0 (.whole (enclose [] (braced count) body))
    rw [← Pattern.ofText, htree] at hnumbered
    obtain ⟨mid, hc', -⟩ := hnumbered
    obtain ⟨m, hprepare, hm⟩ := Construct.realizes_prepare stream hc' hc
    rw [htree]
    simp only [Pattern.traced, hprepare, pure_bind, tracedExtras, RepeatCount.traced, bind_assoc]
    refine hm.bind fun s texts hs => (hm.replay (n - 1)).bind fun samples more hmore =>
      realizes_pure ?_
    obtain ⟨hlength, rfl⟩ := hmore
    subst hs
    simp only [List.append_nil, List.length_append, List.length_singleton, hlength]
    refine ⟨by omega, ?_⟩
    simp [Sample.join]

/-- **References repeat the last realization.** The groups of a text are numbered in the order of
their parentheses, and its run from a fresh context has a history. Whenever a reference in the text
is resolved, inside a probe or not, it yields the text that the history has set last for its number:
the text that the group has been generated with, or the empty text if an alternation has been
completed since then without the branch of the group. What has happened in other probes has no
influence.

If a group with the fixed count `n` behind it generates text, a reference behind the count adds the
last of the `n` realizations to their texts, and neither entropy nor draws.

**Proof sketch.** The first part is the induction over the tree that histories account for their
references. For the second part, the body has no influence on the number of its group, so each
generation of the group is one event in the history. -/
theorem references_repeat_last_realization (stream : WordStream) (position : Nat) :
    (∀ text : List Char,
      (Pattern.ofText text).Numbered 0 (countGroups text) ∧
      ((Pattern.ofText text).traced stream).forget = (Pattern.ofText text).samples stream ∧
      ∀ past number t, Happens (.resolved number t) past (history stream position text) →
        LastSets past number t) ∧
    ∀ (body count : List Char) (n : Nat) (s : Sample) (l : Ledger),
      closeParenthesis .plain 0 (body ++ [')']) = some (body, []) →
      RepeatCount.ofText count = .ok (.exactly n) →
      Walk.sample (walk stream) ⟨0, enclose [] (braced count) body⟩ ⟨⟨position, .empty⟩, 0⟩ =
        .ok s l →
      ∃ texts last s',
        realizations 1 (history stream position (enclose [] (braced count) body)) = texts ∧
        texts.length = n ∧ texts.getLast? = some last ∧ s.text = String.join texts ∧
        Walk.sample (walk stream) ⟨0, enclose [] (braced count) body ++ "\\1".toList⟩
          ⟨⟨position, .empty⟩, 0⟩ = .ok s' l ∧
        s'.text = String.join texts ++ last ∧ s'.entropy.exact = s.entropy.exact := by
  refine ⟨fun text => ⟨(Nat.zero_add (countGroups text)) ▸ Pattern.numbered_ofSlice 0 (.whole text),
    Pattern.forget_traced stream _, fun past number t hhappens => ?_⟩,
    fun body count n s l hclose hcount hs => ?_⟩
  · have haccounts := Pattern.accounts_traced stream (Pattern.numbered_ofSlice 0 (.whole text))
    exact haccounts.replays [] ⟨position, .empty⟩ explains_empty past number t hhappens
  · obtain ⟨_, q, hrun, rfl, rfl⟩ :=
      (tracks_sample stream ⟨0, enclose [] (braced count) body⟩ 0).of_eq_ok hs
    obtain ⟨samples, hsamples, rfl⟩ := Slice.sample_eq_ok.1 hrun
    have htraced : ((Pattern.ofText (enclose [] (braced count) body)).traced stream
        ⟨position, .empty⟩).2 = .ok samples q :=
      (congrFun (Pattern.forget_traced stream _) _).trans hsamples
    obtain ⟨⟨hlength, htext⟩, hlast⟩ :
        ((realizations 1 (history stream position _)).length = n ∧
          (Sample.join samples).text = String.join (realizations 1 (history stream position _))) ∧
        q.groups.text? 1 = (realizations 1 (history stream position _)).getLast?.or _ :=
      realizes_repeated hclose hcount _ _ _ htraced
    generalize realizations 1 (history stream position _) = texts at hlength htext hlast ⊢
    have hpos : 0 < n := (RepeatCount.valid_ofText hcount).low_pos
    have hne : texts ≠ [] := List.ne_nil_of_length_pos (hlength ▸ hpos)
    rw [List.getLast?_eq_some_getLast hne, Option.some_or] at hlast
    obtain ⟨s', hs', htext', hentropy⟩ := walk_reference hs hlast
    exact ⟨_, _, s', rfl, hlength, List.getLast?_eq_some_getLast hne, htext, hs',
      by rw [htext', htext], hentropy⟩

/-- Two branches in turn: the reference repeats the second one. -/
theorem references_repeat_last_realization_of_bars :
    (∃ past, Happens (.resolved 1 "b") past
        (history (fun n => if n = 0 then 0 else 4294967295) 0 "(a|b){2}\\1".toList) ∧
      LastSets past 1 "b") ∧
    ∃ s l, Walk.sample (walk fun n => if n = 0 then 0 else 4294967295)
        ⟨0, "(a|b){2}\\1".toList⟩ ⟨⟨0, .empty⟩, 0⟩ = .ok s l ∧ s.text = "abb" := by
  have h := references_repeat_last_realization (fun n => if n = 0 then 0 else 4294967295) 0
  have hhistory : history (fun n => if n = 0 then 0 else 4294967295) 0 "(a|b){2}\\1".toList =
      [.drew 2 0, .probed [], .emptied 1 0, .kept 1 "a", .drew 2 1, .probed [], .emptied 1 0,
        .kept 1 "b", .resolved 1 "b"] := by
    cbv
  obtain ⟨past, hhappens⟩ : ∃ past, Happens (.resolved 1 "b") past
      (history (fun n => if n = 0 then 0 else 4294967295) 0 "(a|b){2}\\1".toList) := by
    rw [hhistory]
    exact ⟨_, .later (.later (.later (.later (.later (.later (.later (.later .now)))))))⟩
  have hrun : Walk.sample (walk fun n => if n = 0 then 0 else 4294967295)
      ⟨0, enclose [] (braced ['2']) "a|b".toList⟩ ⟨⟨0, .empty⟩, 0⟩ =
        .ok ⟨"ab", .sum [.sum [.choice 2, .least (.sum [.sum []]) [.sum [.sum []]]],
          .sum [.sum [.choice 2, .least (.sum [.sum []]) [.sum [.sum []]]]]]⟩
            ⟨⟨2, ⟨[(1, "b")]⟩⟩, 1⟩ := by
    cbv
  have hrealizations : realizations 1 (history (fun n => if n = 0 then 0 else 4294967295) 0
      (enclose [] (braced ['2']) "a|b".toList)) = ["a", "b"] := by
    cbv
  obtain ⟨texts, last, s, htexts, -, hlast, -, hs, htext, -⟩ :=
    h.2 "a|b".toList ['2'] 2 _ _ (by decide) (by decide) hrun
  obtain rfl := hrealizations.symm.trans htexts
  obtain rfl : "b" = last := by simpa using hlast
  exact ⟨⟨past, hhappens, (h.1 _).2.2 _ _ _ hhappens⟩, s, _, hs, htext.trans (by decide)⟩

end PatternSampler
