import PatternSampler.Proofs.Run.Ends

set_option autoImplicit false

/-!
# Runs that agree

Two actions that end well from the same texts of groups can be compared, whatever words they take
from their streams. The rules below take both of them apart at once.

## Main definitions

* `Run.Agrees` — two actions that end well from the same texts of groups have related results.
* `Sample.SameText` — samples with the same text.

## Main results

* `Run.Agrees.bind` — actions that agree, and what follows them.
* `agrees_extras` — the instances that counts add have the same texts, if no count is drawn.
-/

namespace PatternSampler

namespace Run

variable {α β : Type}

/-- Both parts of an action that ends well end well. -/
lemma bind_eq_ok {a : Run α} {f : α → Run β} {p r : Progress} {y : β} :
    (a >>= f) p = .ok y r ↔ ∃ x q, a p = .ok x q ∧ f x q = .ok y r := by
  simp only [bind, EStateM.bind]
  cases a p with
  | ok x q =>
    constructor
    · exact fun h => ⟨x, q, rfl, h⟩
    · rintro ⟨_, _, hx, h⟩
      cases hx
      exact h
  | error fault q => simp

/-- If both actions end well from the same texts of groups, their results are related, and the texts
of groups are the same again. -/
def Agrees (a a' : Run α) (R : α → α → Prop) : Prop :=
  ∀ p p' : Progress, p.groups = p'.groups →
    ∀ x q x' q', a p = .ok x q → a' p' = .ok x' q' → R x x' ∧ q.groups = q'.groups

variable {a a' : Run α} {R : α → α → Prop}

/-- Returning related results agrees. -/
lemma agrees_pure {x x' : α} (h : R x x') : (pure x : Run α).Agrees (pure x') R := by
  intro p p' hp y q y' q' hy hy'
  cases hy
  cases hy'
  exact ⟨h, hp⟩

/-- An action that fails agrees with any other. -/
lemma agrees_throw (fault : Fault) : (throw fault : Run α).Agrees a' R := by
  intro p p' hp y q y' q' hy
  cases hy

/-- An action that never ends well agrees with all actions. -/
lemma agrees_of_keeps (h : a.Keeps (fun _ => True) (fun _ => False) fun _ => True) :
    a.Agrees a' R := fun p _ _ _ _ _ _ hx _ => (ends_of_eq_ok (h p trivial) hx).2.elim

/-- Two actions one behind the other agree if both agree. -/
lemma Agrees.bind {f f' : α → Run β} {T : β → β → Prop} (ha : a.Agrees a' R)
    (hf : ∀ x x', R x x' → (f x).Agrees (f' x') T) : (a >>= f).Agrees (a' >>= f') T := by
  intro p p' hp y r y' r' hy hy'
  obtain ⟨x, q, hx, hy⟩ := bind_eq_ok.1 hy
  obtain ⟨x', q', hx', hy'⟩ := bind_eq_ok.1 hy'
  obtain ⟨hR, hq⟩ := ha p p' hp x q x' q' hx hx'
  exact hf x x' hR q q' hq y r y' r' hy hy'

/-- Checks that both hold where both actions go on. -/
lemma agrees_check {c c' : Prop} [Decidable c] [Decidable c'] {fault fault' : Fault}
    (h : ¬c → ¬c' → a.Agrees a' R) :
    (if c then throw fault else a).Agrees (if c' then throw fault' else a') R := by
  split
  · exact agrees_throw fault
  · split
    · intro p p' hp y q y' q' _ hy'
      cases hy'
    · exact h ‹_› ‹_›

/-- Reading the progress yields the same texts of groups. -/
lemma agrees_get : (get : Run Progress).Agrees get fun r r' => r.groups = r'.groups := by
  intro p p' hp y q y' q' hy hy'
  cases hy
  cases hy'
  exact ⟨hp, hp⟩

/-- Changing the same texts of groups alike leaves the same texts. -/
lemma agrees_modify (g : GroupTable → GroupTable) :
    (modify fun progress => { progress with groups := g progress.groups } : Run PUnit).Agrees
      (modify fun progress => { progress with groups := g progress.groups })
      fun _ _ => True := by
  intro p p' hp y q y' q' hy hy'
  cases hy
  cases hy'
  exact ⟨trivial, congrArg g hp⟩

/-- Two draws agree whatever their streams. -/
lemma agrees_choose (stream stream' : WordStream) {n : Nat} (h : 0 < n) :
    (choose stream n h).Agrees (choose stream' n h) fun _ _ => True := by
  intro p p' hp y q y' q' hy hy'
  cases hy
  cases hy'
  exact ⟨trivial, hp⟩

/-- Actions that agree do so several times over. -/
lemma Agrees.replay (h : a.Agrees a' R) (count : Nat) :
    (replay count a).Agrees (replay count a') (List.Forall₂ R) := by
  induction count with
  | zero => exact agrees_pure .nil
  | succ count ih =>
    rw [replay_succ, replay_succ]
    exact h.bind fun x x' hx => ih.bind fun xs xs' hxs => agrees_pure (.cons hx hxs)

end Run

open Run

/-! ## Samples with the same text -/

namespace Sample

/-- Samples with the same text. -/
def SameText (s s' : Sample) : Prop := s.text = s'.text

/-- Samples with the same text when they stand one after the other. -/
def SameTexts (samples samples' : List Sample) : Prop := (join samples).SameText (join samples')

/-- Rows of samples with the same text, one behind the other. -/
lemma SameTexts.append {here here' later later' : List Sample} (h : SameTexts here here')
    (h' : SameTexts later later') : SameTexts (here ++ later) (here' ++ later') := by
  simp only [SameTexts, SameText, join, List.map_append, String.join_append] at *
  rw [h, h']

/-- A sample with the same text in front of rows with the same text. -/
lemma SameText.cons {s s' : Sample} {later later' : List Sample} (h : s.SameText s')
    (h' : SameTexts later later') : SameTexts (s :: later) (s' :: later') := by
  simp only [SameTexts, SameText, join, List.map_cons, String.join_cons] at *
  rw [h, h']

/-- Samples that are alike one by one are alike as rows. -/
lemma sameTexts_of_forall₂ {samples samples' : List Sample}
    (h : List.Forall₂ SameText samples samples') : SameTexts samples samples' := by
  induction h with
  | nil => rfl
  | cons hs _ ih => exact hs.cons ih

end Sample

open Sample

/-- Keeping the same text for a group. -/
lemma agrees_record (number : Nat) {s s' : Sample} (h : s.SameText s') :
    (record number s.text).Agrees (record number s'.text) fun _ _ => True := by
  rw [show s.text = s'.text from h]
  exact agrees_modify _

section Repetition

variable {stream stream' : WordStream} {action action' : Run Sample}

/-- A count whose bounds are the same. -/
lemma agrees_draw {count : RepeatCount} (h : count.low = count.high) :
    (count.draw stream).Agrees (count.draw stream') Eq := by
  cases count with
  | exactly => exact agrees_pure rfl
  | between low high =>
    refine (agrees_choose stream stream' _).bind fun extra extra' _ => agrees_pure ?_
    have hextra := extra.isLt
    have hextra' := extra'.isLt
    simp only [RepeatCount.low, RepeatCount.high] at h
    omega

/-- A construct with a fixed count is repeated equally often for both streams. -/
lemma agrees_repeated {count : RepeatCount} (hcount : count.low = count.high)
    (h : action.Agrees action' SameText) :
    (repeated stream count action).Agrees (repeated stream' count action') SameText := by
  refine (agrees_draw hcount).bind fun n n' hn => ?_
  subst hn
  exact (h.replay n).bind fun samples samples' hs => agrees_pure (sameTexts_of_forall₂ hs)

/-- The instances that counts add have the same texts, if no count is drawn. -/
lemma agrees_extras {counts : List RepeatCount} (hcounts : ∀ count ∈ counts, count.low = count.high)
    (h : action.Agrees action' SameText) :
    (extras stream counts action).Agrees (extras stream' counts action') SameTexts := by
  induction counts generalizing action action' with
  | nil => exact agrees_pure rfl
  | cons count later ih =>
    obtain ⟨hcount, hlater⟩ := List.forall_mem_cons.1 hcounts
    refine (agrees_draw hcount).bind fun n n' hn => ?_
    subst hn
    exact (h.replay (n - 1)).bind fun samples samples' hs =>
      (ih hlater (agrees_repeated hcount h)).bind fun more more' hmore =>
        agrees_pure (SameText.cons (sameTexts_of_forall₂ hs) hmore)

end Repetition

/-! ## Parts of constructs -/

/-- A set with at most one member. -/
lemma agrees_charSet {stream stream' : WordStream} {set : CharSet} (h : set.size < 2) :
    (set.sample stream).Agrees (set.sample stream') SameText := by
  unfold CharSet.sample
  split
  · refine (agrees_choose stream stream' _).bind fun place place' _ => agrees_pure ?_
    have hplace : place = place' := Fin.ext (by
      have := place.isLt
      have := place'.isLt
      omega)
    rw [hplace]
    rfl
  · exact agrees_pure rfl

/-- The same text is read as the same number. -/
lemma agrees_numberOf {α : Type} (read : List Char → Option α) (span : Span) (text : String) :
    (numberOf read span text).Agrees (numberOf read span text) Eq := by
  unfold numberOf
  split
  · exact agrees_pure rfl
  · exact agrees_throw _

/-- The same text is read as the same fill. -/
lemma agrees_fillOf (span : Span) (text : String) :
    (fillOf span text).Agrees (fillOf span text) Eq := by
  unfold fillOf
  split
  · exact agrees_pure rfl
  · exact agrees_throw _

/-- A transform makes the same of the same text. -/
lemma agrees_transformed (t : Transform) (span : Span) {s s' : Sample} (h : s.SameText s') :
    (s.transformed t span).Agrees (s'.transformed t span) SameText := by
  unfold Sample.transformed
  rw [show s.text = s'.text from h]
  split
  · exact agrees_pure rfl
  · exact agrees_throw _

/-- A reference reads the texts of groups only. -/
lemma agrees_runReference (span : Span) (digits : List Char) :
    (Construct.runReference span digits).Agrees (Construct.runReference span digits) Eq := by
  refine agrees_get.bind fun r r' hr => ?_
  rw [hr]
  split
  · exact agrees_pure rfl
  · exact agrees_throw _

end PatternSampler
