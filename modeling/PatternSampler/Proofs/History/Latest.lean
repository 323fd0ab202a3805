import PatternSampler.Proofs.History.Traced
import PatternSampler.Proofs.Numbering.Tree

set_option autoImplicit false

/-!
# References repeat what their group has generated last

The table of texts is the outcome of the history so far: the text of a group is the one that its
last generation or the last alternation without it has set. Probes leave no trace in it. A reference
therefore repeats what the history in front of it says about its group.

## Main definitions

* `Event.Sets` — an event makes a text the text of a group.
* `LastSets` — the last event about a group sets its text.
* `Happens` — an event happens in a history, behind a past of its own.
* `Traced.Accounts` — the history of an action accounts for its references and its table.

## Main results

* `Traced.Accounts.bind` — an action and what follows it.
* `Pattern.accounts_traced` — the history of a pattern accounts for its references.
-/

namespace PatternSampler

open Run

/-! ## Histories -/

/-- The event makes `text` the text of the group with a number. -/
def Event.Sets (number : Nat) (text : String) : Event → Prop
  | kept number' text' => number' = number ∧ text' = text
  | emptied before count => before < number ∧ number ≤ before + count ∧ text = ""
  | drew _ _ | resolved _ _ | probed _ => False

/-- The last event of a history that sets the text of a group sets it to `text`. -/
def LastSets (history : List Event) (number : Nat) (text : String) : Prop :=
  ∃ front event back, history = front ++ event :: back ∧ event.Sets number text ∧
    ∀ later ∈ back, ∀ text', ¬later.Sets number text'

/-- The event happens in a history, and `past` is what has happened before it: the events in front
of it and, if it happens inside a probe, those in front of the probe. -/
inductive Happens (event : Event) : (past history : List Event) → Prop
  | now {later : List Event} : Happens event [] (event :: later)
  | inside {past inside later : List Event} (h : Happens event past inside) :
    Happens event past (.probed inside :: later)
  | later {past history : List Event} {first : Event} (h : Happens event past history) :
    Happens event (first :: past) (first :: history)

/-- An event at the end of a history that sets the text of a group sets it last. -/
lemma Event.Sets.lastSets {event : Event} {number : Nat} {text : String}
    (h : event.Sets number text) (past : List Event) : LastSets (past ++ [event]) number text :=
  ⟨past, event, [], rfl, h, by simp⟩

/-- Events about other groups change nothing. -/
lemma LastSets.append {past more : List Event} {number : Nat} {text : String}
    (h : LastSets past number text) (hmore : ∀ event ∈ more, ∀ text', ¬event.Sets number text') :
    LastSets (past ++ more) number text := by
  obtain ⟨front, event, back, rfl, hsets, hback⟩ := h
  refine ⟨front, event, back ++ more, by simp, hsets, fun later hlater => ?_⟩
  rcases List.mem_append.1 hlater with hlater | hlater
  · exact hback later hlater
  · exact hmore later hlater

/-- What happens in one history behind another one happens in the first or in the second one. -/
lemma happens_append {event : Event} {past front back : List Event}
    (h : Happens event past (front ++ back)) :
    Happens event past front ∨ ∃ past', past = front ++ past' ∧ Happens event past' back := by
  induction front generalizing past with
  | nil => exact .inr ⟨past, rfl, h⟩
  | cons first front ih =>
    cases h with
    | now => exact .inl .now
    | inside h => exact .inl (.inside h)
    | later h =>
      rcases ih h with hfront | ⟨past', rfl, hback⟩
      · exact .inl (.later hfront)
      · exact .inr ⟨past', rfl, hback⟩

/-- Behind `past`, each reference in the history is resolved to what has been set last. -/
def Replays (past history : List Event) : Prop :=
  ∀ before number text, Happens (.resolved number text) before history →
    LastSets (past ++ before) number text

/-- Without events there are no references to resolve. -/
lemma replays_nil (past : List Event) : Replays past [] := by
  rintro before number text ⟨⟩

/-- A history behind another one resolves its references behind both pasts. -/
lemma Replays.append {past front back : List Event} (h : Replays past front)
    (h' : Replays (past ++ front) back) : Replays past (front ++ back) := by
  intro before number text hhappens
  rcases happens_append hhappens with hfront | ⟨before', rfl, hback⟩
  · exact h before number text hfront
  · rw [← List.append_assoc]
    exact h' before' number text hback

/-- An event that resolves nothing. -/
lemma replays_singleton {past : List Event} {event : Event}
    (h : ∀ before number text, ¬Happens (.resolved number text) before [event]) :
    Replays past [event] := fun before number text hhappens =>
  absurd hhappens (h before number text)

/-- Making the texts of groups empty resolves no reference. -/
lemma replays_emptied_singleton (past : List Event) (before count : Nat) :
    Replays past [.emptied before count] := replays_singleton fun _ _ _ hhappens => by
  cases hhappens with
  | later hlater => cases hlater

/-- References inside a probe see the past of the probe. -/
lemma Replays.probed {past inside : List Event} (h : Replays past inside) :
    Replays past [.probed inside] := by
  intro before number text hhappens
  cases hhappens with
  | inside hinside => exact h before number text hinside
  | later hlater => cases hlater

/-! ## Tables -/

/-- Every text of the table has been set last in the past. -/
def Explains (past : List Event) (groups : GroupTable) : Prop :=
  ∀ number text, groups.text? number = some text → LastSets past number text

/-- In an empty table there is nothing to explain. -/
lemma explains_empty : Explains [] .empty := by
  intro number text h
  cases h

section Explains

variable {past : List Event} {groups : GroupTable}

/-- Events that set nothing. -/
lemma Explains.append (h : Explains past groups) {more : List Event}
    (hmore : ∀ event ∈ more, ∀ number text, ¬event.Sets number text) :
    Explains (past ++ more) groups := fun number text htext =>
  (h number text htext).append fun event hevent => hmore event hevent number

/-- A text that is kept has been set last. -/
lemma Explains.record (h : Explains past groups) (number : Nat) (text : String) :
    Explains (past ++ [.kept number text]) (groups.record number text) := by
  intro other text' htext'
  by_cases hother : other = number
  · subst hother
    rw [GroupTable.text?_record_self, Option.some.injEq] at htext'
    have hsets : (Event.kept other text).Sets other text' := ⟨rfl, htext'⟩
    exact hsets.lastSets past
  · rw [GroupTable.text?_record_of_ne hother] at htext'
    refine (h other text' htext').append fun event hevent text'' hsets => ?_
    rw [List.mem_singleton.1 hevent] at hsets
    exact hother hsets.1.symm

/-- Texts that are made empty have been set last. -/
lemma Explains.clear (h : Explains past groups) (before count : Nat) :
    Explains (past ++ [.emptied before count]) (groups.clear before count) := by
  intro number text htext
  rw [GroupTable.text?_clear] at htext
  split at htext
  · rename_i hnumber
    cases htext
    have hsets : (Event.emptied before count).Sets number "" := ⟨hnumber.1, hnumber.2, rfl⟩
    exact hsets.lastSets past
  · rename_i hnumber
    refine (h number text htext).append fun event hevent text' hsets => ?_
    rw [List.mem_singleton.1 hevent] at hsets
    exact hnumber ⟨hsets.1, hsets.2.1⟩

/-- The table behind an alternation is explained by its notes on the other branches. -/
lemma Branches.explains_clearOthers : ∀ (branches : Branches) {past : List Event}
    {groups : GroupTable} (choice : Nat), Explains past groups →
      Explains (past ++ branches.emptied choice) (branches.clearOthers choice groups)
  | .one _ _ _, past, groups, 0, h => by
    rw [Branches.emptied, List.append_nil]
    exact h
  | .one before count _, past, groups, _ + 1, h => h.clear before count
  | .more _ _ _ rest, past, groups, 0, h => rest.explains_clearOthers rest.length h
  | .more before count _ rest, past, groups, choice + 1, h => by
    have hrest := rest.explains_clearOthers choice (h.clear before count)
    rwa [List.append_assoc] at hrest

end Explains

/-! ## Actions -/

namespace Traced

variable {α β : Type}

/-- Behind any past that explains the texts of groups, the history of the action accounts for its
references and for the texts of groups at its end. It sets only groups behind the group `first`, and
its result satisfies `P`. -/
structure Accounts (m : Traced α) (first : Nat) (P : α → Prop) : Prop where
  replays : ∀ past p, Explains past p.groups → Replays past (m p).1
  explains : ∀ past p, Explains past p.groups → ∀ x q, (m p).2 = .ok x q →
    Explains (past ++ (m p).1) q.groups
  behind : ∀ p, ∀ event ∈ (m p).1, ∀ number text, event.Sets number text → first < number
  result : ∀ p x q, (m p).2 = .ok x q → P x

variable {first : Nat} {m : Traced α} {P : α → Prop} {Q : β → Prop}

/-- Yielding a result sets no groups. -/
lemma accounts_pure {x : α} (h : P x) : (pure x : Traced α).Accounts first P where
  replays past p _ := replays_nil past
  explains past p hp := by
    rintro y q ⟨⟩
    exact (List.append_nil past).symm ▸ hp
  behind p event hevent := absurd hevent (List.not_mem_nil)
  result := by
    rintro p y q ⟨⟩
    exact h

/-- An action and what follows it, which goes on from a longer past. -/
lemma Accounts.bind {f : α → Traced β} (hm : m.Accounts first P)
    (hf : ∀ x, P x → (f x).Accounts first Q) : (m >>= f).Accounts first Q where
  replays past p hp := by
    have hfront := hm.replays past p hp
    have hexplains := hm.explains past p hp
    have hresult := hm.result p
    rw [bind_apply]
    generalize m p = r at hfront hexplains hresult ⊢
    obtain ⟨front, x | fault⟩ := r
    · exact hfront.append ((hf x (hresult x _ rfl)).replays _ _ (hexplains x _ rfl))
    · exact hfront
  explains past p hp y r := by
    have hexplains := hm.explains past p hp
    have hresult := hm.result p
    rw [bind_apply]
    generalize m p = run at hexplains hresult ⊢
    obtain ⟨front, x | fault⟩ := run
    · intro hy
      rw [← List.append_assoc]
      exact (hf x (hresult x _ rfl)).explains _ _ (hexplains x _ rfl) y r hy
    · rintro ⟨⟩
  behind p := by
    have hbehind := hm.behind p
    have hresult := hm.result p
    rw [bind_apply]
    generalize m p = r at hbehind hresult ⊢
    obtain ⟨front, x | fault⟩ := r
    · intro event hevent
      rcases List.mem_append.1 hevent with hevent | hevent
      · exact hbehind event hevent
      · exact (hf x (hresult x _ rfl)).behind _ event hevent
    · exact hbehind
  result p y r := by
    have hresult := hm.result p
    rw [bind_apply]
    generalize m p = run at hresult ⊢
    obtain ⟨front, x | fault⟩ := run
    · exact (hf x (hresult x _ rfl)).result _ y r
    · rintro ⟨⟩

/-- A weaker bound on the groups that are set holds as well. -/
lemma Accounts.mono {first' : Nat} (hm : m.Accounts first P) (hfirst : first' ≤ first) :
    m.Accounts first' P where
  replays := hm.replays
  explains := hm.explains
  behind p event hevent number text hsets :=
    Nat.lt_of_le_of_lt hfirst (hm.behind p event hevent number text hsets)
  result := hm.result

/-- An action that leaves the texts of groups as they are. -/
lemma accounts_lift {a : Run α} (h : ∀ I, a.Keeps I P fun _ => True) :
    (liftM a : Traced α).Accounts first P where
  replays past p _ := replays_nil past
  explains past p hp x q hx := by
    have hgroups := (Run.ends_of_eq_ok (h (· = p.groups) p rfl) hx).1
    rw [hgroups]
    exact (List.append_nil past).symm ▸ hp
  behind p event hevent := absurd hevent List.not_mem_nil
  result p x q hx := (Run.ends_of_eq_ok (h (fun _ => True) p trivial) hx).2

/-- A choice sets nothing and resolves nothing. -/
lemma accounts_choose (stream : WordStream) {n : Nat} (h : 0 < n) :
    (choose stream n h).Accounts first fun _ => True where
  replays past p _ := replays_singleton fun before number text hhappens => by
    cases hhappens with
    | later hlater => cases hlater
  explains past p hp := by
    rintro x q ⟨⟩
    refine hp.append fun event hevent number text hsets => ?_
    rw [List.mem_singleton.1 hevent] at hsets
    exact hsets
  behind p event hevent number text hsets := by
    rw [List.mem_singleton.1 hevent] at hsets
    exact hsets.elim
  result _ _ _ _ := trivial

/-- Keeping the text of a group sets this group. -/
lemma accounts_record {number : Nat} (h : first < number) (text : String) :
    (record number text).Accounts first fun _ => True where
  replays past p _ := replays_singleton fun before number text hhappens => by
    cases hhappens with
    | later hlater => cases hlater
  explains past p hp := by
    rintro x q ⟨⟩
    exact hp.record number text
  behind p event hevent other text' hsets := by
    rw [List.mem_singleton.1 hevent] at hsets
    exact hsets.1 ▸ h
  result _ _ _ _ := trivial

/-- A probe leaves no trace in the table. -/
lemma Accounts.probe {first' : Nat} (hm : m.Accounts first P) : (probe m).Accounts first' P where
  replays past p hp := by
    rw [fst_probe]
    exact (hm.replays past p hp).probed
  explains past p hp x q hx := by
    rw [fst_probe, groups_probe hx]
    refine hp.append fun event hevent number text hsets => ?_
    rw [List.mem_singleton.1 hevent] at hsets
    exact hsets
  behind p event hevent number text hsets := by
    rw [fst_probe, List.mem_singleton] at hevent
    subst hevent
    exact hsets.elim
  result p x q hx := by
    obtain ⟨q', hx'⟩ := eq_ok_of_probe hx
    exact hm.result p x q' hx'

/-- An action several times over accounts for its references. -/
lemma Accounts.replay (hm : m.Accounts first P) (count : Nat) :
    (Traced.replay count m).Accounts first fun _ => True := by
  induction count with
  | zero => exact accounts_pure trivial
  | succ count ih => exact hm.bind fun _ _ => ih.bind fun _ _ => accounts_pure trivial

/-- A reference is resolved to the text that has been set last. -/
lemma accounts_reference (span : Span) (digits : List Char) :
    (Construct.tracedReference span digits).Accounts first fun _ => True := by
  refine ⟨fun past p hp => ?_, fun past p hp x q => ?_, fun p => ?_, fun _ _ _ _ => trivial⟩
  all_goals
    rw [Construct.tracedReference_apply]
    split
  · rename_i text htext
    obtain ⟨number, hnumber, htext⟩ := Option.bind_eq_some_iff.1 htext
    intro before number' text' hhappens
    cases hhappens with
    | now =>
      rw [List.append_nil, hnumber]
      exact hp number text htext
    | later hlater => cases hlater
  · exact replays_nil past
  · rintro ⟨⟩
    refine hp.append fun event hevent number' text' hsets => ?_
    rw [List.mem_singleton.1 hevent] at hsets
    exact hsets
  · rintro ⟨⟩
  · intro event hevent number' text' hsets
    rw [List.mem_singleton.1 hevent] at hsets
    exact hsets.elim
  · exact fun event hevent => absurd hevent List.not_mem_nil

end Traced

open Traced

variable {stream : WordStream} {before after : Nat}

/-- The history of an action accounts for its references. It sets only groups behind a given one. -/
abbrev Traced.AccountsFor {α : Type} (m : Traced α) (before : Nat) : Prop :=
  m.Accounts before fun _ => True

/-! ## Repetition -/

/-- Drawing a number of instances accounts for its references, as there are none. -/
lemma accounts_draw (stream : WordStream) (count : RepeatCount) :
    (count.traced stream).AccountsFor before := by
  cases count with
  | exactly => exact accounts_pure trivial
  | between => exact (accounts_choose stream _).bind fun _ _ => accounts_pure trivial

section Repetition

variable {action : Traced Sample}

/-- A repeated construct accounts for its references if the construct does. -/
lemma accounts_repeated (stream : WordStream) (count : RepeatCount)
    (h : action.AccountsFor before) :
    (tracedRepeated stream count action).AccountsFor before :=
  (accounts_draw stream count).bind fun instances _ => (h.replay instances).bind fun _ _ =>
    accounts_pure trivial

/-- What counts add accounts for its references if the construct does. -/
lemma accounts_extras (stream : WordStream) (counts : List RepeatCount)
    (h : action.AccountsFor before) : (tracedExtras stream counts action).AccountsFor before := by
  induction counts generalizing action with
  | nil => exact accounts_pure trivial
  | cons count later ih =>
    exact (accounts_draw stream count).bind fun instances _ =>
      (h.replay (instances - 1)).bind fun _ _ => (ih (accounts_repeated stream count h)).bind
        fun _ _ => accounts_pure trivial

end Repetition

/-! ## Random parts -/

/-- A set has no references. -/
lemma accounts_charSet (stream : WordStream) (set : CharSet) :
    (set.traced stream).AccountsFor before := by
  unfold CharSet.traced
  split
  · exact (accounts_choose stream _).bind fun _ _ => accounts_pure trivial
  · exact accounts_pure trivial

/-- Words have no references. -/
lemma accounts_tracedWords (stream : WordStream) (count : Nat) :
    (tracedWords stream count).AccountsFor before := by
  have hword : (tracedWord stream).AccountsFor before :=
    (accounts_choose stream _).bind fun _ _ => accounts_pure trivial
  exact (hword.replay count).bind fun _ _ => accounts_pure trivial

/-- A failed action has no references. -/
lemma accounts_throw {α : Type} {P : α → Prop} (fault : Fault) :
    (liftM (throw fault : Run α) : Traced α).Accounts before P :=
  accounts_lift fun _ => keeps_throw trivial

/-- An action without notes has no references. -/
lemma accountsFor_lift {α : Type} {a : Run α} {Q : α → Prop}
    (h : ∀ I, a.Keeps I Q fun _ => True) : (liftM a : Traced α).AccountsFor before :=
  accounts_lift fun I => (h I).imp fun _ _ => trivial

/-- Reading a number resolves no references. -/
lemma accounts_numberOf {α : Type} (read : List Char → Option α) (span : Span) (text : String) :
    (liftM (numberOf read span text) : Traced α).AccountsFor before :=
  accountsFor_lift fun _ => keeps_numberOf read text fun _ _ => trivial

/-- Sampling a day resolves no references. -/
lemma accounts_tracedDay (stream : WordStream) (first : Int) (days : Nat) (separator : String) :
    (tracedDay stream first days separator).AccountsFor before := by
  refine (accounts_choose stream _).bind fun day _ => ?_
  dsimp only
  split
  · exact accounts_throw _
  · exact accounts_pure trivial

/-! ## Trees -/

/-- The branches that are not chosen have their own groups only. -/
lemma Branches.behind_emptied : ∀ {branches : Branches} {before after : Nat} (choice : Nat),
    branches.Numbered before after → ∀ event ∈ branches.emptied choice, ∀ number text,
      event.Sets number text → before < number
  | .one _ _ _, before, after, 0, _, event, hevent => absurd hevent List.not_mem_nil
  | .one front count _, before, after, _ + 1, h, event, hevent => by
    obtain ⟨hfront, -⟩ := h
    rw [Branches.emptied, List.mem_singleton] at hevent
    subst hevent
    rintro number text ⟨hlt, -⟩
    omega
  | .more front count _ rest, before, after, 0, h, event, hevent => by
    obtain ⟨hfront, -, hrest⟩ := h
    intro number text hsets
    have := rest.behind_emptied rest.length hrest event hevent number text hsets
    omega
  | .more front count _ rest, before, after, choice + 1, h, event, hevent => by
    obtain ⟨hfront, -, hrest⟩ := h
    intro number text hsets
    rcases List.mem_cons.1 hevent with rfl | hevent
    · have := hsets.1
      omega
    · have := rest.behind_emptied choice hrest event hevent number text hsets
      omega

/-- The notes on branches that are not chosen resolve nothing. -/
lemma Branches.replays_emptied : ∀ {branches : Branches} (choice : Nat) (past : List Event),
    Replays past (branches.emptied choice)
  | .one _ _ _, 0, past => replays_nil past
  | .one before count _, _ + 1, past => replays_emptied_singleton past before count
  | .more _ _ _ rest, 0, past => rest.replays_emptied rest.length past
  | .more before count _ rest, choice + 1, past =>
    (replays_emptied_singleton past before count).append (rest.replays_emptied choice _)

/-- Making the groups of other branches empty sets groups of the branches. -/
lemma Branches.accounts_tracedClear {branches : Branches}
    (h : branches.Numbered before after) (choice : Nat) :
    (branches.tracedClear choice).AccountsFor before where
  replays past p _ := Branches.replays_emptied choice past
  explains past p hp := by
    rintro x q ⟨⟩
    exact branches.explains_clearOthers choice hp
  behind p := Branches.behind_emptied choice h
  result _ _ _ _ := trivial

/-- A group further on is kept behind what it is generated from. -/
lemma accounts_kept {number : Nat} {action : Traced Sample} (h : before < number)
    (haction : action.AccountsFor number) : (tracedKept number action).AccountsFor before :=
  (haction.mono h.le).bind fun _ _ => (accounts_record h _).bind fun _ _ => accounts_pure trivial

/-- An alternation accounts for its references if its parts do. -/
lemma Branches.accounts_tracedChoice {branches : Branches}
    (hprobes : ∀ choice : Nat, (branches.tracedProbes stream choice 0).AccountsFor before)
    (hchosen : ∀ choice : Nat, (branches.tracedChosen stream choice).AccountsFor before)
    (hclear : ∀ choice : Nat, (branches.tracedClear choice).AccountsFor before) :
    (branches.tracedChoice stream).AccountsFor before :=
  (accounts_choose stream _).bind fun choice _ => (hprobes choice).bind fun _ _ =>
    ((hchosen choice).bind fun _ _ => (hclear choice).bind fun _ _ => accounts_pure trivial).bind
      fun _ _ => accounts_pure trivial

mutual

/-- **Histories account for references**: a reference in a pattern is resolved to the text that has
been set last for its group. The history sets only groups of the pattern.

**Proof sketch.** By induction over the tree. The table of texts is explained by the past in front
of each construct, whether it is generated for the text or for a probe. -/
theorem Pattern.accounts_traced (stream : WordStream) {before after : Nat} :
    ∀ {t : Pattern}, t.Numbered before after → (t.traced stream).AccountsFor before
  | .done, _ => by
    rw [Pattern.traced]
    exact accounts_pure trivial
  | .stop fault, _ => by
    rw [Pattern.traced]
    exact accounts_throw fault
  | .seq head counts rest, ⟨mid, hhead, hrest⟩ => by
    rw [Pattern.traced]
    exact (Construct.accounts_prepare stream hhead).bind fun action haction =>
      haction.bind fun _ _ => (accounts_extras stream counts haction).bind fun _ _ =>
        ((Pattern.accounts_traced stream hrest).mono hhead.le).bind fun _ _ =>
          accounts_pure trivial

/-- A construct accounts for its references, both when it is prepared and when it is generated. -/
lemma Construct.accounts_prepare (stream : WordStream) {before after : Nat} :
    ∀ {c : Construct}, c.Numbered before after →
      (c.tracedPrepare stream).Accounts before fun action => action.AccountsFor before
  | .character c, _ => by
    rw [Construct.tracedPrepare]
    exact accounts_pure (accounts_pure trivial)
  | .oneOf set, _ => by
    rw [Construct.tracedPrepare]
    exact accounts_pure (accounts_charSet stream set)
  | .reference span digits, _ => by
    rw [Construct.tracedPrepare]
    exact (accounts_reference span digits).bind fun _ _ => accounts_pure (accounts_pure trivial)
  | .group number body, ⟨hnumber, hbody⟩ => by
    rw [Construct.tracedPrepare_group]
    exact accounts_pure (accounts_kept (by omega) ((Pattern.accounts_traced stream hbody).bind
      fun _ _ => accounts_pure trivial))
  | .alternation number branches, ⟨hnumber, hbranches⟩ => by
    rw [Construct.tracedPrepare_alternation]
    exact accounts_pure (accounts_kept (by omega) (Branches.accounts_tracedChoice
      (fun choice => Branches.accounts_probes stream hbranches choice 0)
      (Branches.accounts_chosen stream hbranches) (Branches.accounts_tracedClear hbranches)))
  | .encode t argument, hargument => by
    rw [Construct.tracedPrepare]
    exact accounts_pure ((Argument.accounts_traced stream hargument).bind fun s _ =>
      accountsFor_lift fun _ => keeps_transformed t s fun _ _ => trivial)
  | .expand argument separator, ⟨mid, hargument, hseparator⟩ => by
    rw [Construct.tracedPrepare]
    exact ((Argument.accounts_literal stream _ hseparator).mono hargument.le).bind
      fun sep _ => accounts_pure ((Argument.accounts_traced stream hargument).bind fun s _ =>
        accountsFor_lift fun _ => keeps_transformed _ s fun _ _ => trivial)
  | .byte case, _ => by
    rw [Construct.tracedPrepare]
    exact accounts_pure ((accounts_choose stream _).bind fun _ _ => accounts_pure trivial)
  | .words count, hcount => by
    rw [Construct.tracedPrepare]
    exact (Argument.accounts_literal stream _ hcount).bind fun text _ =>
      (accountsFor_lift fun _ => keeps_wordCountOf text fun _ _ => trivial).bind fun number _ =>
        accounts_pure (accounts_tracedWords stream number)
  | .date first last separator, ⟨mid, mid', hfirst, hlast, hseparator⟩ => by
    rw [Construct.tracedPrepare]
    have hmid' : before ≤ mid' := hfirst.le.trans hlast.le
    exact (Argument.accounts_literal stream _ hfirst).bind fun firstText _ =>
      (accounts_numberOf signed? first.span firstText).bind fun _ _ =>
        ((Argument.accounts_literal stream _ hlast).mono hfirst.le).bind
          fun lastText _ => (accounts_numberOf signed? last.span lastText).bind fun _ _ =>
            (accountsFor_lift fun _ => keeps_daysOf _ _ fun _ _ => trivial).bind fun days _ =>
              ((Argument.accounts_literal stream _ hseparator).mono hmid').bind
                fun separator _ => accounts_pure (accounts_tracedDay stream _ days separator)
  | .shuffle argument, hargument => by
    rw [Construct.tracedPrepare]
    exact accounts_pure ((Argument.accounts_traced stream hargument).bind fun s _ =>
      accountsFor_lift fun _ => keeps_shuffled stream s)
  | .optional argument, hargument => by
    rw [Construct.tracedPrepare]
    exact accounts_pure ((Argument.accounts_traced stream hargument).bind fun s _ =>
      (accounts_choose stream _).bind fun _ _ => accounts_pure trivial)
  | .justify alignment argument width fill, ⟨mid, mid', hargument, hwidth, hfill⟩ => by
    rw [Construct.tracedPrepare]
    have hmid' : before ≤ mid' := hargument.le.trans hwidth.le
    refine ((Argument.accounts_literal stream _ hwidth).mono hargument.le).bind
      fun widthText _ => (accounts_numberOf unsigned? width.span widthText).bind fun columns _ =>
        ((Argument.accounts_literal stream _ hfill).mono hmid').bind fun fillText _ =>
          (accountsFor_lift fun _ => keeps_fillOf fillText fun _ _ => trivial).bind
            fun filling _ => ?_
    split
    · exact accounts_throw _
    · exact accounts_pure ((Argument.accounts_traced stream hargument).bind fun s _ =>
        accounts_pure trivial)

/-- An argument accounts for its references. -/
lemma Argument.accounts_traced (stream : WordStream) {before after : Nat} :
    ∀ {a : Argument}, a.Numbered before after → (a.traced stream).AccountsFor before
  | .mk _ body, hbody => by
    rw [Argument.traced]
    exact (Pattern.accounts_traced (t := body) stream hbody).bind fun _ _ => accounts_pure trivial

/-- A fixed argument accounts for its references. -/
lemma Argument.accounts_literal (stream : WordStream) (role : LiteralArgument)
    {before after : Nat} :
    ∀ {a : Argument}, a.Numbered before after → (a.tracedLiteral stream role).AccountsFor before
  | .mk _ body, hbody => by
    rw [Argument.tracedLiteral]
    refine (Pattern.accounts_traced (t := body) stream hbody).bind fun samples _ => ?_
    dsimp only
    split
    · exact accounts_throw _
    · exact accounts_pure trivial

/-- Probes account for their references, and set no groups. -/
lemma Branches.accounts_probes (stream : WordStream) {before after first : Nat} :
    ∀ {b : Branches}, b.Numbered before after → ∀ choice place : Nat,
      (b.tracedProbes stream choice place).AccountsFor first
  | .one _ _ body, ⟨_, _, hbody⟩, choice, place => by
    rw [Branches.tracedProbes]
    split
    · exact accounts_pure trivial
    · exact (Pattern.accounts_traced stream hbody).probe.bind fun _ _ => accounts_pure trivial
  | .more _ _ body rest, ⟨_, hbody, hrest⟩, choice, place => by
    rw [Branches.tracedProbes]
    split
    · exact Branches.accounts_probes stream hrest choice (place + 1)
    · exact (Pattern.accounts_traced stream hbody).probe.bind fun _ _ =>
        (Branches.accounts_probes stream hrest choice (place + 1)).bind fun _ _ =>
          accounts_pure trivial

/-- The chosen branch accounts for its references. -/
lemma Branches.accounts_chosen (stream : WordStream) {before after : Nat} :
    ∀ {b : Branches}, b.Numbered before after → ∀ choice : Nat,
      (b.tracedChosen stream choice).AccountsFor before
  | .one _ _ body, ⟨_, _, hbody⟩, choice => by
    rw [Branches.tracedChosen]
    exact (Pattern.accounts_traced stream hbody).bind fun _ _ => accounts_pure trivial
  | .more _ _ body rest, ⟨_, hbody, _⟩, 0 => by
    rw [Branches.tracedChosen]
    exact (Pattern.accounts_traced stream hbody).bind fun _ _ => accounts_pure trivial
  | .more before' count body rest, ⟨hbefore, hbody, hrest⟩, choice + 1 => by
    rw [Branches.tracedChosen]
    exact (Branches.accounts_chosen stream hrest choice).mono (by omega)

end

end PatternSampler
