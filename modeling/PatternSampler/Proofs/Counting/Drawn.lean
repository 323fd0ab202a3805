import PatternSampler.Proofs.Counting.Paths
import PatternSampler.Proofs.History.Traced
import PatternSampler.Proofs.Run.Choices

set_option autoImplicit false

/-!
# Every path is drawn

The draws of a run that ends well are a path of its pattern. If all runs end well, each path is
drawn from some stream.

## Main definitions

* `draws` — the draws that a history tells of, except those inside probes.
* `Traced.Local` — an action with its history depends on the words that it takes.
* `Traced.Takes` — the draws of an action are those of a set of paths.

## Main results

* `Traced.Takes.bind` — an action and what follows it.
* `Pattern.takes_traced` — a pattern takes its paths.

## Implementation notes

Whether a reference can be resolved is no matter of the draws. A path is drawn wherever no run from
the same progress fails, and this goes over to the parts of an action.
-/

namespace PatternSampler

open Run

/-! ## Draws of a history -/

/-- The draw that an event tells of. -/
def Event.draw? : Event → Option Draw
  | drew bound value => some (bound, value)
  | _ => none

/-- The draws that a history tells of, except those inside probes. -/
def draws (history : List Event) : List Draw := history.filterMap Event.draw?

/-- The draws of two histories are the draws of one behind those of the other. -/
lemma draws_append (front back : List Event) : draws (front ++ back) = draws front ++ draws back :=
  List.filterMap_append

namespace Traced

variable {α β : Type}

/-! ## Locality -/

/-- The position behind an action. -/
def stop (m : Traced α) (p : Progress) : Nat := m.forget.stop p

/-- The position behind an action that ends well. -/
lemma stop_of_eq_ok {m : Traced α} {p q : Progress} {x : α} (h : (m p).2 = .ok x q) :
    m.stop p = q.position := by
  simp only [stop, Run.stop, forget, h]

/-- The action does not go back in the stream, and it does the same, with the same history, for any
stream that agrees on the words which it takes. -/
def Local (m : WordStream → Traced α) : Prop :=
  ∀ (σ τ : WordStream) (p : Progress), p.position ≤ (m σ).stop p ∧
    ((∀ i, p.position ≤ i → i < (m σ).stop p → σ i = τ i) → m τ p = m σ p)

/-- For the stream, the action ends well. -/
def EndsWell (m : Traced α) (p : Progress) : Prop := ∃ x q, (m p).2 = .ok x q

variable {m : WordStream → Traced α} {f : WordStream → α → Traced β} {L M : Language Draw}
  {P : α → Prop} {Q : β → Prop}

/-- Two runs for two streams, the second one from the position on where the first one ends, are
parts of one run. -/
lemma bind_splice (hm : Local m) {x : α} (hf : Local fun σ => f σ x) {σ τ : WordStream}
    {p q : Progress} {history : List Event} (hrun : m σ p = (history, .ok x q)) :
    (m (splice σ τ q.position) >>= f (splice σ τ q.position)) p =
      (history ++ (f τ x q).1, (f τ x q).2) := by
  have hfirst : m (splice σ τ q.position) p = (history, .ok x q) := by
    rw [← hrun]
    apply (hm σ _ p).2
    intro i _ hlt
    rw [stop_of_eq_ok (congrArg Prod.snd hrun)] at hlt
    exact (if_pos hlt).symm
  have hsecond : f (splice σ τ q.position) x q = f τ x q := by
    apply (hf τ _ q).2
    intro i hi _
    exact (if_neg (Nat.not_lt.2 hi)).symm
  rw [bind_of_eq_ok hfirst, hsecond]

/-- What follows an action depends on the words that it takes, whichever result the action has. -/
lemma Local.bind (hm : Local m) (hf : ∀ σ p x q, (m σ p).2 = .ok x q → Local fun σ => f σ x) :
    Local fun σ => m σ >>= f σ := by
  intro σ τ p
  obtain ⟨hle, hcongr⟩ := hm σ τ p
  have hresult := hf σ p
  simp only [stop, Run.stop, forget] at hle hcongr ⊢
  simp only [bind_apply]
  generalize hrun : m σ p = run at hle hcongr hresult ⊢
  obtain ⟨history, x | fault⟩ := run
  · obtain ⟨hle', hcongr'⟩ := hresult x _ rfl σ τ _
    simp only [stop, Run.stop, forget] at hle hle' hcongr hcongr' ⊢
    refine ⟨Nat.le_trans hle hle', fun hagree => ?_⟩
    rw [hcongr fun i hi hlt => hagree i hi (Nat.lt_of_lt_of_le hlt hle')]
    simp only
    rw [hcongr' fun i hi hlt => hagree i (Nat.le_trans hle hi) hlt]
  · exact ⟨hle, fun hagree => by rw [hcongr hagree]⟩

/-! ## Paths of actions -/

/-- The draws of the action are a path, and its result satisfies `P`. From any progress where no
run fails, each of the paths is drawn from some stream. -/
structure Takes (m : WordStream → Traced α) (L : Language Draw) (P : α → Prop) : Prop where
  isLocal : Local m
  sound : ∀ σ p x q, (m σ p).2 = .ok x q → draws (m σ p).1 ∈ L ∧ P x
  complete : ∀ p, (∀ σ, (m σ).EndsWell p) → ∀ path ∈ L,
    ∃ σ x q, (m σ p).2 = .ok x q ∧ draws (m σ p).1 = path

/-- Behind an action, each path of what follows it is drawn, since the words of both can be chosen
independently of each other. -/
lemma Takes.behind {x : α} (hf : Takes (fun σ => f σ x) M Q) (hm : Local m) {σ : WordStream}
    {p q : Progress} {history : List Event} (hrun : m σ p = (history, .ok x q))
    (hends : ∀ σ, (m σ >>= f σ).EndsWell p) {path : List Draw} (hpath : path ∈ M) :
    ∃ ρ y r, ((m ρ >>= f ρ) p).2 = .ok y r ∧
      draws ((m ρ >>= f ρ) p).1 = draws history ++ path := by
  have hsplice := fun τ => bind_splice (τ := τ) hm hf.isLocal hrun
  have hsecond : ∀ τ, (f τ x).EndsWell q := fun τ => by
    have hboth := hends (splice σ τ q.position)
    rwa [EndsWell, hsplice τ] at hboth
  obtain ⟨τ, y, r, hy, hdraws⟩ := hf.complete q hsecond path hpath
  refine ⟨splice σ τ q.position, y, r, ?_, ?_⟩
  · rw [hsplice τ]
    exact hy
  · rw [hsplice τ, draws_append, hdraws]

/-- **Composition**: an action and what follows it take the paths of both, one behind the other. -/
lemma Takes.bind (hm : Takes m L P) (hf : ∀ x, P x → Takes (fun σ => f σ x) M Q) :
    Takes (fun σ => m σ >>= f σ) (L * M) Q where
  isLocal := hm.isLocal.bind fun σ p x q hx => (hf x (hm.sound σ p x q hx).2).isLocal
  sound := by
    intro σ p y r hy
    obtain ⟨x, q, hx, hy, hhistory⟩ := exists_of_bind hy
    obtain ⟨hdraws, hP⟩ := hm.sound σ p x q hx
    obtain ⟨hdraws', hQ⟩ := (hf x hP).sound σ q y r hy
    rw [hhistory, draws_append]
    exact ⟨Language.append_mem_mul hdraws hdraws', hQ⟩
  complete := by
    intro p hends path hpath
    obtain ⟨front, hfront, back, hback, rfl⟩ := Language.mem_mul.1 hpath
    have hfirst : ∀ σ, (m σ).EndsWell p := fun σ => by
      obtain ⟨y, r, hy⟩ := hends σ
      obtain ⟨x, q, hx, -⟩ := exists_of_bind hy
      exact ⟨x, q, hx⟩
    obtain ⟨σ, x, q, hx, rfl⟩ := hm.complete p hfirst front hfront
    exact (hf x (hm.sound σ p x q hx).2).behind hm.isLocal (Prod.ext rfl hx) hends hback

/-- An action without draws that stays where it is in the stream. -/
lemma takes_still {a : Traced α} (hstop : ∀ p, a.stop p = p.position)
    (hdraws : ∀ p, draws (a p).1 = []) (hP : ∀ p x q, (a p).2 = .ok x q → P x) :
    Takes (fun _ => a) 1 P where
  isLocal _ _ p := ⟨(hstop p).ge, fun _ => rfl⟩
  sound _ p x q hx := ⟨hdraws p, hP p x q hx⟩
  complete := by
    intro p hends path hpath
    obtain ⟨x, q, hx⟩ := hends fun _ => 0
    exact ⟨fun _ => 0, x, q, hx, (hdraws p).trans hpath.symm⟩

/-- An action that only yields a result takes the empty path. -/
lemma takes_pure {x : α} (h : P x) : Takes (fun _ => pure x) 1 P :=
  takes_still (fun _ => rfl) (fun _ => rfl) (by rintro p y q ⟨⟩; exact h)

/-- The result of an action is turned into another one. -/
lemma Takes.map {g : α → β} (hm : Takes m L P) (hg : ∀ x, P x → Q (g x)) :
    Takes (fun σ => do return g (← m σ)) L Q := by
  rw [← mul_one L]
  exact hm.bind fun x hx => takes_pure (hg x hx)

/-- A choice looks at no more words than it takes. -/
lemma local_tracedChoose {n : Nat} (hpos : 0 < n) : Local fun σ => choose σ n hpos := by
  intro σ τ p
  have hle := le_uniform_snd σ n p.position
  refine ⟨Nat.le_trans (Nat.le_add_right _ _) hle, fun hagree => ?_⟩
  have hdraw : Run.choose τ n hpos p = Run.choose σ n hpos p :=
    (Run.local_choose hpos σ τ p).2 hagree
  simp only [choose, bind_apply, lift_apply, hdraw]

/-- An action behind a choice. -/
lemma takes_choose {n : Nat} {f : WordStream → Fin n → Traced β} (hn : n < sizeLimit)
    (hpos : 0 < n) {K : Nat → Language Draw} (hf : ∀ i, Takes (fun σ => f σ i) (K i) Q) :
    Takes (fun σ => choose σ n hpos >>= f σ) (tagged (Prod.mk n) n K) Q where
  isLocal := (local_tracedChoose hpos).bind fun _ _ i _ _ => (hf i).isLocal
  sound := by
    intro σ p y r hy
    obtain ⟨hdraws, hQ⟩ := (hf _).sound σ _ y r hy
    exact ⟨⟨_, uniform_lt σ p.position hpos, _, hdraws, rfl⟩, hQ⟩
  complete := by
    rintro p hends _ ⟨i, hi, rest, hrest, rfl⟩
    obtain ⟨σ, hσ⟩ := exists_uniform_eq (le_chunkSize hn) hi p.position
    have hrun : choose σ n hpos p =
        ([.drew n i], .ok ⟨i, hi⟩ { p with position := (uniform σ n p.position).2 }) := by
      subst hσ
      rfl
    exact (hf ⟨i, hi⟩).behind (local_tracedChoose hpos) hrun hends hrest

/-- Keeping the text of a group takes no draw. -/
lemma takes_record (number : Nat) (text : String) :
    Takes (fun _ => record number text) 1 fun _ => True :=
  takes_still (fun _ => rfl) (fun _ => rfl) fun _ _ _ _ => trivial

/-- Looking up the text of a reference takes no draw. -/
lemma takes_tracedReference (span : Span) (digits : List Char) :
    Takes (fun _ => Construct.tracedReference span digits) 1 fun _ => True := by
  refine takes_still (fun p => ?_) (fun p => ?_) fun _ _ _ _ => trivial
  · simp only [stop, Run.stop, forget, Construct.tracedReference_apply]
    cases (decimal? digits).bind p.groups.text? <;> rfl
  · rw [Construct.tracedReference_apply]
    cases (decimal? digits).bind p.groups.text? <;> rfl

/-- A probe stands where its action would. -/
lemma stop_probe (a : Traced α) (p : Progress) : (Traced.probe a).stop p = a.stop p := by
  simp only [stop, Run.stop, forget, Traced.probe]
  rcases a p with ⟨history, x | fault⟩ <;> rfl

/-- A probe takes no path. -/
lemma Takes.probe (hm : Takes m L P) : Takes (fun σ => probe (m σ)) 1 fun _ => True where
  isLocal := by
    intro σ τ p
    obtain ⟨hle, hcongr⟩ := hm.isLocal σ τ p
    rw [stop_probe]
    exact ⟨hle, fun hagree => by simp only [Traced.probe, hcongr hagree]⟩
  sound σ p x q _ := ⟨by rw [fst_probe]; rfl, trivial⟩
  complete := by
    intro p hends path hpath
    obtain ⟨x, q, hx⟩ := hends fun _ => 0
    refine ⟨fun _ => 0, x, q, hx, ?_⟩
    rw [fst_probe]
    exact hpath.symm

/-- An action several times over takes as many paths one behind the other. -/
lemma Takes.replay (hm : Takes m L P) (count : Nat) :
    Takes (fun σ => replay count (m σ)) (L ^ count) fun _ => True := by
  induction count with
  | zero => exact takes_pure trivial
  | succ count ih =>
    rw [pow_succ']
    exact hm.bind fun x _ => ih.map fun _ _ => trivial

end Traced

open Traced

/-! ## Repetition -/

/-- A count whose bounds are the same takes a single path. -/
lemma takes_draw {count : RepeatCount} (h : count.low = count.high) :
    Takes (fun σ => count.traced σ) {count.path} fun n => n = count.low := by
  cases count with
  | exactly n => exact takes_pure rfl
  | between low high =>
    simp only [RepeatCount.low, RepeatCount.high] at h
    have hpaths : tagged (Prod.mk (high - low + 1)) (high - low + 1) (fun _ => 1) =
        ({[(high - low + 1, 0)]} : Language Draw) := by
      ext path
      constructor
      · rintro ⟨i, hi, _, rfl, rfl⟩
        obtain rfl : i = 0 := by omega
        rfl
      · rintro rfl
        exact ⟨0, Nat.succ_pos _, [], rfl, rfl⟩
    rw [RepeatCount.path, ← hpaths]
    refine takes_choose (by rw [h, Nat.sub_self]; decide) (Nat.succ_pos _) fun i => takes_pure ?_
    have := i.isLt
    simp only [RepeatCount.low]
    omega

section Repetition

variable {action : WordStream → Traced Sample} {L : Language Draw}

/-- A construct repeated by a count takes the paths of the count. -/
lemma takes_repeated {count : RepeatCount} (hcount : count.low = count.high)
    (h : Takes action L fun _ => True) :
    Takes (fun σ => tracedRepeated σ count (action σ)) (count.paths L) fun _ => True := by
  refine (takes_draw hcount).bind fun n hn => ?_
  rw [hn]
  exact (h.replay count.low).map fun _ _ => trivial

/-- What counts add takes the paths that they add. -/
lemma takes_extras {counts : List RepeatCount} (hcounts : ∀ count ∈ counts, count.low = count.high)
    (h : Takes action L fun _ => True) :
    Takes (fun σ => tracedExtras σ counts (action σ)) (addedPaths counts L) fun _ => True := by
  induction counts generalizing action L with
  | nil => exact takes_pure trivial
  | cons count later ih =>
    obtain ⟨hcount, hlater⟩ := List.forall_mem_cons.1 hcounts
    refine (takes_draw hcount).bind fun n hn => ?_
    rw [hn]
    exact (h.replay (count.low - 1)).bind fun _ _ =>
      (ih hlater (takes_repeated hcount h)).map fun _ _ => trivial

/-- The first instance of an action and those that repeat counts add. -/
lemma takes_instances {counts : List RepeatCount}
    (hcounts : ∀ count ∈ counts, count.low = count.high) (h : Takes action L fun _ => True) :
    Takes (fun σ => tracedInstances σ counts (action σ)) (L * addedPaths counts L)
      fun _ => True :=
  h.bind fun _ _ => (takes_extras hcounts h).map fun _ _ => trivial

end Repetition

/-! ## Trees -/

/-- A set takes one draw for its member, if it has any. -/
lemma takes_charSet (set : CharSet) :
    Takes (fun σ => set.traced σ) set.paths fun _ => True := by
  unfold CharSet.traced CharSet.paths
  by_cases hsize : 0 < set.size
  · have hlimit : set.size < sizeLimit := Nat.lt_of_le_of_lt set.size_le (by decide)
    simp only [dif_pos hsize, if_pos hsize]
    exact takes_choose hlimit hsize fun _ => takes_pure trivial
  · simp only [dif_neg hsize, if_neg hsize]
    exact takes_pure trivial

/-- The notes on branches that are not chosen tell of no draws. -/
lemma Branches.draws_emptied : ∀ (branches : Branches) (choice : Nat),
    draws (branches.emptied choice) = []
  | .one _ _ _, 0 => rfl
  | .one _ _ _, _ + 1 => rfl
  | .more _ _ _ rest, 0 => rest.draws_emptied rest.length
  | .more _ _ _ rest, choice + 1 => rest.draws_emptied choice

/-- Making the texts of groups empty takes no draw. -/
lemma Branches.takes_tracedClear (branches : Branches) (choice : Nat) :
    Takes (fun _ => branches.tracedClear choice) 1 fun _ => True :=
  takes_still (fun _ => rfl) (fun _ => branches.draws_emptied choice) fun _ _ _ _ => trivial

/-- Keeping the text of a construct takes no draw but those of the construct. -/
lemma takes_kept (number : Nat) {action : WordStream → Traced Sample} {L : Language Draw}
    (h : Takes action L fun _ => True) :
    Takes (fun σ => tracedKept number (action σ)) L fun _ => True := by
  rw [← mul_one L]
  exact h.bind fun s _ => (takes_record number s.text).map fun _ _ => trivial

/-- An alternation takes a path of the branch that is chosen, behind the choice. -/
lemma Branches.takes_tracedChoice {branches : Branches} (hlength : branches.length < sizeLimit)
    (hprobes : ∀ choice : Nat, Takes (fun σ => branches.tracedProbes σ choice 0) 1 fun _ => True)
    (hchosen : ∀ choice : Nat,
      Takes (fun σ => branches.tracedChosen σ choice) (branches.chosenPaths choice) fun _ => True) :
    Takes (fun σ => branches.tracedChoice σ)
      (tagged (Prod.mk branches.length) branches.length fun choice => branches.chosenPaths choice)
      fun _ => True := by
  refine takes_choose hlength branches.length_pos fun choice => ?_
  have hlive : Takes (fun σ => branches.tracedLive σ choice) (branches.chosenPaths choice * 1)
      fun _ => True :=
    (hchosen choice).bind fun _ _ => (branches.takes_tracedClear choice).map fun _ _ => trivial
  have hpaths : branches.chosenPaths choice = 1 * (branches.chosenPaths choice * 1) := by
    simp only [one_mul, mul_one]
  rw [hpaths]
  exact (hprobes choice).bind fun others _ => hlive.map fun _ _ => trivial

mutual

/-- **A pattern takes its paths**: where no run of a pattern without calls fails, the draws of its
runs are exactly its paths, if the bounds of each count are the same.

**Proof sketch.** By induction over the tree. What is drawn inside probes takes words from the
stream, but it is no part of a path. -/
theorem Pattern.takes_traced : ∀ {t : Pattern}, t.CallFree → t.Drawable →
    t.CountsIn (fun count => count.low = count.high) →
      Takes (fun σ => t.traced σ) t.paths fun _ => True
  | .done, _, _, _ => by
    simp only [Pattern.traced, Pattern.paths]
    exact takes_pure trivial
  | .stop fault, _, _, _ => by
    simp only [Pattern.traced, Pattern.paths]
    exact takes_still (fun _ => rfl) (fun _ => rfl) fun _ _ _ _ => trivial
  | .seq head counts rest, hcalls, ⟨hhead, _, hrest⟩, ⟨hfixed, hcounts, hfixed'⟩ => by
    simp only [Pattern.traced_seq, Pattern.paths]
    exact (Construct.takes_instances hcalls.1 hhead hfixed hcounts).bind fun _ _ =>
      (Pattern.takes_traced hcalls.2 hrest hfixed').map fun _ _ => trivial

/-- The instances of a construct take its paths and those that its counts add. -/
lemma Construct.takes_instances : ∀ {c : Construct}, c.CallsIn (fun _ => False) → c.Drawable →
    c.CountsIn (fun count => count.low = count.high) →
      ∀ {counts : List RepeatCount}, (∀ count ∈ counts, count.low = count.high) →
        Takes (fun σ => c.tracedPrepare σ >>= tracedInstances σ counts)
          (c.paths * addedPaths counts c.paths) fun _ => True
  | .character c, _, _, _, counts, hcounts => by
    simp only [Construct.tracedPrepare, pure_bind, Construct.paths]
    exact takes_instances hcounts (takes_pure trivial)
  | .oneOf set, _, _, _, counts, hcounts => by
    simp only [Construct.tracedPrepare, pure_bind, Construct.paths]
    exact PatternSampler.takes_instances hcounts (takes_charSet set)
  | .reference span digits, _, _, _, counts, hcounts => by
    simp only [Construct.tracedPrepare, bind_assoc, pure_bind, Construct.paths]
    rw [← one_mul (1 * addedPaths counts 1)]
    exact (takes_tracedReference span digits).bind fun _ _ =>
      PatternSampler.takes_instances hcounts (takes_pure trivial)
  | .group number body, hcalls, hdraw, hfixed, counts, hcounts => by
    simp only [Construct.tracedPrepare_group, pure_bind, Construct.paths]
    exact PatternSampler.takes_instances hcounts (takes_kept number
      ((Pattern.takes_traced hcalls hdraw hfixed).map fun _ _ => trivial))
  | .alternation number branches, hcalls, ⟨hlength, hdraw⟩, hfixed, counts, hcounts => by
    simp only [Construct.tracedPrepare_alternation, pure_bind, Construct.paths]
    exact PatternSampler.takes_instances hcounts (takes_kept number
      (Branches.takes_tracedChoice hlength
        (fun choice => Branches.takes_probes hcalls hdraw hfixed choice 0)
        (Branches.takes_chosen hcalls hdraw hfixed)))

/-- Probes take no draw that counts. -/
lemma Branches.takes_probes : ∀ {b : Branches}, b.CallsIn (fun _ => False) → b.Drawable →
    b.CountsIn (fun count => count.low = count.high) → ∀ choice place : Nat,
      Takes (fun σ => b.tracedProbes σ choice place) 1 fun _ => True
  | .one _ _ body, hcalls, hdraw, hfixed, choice, place => by
    simp only [Branches.tracedProbes]
    split
    · exact takes_pure trivial
    · exact (Pattern.takes_traced hcalls hdraw hfixed).probe.map fun _ _ => trivial
  | .more _ _ body rest, hcalls, hdraw, hfixed, choice, place => by
    have hrest := Branches.takes_probes hcalls.2 hdraw.2 hfixed.2 choice (place + 1)
    simp only [Branches.tracedProbes]
    split
    · exact hrest
    · rw [← one_mul (1 : Language Draw)]
      exact (Pattern.takes_traced hcalls.1 hdraw.1 hfixed.1).probe.bind fun _ _ =>
        hrest.map fun _ _ => trivial

/-- The chosen branch takes its own paths. -/
lemma Branches.takes_chosen : ∀ {b : Branches}, b.CallsIn (fun _ => False) → b.Drawable →
    b.CountsIn (fun count => count.low = count.high) → ∀ choice : Nat,
      Takes (fun σ => b.tracedChosen σ choice) (b.chosenPaths choice) fun _ => True
  | .one _ _ body, hcalls, hdraw, hfixed, choice => by
    simp only [Branches.tracedChosen, Branches.chosenPaths]
    exact (Pattern.takes_traced hcalls hdraw hfixed).map fun _ _ => trivial
  | .more _ _ body _, hcalls, hdraw, hfixed, 0 => by
    simp only [Branches.tracedChosen, Branches.chosenPaths]
    exact (Pattern.takes_traced hcalls.1 hdraw.1 hfixed.1).map fun _ _ => trivial
  | .more _ _ _ rest, hcalls, hdraw, hfixed, choice + 1 => by
    simp only [Branches.tracedChosen, Branches.chosenPaths]
    exact Branches.takes_chosen hcalls.2 hdraw.2 hfixed.2 choice

end

end PatternSampler
