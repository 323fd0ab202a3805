import PatternSampler.Proofs.Counting.Drawn
import PatternSampler.Proofs.Language.Outputs

set_option autoImplicit false

/-!
# What can be read off a run

Two runs of a pattern are compared by what is seen of them, which is either their draws or their
text. Runs with the same draws have the same text, whatever they have probed. If there are no
alternations, runs with the same text have the same draws as well, since each choice of a member
leaves its own character at its own place.

## Main definitions

* `View` — what is seen of a run.
* `Traced.Legible` — runs of two actions that look the same are the same.

## Main results

* `Traced.Legible.seq` — an action and what follows it.
* `Pattern.legible_traced` — what is seen of a pattern tells its draws and its text.
-/

namespace PatternSampler

open Run

/-! ## Views -/

/-- What is seen of a run with some draws and some text. A choice of a character is seen if the
character is. -/
structure View (β : Type) where
  look : List Draw → List Char → List β
  look_append : ∀ path path' text text',
    look (path ++ path') (text ++ text') = look path text ++ look path' text'
  eq_of_look : ∀ (n i j : Nat) (c d : Char) (rest rest' : List β), (c = d → i = j) →
    look [(n, i)] [c] ++ rest = look [(n, j)] [d] ++ rest' → i = j

/-- All draws are seen. -/
def View.draws : View Draw where
  look path _ := path
  look_append _ _ _ _ := rfl
  eq_of_look _ _ _ _ _ _ _ _ h := (Prod.mk.inj (List.cons.inj h).1).2

/-- The text is seen. -/
def View.text : View Char where
  look _ text := text
  look_append _ _ _ _ := rfl
  eq_of_look _ _ _ _ _ _ _ hchar h := hchar (List.cons.inj h).1

/-- Choices are seen that leave no character. -/
def View.ShowsChoices {β : Type} (V : View β) : Prop :=
  ∀ (n i j : Nat) (rest rest' : List β), V.look [(n, i)] [] ++ rest = V.look [(n, j)] [] ++ rest' →
    i = j

/-- Who sees all draws sees the choices that leave no character. -/
lemma View.showsChoices_draws : View.draws.ShowsChoices := fun _ _ _ _ _ h =>
  (Prod.mk.inj (List.cons.inj h).1).2

/-! ## Actions -/

namespace Traced

variable {α β γ δ : Type}

/-- Runs of the two actions from the same texts of groups, which look the same as far as one of them
goes, have the same draws, spell the same and leave the same texts of groups behind. Their results
are related by `R`. -/
def Legible (V : View β) (spell : α → List Char) (m m' : Traced α) (R : α → α → Prop) : Prop :=
  ∀ p p' x x' q q', p.groups = p'.groups → (m p).2 = .ok x q → (m' p').2 = .ok x' q' →
    ∀ rest rest', V.look (draws (m p).1) (spell x) ++ rest =
        V.look (draws (m' p').1) (spell x') ++ rest' →
      draws (m p).1 = draws (m' p').1 ∧ spell x = spell x' ∧ R x x' ∧ q.groups = q'.groups

variable {V : View β} {spell : α → List Char} {m m' : Traced α} {R : α → α → Prop}

/-- Results that spell the same, from the same texts of groups. -/
lemma legible_pure {x x' : α} (hspell : spell x = spell x') (hR : R x x') :
    Legible V spell (pure x) (pure x') R := by
  rintro p p' _ _ _ _ hgroups ⟨⟩ ⟨⟩ - - -
  exact ⟨rfl, hspell, hR, hgroups⟩

/-- The draws of two actions whose results are put together. -/
lemma exists_of_seq {f : α → Traced γ} {g : α → γ → δ} {p r : Progress} {z : δ}
    (h : ((do
      let x ← m
      let y ← f x
      return g x y : Traced δ) p).2 = .ok z r) :
    ∃ x q y, (m p).2 = .ok x q ∧ (f x q).2 = .ok y r ∧ z = g x y ∧
      draws ((do
        let x ← m
        let y ← f x
        return g x y : Traced δ) p).1 = draws (m p).1 ++ draws (f x q).1 := by
  obtain ⟨x, q, hx, h, hhistory⟩ := exists_of_bind h
  obtain ⟨y, s, hy, h, hhistory'⟩ := exists_of_bind h
  cases h
  refine ⟨x, q, y, hx, hy, rfl, ?_⟩
  rw [hhistory, hhistory', ← draws_append]
  exact congrArg draws (congrArg _ (List.append_nil _))

/-- An action and what follows it, where the result spells what both spell one behind the other. -/
lemma Legible.seq {f f' : α → Traced γ} {g : α → γ → δ} {spell' : γ → List Char}
    {spell'' : δ → List Char} {S : γ → γ → Prop} {T : δ → δ → Prop}
    (hm : Legible V spell m m' R)
    (hf : ∀ x x', spell x = spell x' → R x x' → Legible V spell' (f x) (f' x') S)
    (hspell : ∀ x y, spell'' (g x y) = spell x ++ spell' y)
    (hT : ∀ x x' y y', R x x' → S y y' → T (g x y) (g x' y')) :
    Legible V spell''
      (do
        let x ← m
        let y ← f x
        return g x y)
      (do
        let x ← m'
        let y ← f' x
        return g x y) T := by
  intro p p' z z' r r' hgroups hz hz' rest rest' hlook
  obtain ⟨x, q, y, hx, hy, rfl, hdraws⟩ := exists_of_seq hz
  obtain ⟨x', q', y', hx', hy', rfl, hdraws'⟩ := exists_of_seq hz'
  rw [hdraws, hdraws', hspell, hspell] at hlook ⊢
  rw [V.look_append, V.look_append, List.append_assoc, List.append_assoc] at hlook
  obtain ⟨hfirst, hspellx, hR, hgroups'⟩ := hm p p' x x' q q' hgroups hx hx' _ _ hlook
  rw [hfirst, hspellx] at hlook
  obtain ⟨hsecond, hspelly, hS, hgroups''⟩ :=
    hf x x' hspellx hR q q' y y' _ _ hgroups' hy hy' rest rest' (List.append_cancel_left hlook)
  exact ⟨by rw [hfirst, hsecond], by rw [hspellx, hspelly], hT x x' y y' hR hS, hgroups''⟩

/-- An action that spells nothing, and what follows it. -/
lemma Legible.after {f f' : α → Traced γ} {spell' : γ → List Char} {S : γ → γ → Prop}
    (hm : Legible V (fun _ => []) m m' R)
    (hf : ∀ x x', R x x' → Legible V spell' (f x) (f' x') S) :
    Legible V spell' (m >>= f) (m' >>= f') S := by
  have hall : Legible V spell' (m >>= fun x => f x >>= fun y => pure y)
      (m' >>= fun x => f' x >>= fun y => pure y) S :=
    hm.seq (fun x x' _ hR => hf x x' hR) (fun _ _ => rfl) fun _ _ _ _ _ hS => hS
  simpa only [bind_pure] using hall

/-- The result of an action is turned into another one that spells the same. -/
lemma Legible.map {g : α → γ} {spell' : γ → List Char} {S : γ → γ → Prop}
    (hm : Legible V spell m m' R) (hspell : ∀ x, spell' (g x) = spell x)
    (hS : ∀ x x', R x x' → S (g x) (g x')) :
    Legible V spell' (do return g (← m)) (do return g (← m')) S := by
  have hnothing : Legible V (fun _ : Unit => []) (pure ()) (pure ()) fun _ _ => True :=
    legible_pure rfl trivial
  have hall : Legible V spell' (m >>= fun x => (pure () : Traced Unit) >>= fun _ => pure (g x))
      (m' >>= fun x => (pure () : Traced Unit) >>= fun _ => pure (g x)) S := by
    refine hm.seq (fun _ _ _ _ => hnothing) (fun x _ => ?_) fun x x' _ _ hR _ => hS x x' hR
    rw [hspell, List.append_nil]
  simpa only [pure_bind] using hall

/-- An action that neither draws nor spells and does the same from the same texts of groups. -/
lemma legible_still {R : α → α → Prop} (hdraws : ∀ p, draws (m p).1 = [])
    (hdraws' : ∀ p, draws (m' p).1 = [])
    (h : ∀ p p' x x' q q', p.groups = p'.groups → (m p).2 = .ok x q → (m' p').2 = .ok x' q' →
      R x x' ∧ q.groups = q'.groups) : Legible V (fun _ => []) m m' R :=
  fun p p' x x' q q' hgroups hx hx' _ _ _ =>
    ⟨(hdraws p).trans (hdraws' p').symm, rfl, h p p' x x' q q' hgroups hx hx'⟩

/-- The same text is kept for a group on both sides. -/
lemma legible_record {number : Nat} {text text' : String} (h : text = text') :
    Legible V (fun _ => []) (record number text) (record number text') fun _ _ => True := by
  subst h
  refine legible_still (fun _ => rfl) (fun _ => rfl) ?_
  rintro p p' x x' _ _ hgroups ⟨⟩ ⟨⟩
  exact ⟨trivial, congrArg (GroupTable.record number text) hgroups⟩

/-- References repeat the same text on both sides, and it is not spelled by draws. -/
lemma legible_tracedReference (span : Span) (digits : List Char) :
    Legible V (fun _ => []) (Construct.tracedReference span digits)
      (Construct.tracedReference span digits) Eq := by
  have hdraws : ∀ p, draws (Construct.tracedReference span digits p).1 = [] := fun p => by
    rw [Construct.tracedReference_apply]
    cases (decimal? digits).bind p.groups.text? <;> rfl
  refine legible_still hdraws hdraws ?_
  intro p p' text text' q q' hgroups htext htext'
  rw [Construct.tracedReference_apply] at htext htext'
  rw [hgroups] at htext
  cases hknown : (decimal? digits).bind p'.groups.text? with
  | none =>
    rw [hknown] at htext
    cases htext
  | some known =>
    rw [hknown] at htext htext'
    cases htext
    cases htext'
    exact ⟨rfl, hgroups⟩

/-- Nothing is seen of a probe, and it leaves nothing behind. -/
lemma legible_probe (m m' : Traced α) :
    Legible V (fun _ => []) (probe m) (probe m') fun _ _ => True := by
  refine legible_still (fun p => by rw [fst_probe]; rfl) (fun p => by rw [fst_probe]; rfl) ?_
  intro p p' x x' q q' hgroups hx hx'
  exact ⟨trivial, (groups_probe hx).trans (hgroups.trans (groups_probe hx').symm)⟩

/-- A choice that is seen or that is none. -/
lemma legible_choose (σ σ' : WordStream) {n : Nat} (h : 0 < n) (hV : n = 1 ∨ V.ShowsChoices) :
    Legible V (fun _ => []) (choose σ n h) (choose σ' n h) Eq := by
  rintro p p' i j q q' hgroups ⟨⟩ ⟨⟩ rest rest' hlook
  have hvalue : (uniform σ n p.position).1 = (uniform σ' n p'.position).1 := by
    rcases hV with hone | hV
    · have hlt := uniform_lt σ p.position h
      have hlt' := uniform_lt σ' p'.position h
      omega
    · exact hV n _ _ rest rest' hlook
  exact ⟨congrArg (fun value => [(n, value)]) hvalue, rfl, Fin.ext hvalue, hgroups⟩

/-- Actions that can be read off, several times over. -/
lemma Legible.replay (h : Legible V spell m m' R) (count : Nat) :
    Legible V (fun xs => xs.flatMap spell) (replay count m) (replay count m') fun _ _ => True := by
  induction count with
  | zero => exact legible_pure rfl trivial
  | succ count ih =>
    exact h.seq (fun _ _ _ _ => ih) (fun _ _ => List.flatMap_cons) fun _ _ _ _ _ _ => trivial

end Traced

open Traced

variable {β : Type} {V : View β} {σ σ' : WordStream}

/-! ## Repetition -/

/-- A count whose bounds are the same has one value only. -/
lemma legible_draw {count : RepeatCount} (h : count.low = count.high) :
    Legible V (fun _ => []) (count.traced σ) (count.traced σ') Eq := by
  cases count with
  | exactly n => exact legible_pure rfl rfl
  | between low high =>
    simp only [RepeatCount.low, RepeatCount.high] at h
    have hone : high - low + 1 = 1 := by omega
    refine (legible_choose σ σ' _ (.inl hone)).map (fun _ => rfl) ?_
    rintro i _ rfl
    rfl

section Repetition

variable {action action' : Traced Sample}

/-- Runs of both actions that look the same spell the same. -/
abbrev Spells (V : View β) (action action' : Traced Sample) : Prop :=
  Legible V Sample.characters action action' fun _ _ => True

/-- Runs of both actions that look the same spell the same. -/
abbrev SpellAll (V : View β) (row row' : Traced (List Sample)) : Prop :=
  Legible V (fun samples => samples.flatMap Sample.characters) row row' fun _ _ => True

/-- A repeated construct can be read off if the construct can and its count is fixed. -/
lemma legible_repeated {count : RepeatCount} (hcount : count.low = count.high)
    (h : Spells V action action') :
    Spells V (tracedRepeated σ count action) (tracedRepeated σ' count action') := by
  refine (legible_draw hcount).after ?_
  rintro n _ rfl
  exact (h.replay n).map Sample.characters_join fun _ _ _ => trivial

/-- What fixed counts add can be read off if the construct can. -/
lemma legible_extras {counts : List RepeatCount}
    (hcounts : ∀ count ∈ counts, count.low = count.high) (h : Spells V action action') :
    SpellAll V (tracedExtras σ counts action) (tracedExtras σ' counts action') := by
  induction counts generalizing action action' with
  | nil => exact legible_pure rfl trivial
  | cons count later ih =>
    obtain ⟨hcount, hlater⟩ := List.forall_mem_cons.1 hcounts
    refine (legible_draw hcount).after ?_
    rintro n _ rfl
    refine (h.replay (n - 1)).seq (fun _ _ _ _ => ih hlater (legible_repeated hcount h))
      (fun samples more => ?_) fun _ _ _ _ _ _ => trivial
    rw [List.flatMap_cons, Sample.characters_join]

/-- The instances of a construct can be read off if one of them can. -/
lemma legible_instances {counts : List RepeatCount}
    (hcounts : ∀ count ∈ counts, count.low = count.high) (h : Spells V action action') :
    SpellAll V (tracedInstances σ counts action) (tracedInstances σ' counts action') :=
  h.seq (fun _ _ _ _ => legible_extras hcounts h) (fun _ _ => List.flatMap_cons)
    fun _ _ _ _ _ _ => trivial

end Repetition

/-! ## Trees -/

/-- Samples with the same characters have the same text. -/
lemma Sample.text_eq_of_characters {s s' : Sample} (h : s.characters = s'.characters) :
    s.text = s'.text := String.toList_inj.1 h

/-- Each member of a set is seen. -/
lemma legible_charSet (set : CharSet) : Spells V (set.traced σ) (set.traced σ') := by
  unfold CharSet.traced
  split
  · rename_i hsize
    have hrun : ∀ (τ : WordStream) (p : Progress), ∃ (i : Fin set.size) (position : Nat),
        (do
          let place ← Traced.choose τ set.size hsize
          return ⟨(set.get place).toString, .choice set.size⟩ : Traced Sample) p =
            ([.drew set.size i],
              .ok ⟨(set.get i).toString, .choice set.size⟩ { p with position }) :=
      fun τ p => ⟨_, _, rfl⟩
    intro p p' s s' q q' hgroups hs hs' rest rest' hlook
    obtain ⟨i, _, hi⟩ := hrun σ p
    obtain ⟨j, _, hj⟩ := hrun σ' p'
    rw [hi] at hs hlook ⊢
    rw [hj] at hs' hlook ⊢
    cases hs
    cases hs'
    have hcharacters : ∀ k : Fin set.size,
        Sample.characters ⟨(set.get k).toString, .choice set.size⟩ = [set.get k] := fun k => by
      simp [Sample.characters]
    rw [hcharacters, hcharacters] at hlook
    obtain rfl : i = j := Fin.ext (V.eq_of_look set.size i j _ _ rest rest'
      (fun hchar => congrArg Fin.val (set.get_injective hchar)) hlook)
    exact ⟨rfl, rfl, trivial, hgroups⟩
  · exact legible_pure rfl trivial

/-- Making the texts of groups empty spells nothing. -/
lemma Branches.legible_tracedClear (branches : Branches) (choice : Nat) :
    Legible V (fun _ => []) (branches.tracedClear choice) (branches.tracedClear choice)
      fun _ _ => True := by
  refine legible_still (fun _ => branches.draws_emptied choice)
    (fun _ => branches.draws_emptied choice) ?_
  rintro p p' x x' _ _ hgroups ⟨⟩ ⟨⟩
  exact ⟨trivial, congrArg (branches.clearOthers choice) hgroups⟩

/-- Nothing is seen of the branches that are probed. -/
lemma Branches.legible_probes (choice : Nat) : ∀ (b : Branches) (place : Nat),
    Legible V (fun _ => []) (b.tracedProbes σ choice place) (b.tracedProbes σ' choice place)
      fun _ _ => True
  | .one _ _ body, place => by
    rw [Branches.tracedProbes, Branches.tracedProbes]
    split
    · exact legible_pure rfl trivial
    · exact (legible_probe _ _).map (fun _ => rfl) fun _ _ _ => trivial
  | .more _ _ body rest, place => by
    have hrest := Branches.legible_probes choice rest (place + 1)
    rw [Branches.tracedProbes, Branches.tracedProbes]
    split
    · exact hrest
    · exact (legible_probe _ _).seq
        (g := fun samples others => (Sample.join samples).entropy :: others)
        (fun _ _ _ _ => hrest) (fun _ _ => rfl) fun _ _ _ _ _ _ => trivial

/-- Keeping the text of a construct changes nothing in what can be read off. -/
lemma Traced.Legible.kept (number : Nat) {action action' : Traced Sample}
    (h : Spells V action action') :
    Spells V (tracedKept number action) (tracedKept number action') :=
  h.seq (fun _ _ hs _ => legible_record (Sample.text_eq_of_characters hs))
    (fun _ _ => (List.append_nil _).symm) fun _ _ _ _ _ _ => trivial

/-- An alternation can be read if its choice is seen. -/
lemma Branches.legible_tracedChoice {branches : Branches} (hV : V.ShowsChoices)
    (hchosen : ∀ choice : Nat,
      Spells V (branches.tracedChosen σ choice) (branches.tracedChosen σ' choice)) :
    Spells V (branches.tracedChoice σ) (branches.tracedChoice σ') := by
  refine (legible_choose σ σ' branches.length_pos (.inr hV)).after ?_
  rintro choice _ rfl
  have hlive : Spells V (branches.tracedLive σ choice) (branches.tracedLive σ' choice) :=
    (hchosen choice).seq (fun _ _ _ _ => branches.legible_tracedClear choice)
      (fun _ _ => (List.append_nil _).symm) fun _ _ _ _ _ _ => trivial
  exact (Branches.legible_probes choice branches 0).seq (fun _ _ _ _ => hlive) (fun _ _ => rfl)
    fun _ _ _ _ _ _ => trivial

mutual

/-- **A pattern can be read**: two runs of a pattern without calls, from the same texts of groups
and for any two streams, have the same draws and the same text if they look the same. Either all
choices are seen, or there are no alternations.

**Proof sketch.** By induction over the tree. What is seen of the runs so far decides the texts of
groups as well, and therefore what references repeat. -/
theorem Pattern.legible_traced : ∀ {t : Pattern}, t.CallFree →
    t.CountsIn (fun count => count.low = count.high) → (V.ShowsChoices ∨ t.Straight) →
      SpellAll V (t.traced σ) (t.traced σ')
  | .done, _, _, _ => by
    rw [Pattern.traced, Pattern.traced]
    exact legible_pure rfl trivial
  | .stop fault, _, _, _ => by
    rw [Pattern.traced, Pattern.traced]
    rintro p p' x x' q q' - ⟨⟩
  | .seq head counts rest, hcalls, ⟨hfixed, hcounts, hfixed'⟩, hV => by
    rw [Pattern.traced_seq, Pattern.traced_seq]
    exact (Construct.legible_instances hcalls.1 hfixed (hV.imp_right And.left) hcounts).seq
      (fun _ _ _ _ => Pattern.legible_traced hcalls.2 hfixed' (hV.imp_right And.right))
      (fun _ _ => List.flatMap_append) fun _ _ _ _ _ _ => trivial

/-- The instances of a construct without calls can be read off, if alternations can or there are
none. -/
lemma Construct.legible_instances : ∀ {c : Construct}, c.CallsIn (fun _ => False) →
    c.CountsIn (fun count => count.low = count.high) → (V.ShowsChoices ∨ c.Straight) →
      ∀ {counts : List RepeatCount}, (∀ count ∈ counts, count.low = count.high) →
        SpellAll V (c.tracedPrepare σ >>= tracedInstances σ counts)
          (c.tracedPrepare σ' >>= tracedInstances σ' counts)
  | .character c, _, _, _, counts, hcounts => by
    rw [Construct.tracedPrepare, Construct.tracedPrepare, pure_bind, pure_bind]
    exact PatternSampler.legible_instances hcounts (legible_pure rfl trivial)
  | .oneOf set, _, _, _, counts, hcounts => by
    rw [Construct.tracedPrepare, Construct.tracedPrepare, pure_bind, pure_bind]
    exact PatternSampler.legible_instances hcounts (legible_charSet set)
  | .reference span digits, _, _, _, counts, hcounts => by
    rw [Construct.tracedPrepare, Construct.tracedPrepare, bind_assoc, bind_assoc]
    refine (legible_tracedReference span digits).after ?_
    rintro text _ rfl
    rw [pure_bind, pure_bind]
    exact PatternSampler.legible_instances hcounts (legible_pure rfl trivial)
  | .group number body, hcalls, hfixed, hV, counts, hcounts => by
    rw [Construct.tracedPrepare_group, Construct.tracedPrepare_group, pure_bind, pure_bind]
    exact PatternSampler.legible_instances hcounts (Legible.kept number
      ((Pattern.legible_traced hcalls hfixed hV).map Sample.characters_join fun _ _ _ => trivial))
  | .alternation number branches, hcalls, hfixed, hV, counts, hcounts => by
    have hV := hV.resolve_right id
    rw [Construct.tracedPrepare_alternation, Construct.tracedPrepare_alternation, pure_bind,
      pure_bind]
    exact PatternSampler.legible_instances hcounts (Legible.kept number
      (Branches.legible_tracedChoice hV (Branches.legible_chosen hV hcalls hfixed)))

/-- The chosen branch can be read off. -/
lemma Branches.legible_chosen (hV : V.ShowsChoices) : ∀ {b : Branches},
    b.CallsIn (fun _ => False) → b.CountsIn (fun count => count.low = count.high) →
      ∀ choice : Nat, Spells V (b.tracedChosen σ choice) (b.tracedChosen σ' choice)
  | .one _ _ body, hcalls, hfixed, choice => by
    rw [Branches.tracedChosen, Branches.tracedChosen]
    exact (Pattern.legible_traced hcalls hfixed (.inl hV)).map Sample.characters_join
      fun _ _ _ => trivial
  | .more _ _ body _, hcalls, hfixed, 0 => by
    rw [Branches.tracedChosen, Branches.tracedChosen]
    exact (Pattern.legible_traced hcalls.1 hfixed.1 (.inl hV)).map Sample.characters_join
      fun _ _ _ => trivial
  | .more _ _ _ rest, hcalls, hfixed, choice + 1 => by
    rw [Branches.tracedChosen, Branches.tracedChosen]
    exact Branches.legible_chosen hV hcalls.2 hfixed.2 choice

end

end PatternSampler
