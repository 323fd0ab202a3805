import PatternSampler.Proofs.Faults.Sound
import PatternSampler.Proofs.Run.Choices

set_option autoImplicit false

/-!
# Possible faults are reported

In a pattern without calls, each of the possible faults ends some run. Which one of several faults
is reported can therefore depend on random words: an alternation runs the branches that are not
chosen before the chosen one, so its first faulty branch is not always the one that reports.

## Main definitions

* `Outcome.error?` — the error that an outcome reports.

## Main results

* `Pattern.canFail_samples` — each possible fault ends some run.
* `error?_eq_iff` — random words have no part in the error exactly if all possible faults of the
  text report the same one.
-/

namespace PatternSampler

open Run

/-- A mistake that an action can end with ends a probe of it as well. -/
lemma Run.CanFail.probe {α : Type} {a : WordStream → Run α} {p : Progress} {fault : Fault}
    (h : CanFail a p fault) : CanFail (fun stream => probe (a stream)) p fault := by
  obtain ⟨σ, q, hrun⟩ := h
  refine ⟨σ, q, ?_⟩
  simp only [Run.probe, Bind.bind, EStateM.bind, get, getThe, MonadStateOf.get, EStateM.get, hrun]

/-! ## Parts without faults -/

section FaultFree

variable {before after : Nat} {known : Nat → Bool} {p : Progress}

/-- A construct without faults does not end a run, and its groups have a text behind it. -/
lemma Construct.can_instances {c : Construct} (hcalls : c.CallsIn (· ∈ Builtin.failFree))
    (hnum : c.Numbered before after) (counts : List RepeatCount) (hp : p.groups.Knows known)
    (hearly : c.earlyFaults known = [])
    (hlate : c.lateFaults (extended known c.earlyOpens) = []) :
    Can (fun stream => c.instances stream counts) p fun _ q =>
      q.groups.Knows (extended known c.opens) := by
  apply can_of_ends
  intro stream
  obtain ⟨S, T, hST, hfills⟩ := Construct.fills_prepare stream hnum
  have hinstances := hfills.instances counts p
  rw [hST] at hinstances
  refine (((Construct.preparesSoundly stream hcalls hnum).instances hfills counts hp).and
    hinstances).imp ?_ ?_
  · intro samples q ⟨_, hq⟩
    exact hq.knows hp (Construct.opens_iff hcalls hnum hearly hlate)
  · intro fault q ⟨hfault, _⟩
    rw [hearly, hlate] at hfault
    exact List.not_mem_nil hfault

/-- A probe of a pattern without faults can end well, and leaves the texts of groups as they were.
-/
lemma Pattern.can_probe {t : Pattern} (hcalls : t.FailFree) (hnum : t.Numbered before after)
    (hp : p.groups.Knows known) (hfaults : t.faults known = []) :
    Can (fun stream => probe (t.samples stream)) p fun _ q => q.groups = p.groups := by
  apply can_of_ends
  intro stream
  rw [ends_probe]
  apply (Pattern.ends_samples stream hcalls hnum hp).imp (fun _ _ _ => rfl)
  intro fault q hfault
  rw [hfaults] at hfault
  exact List.not_mem_nil hfault

/-- Probes of branches without faults can end well, and leave the texts of groups as they were. -/
lemma Branches.can_probeOthers {branches : Branches}
    (hcalls : branches.CallsIn (· ∈ Builtin.failFree)) (hnum : branches.Numbered before after)
    (choice place : Nat) (hp : p.groups.Knows known)
    (hfaults : branches.othersFaults choice place known = []) :
    Can (fun stream => branches.probeOthers stream choice place) p fun _ q =>
      q.groups = p.groups := by
  apply can_of_ends
  intro stream
  refine (Branches.ends_probeOthers stream hcalls hnum choice place hp).imp
    (fun _ _ h => h.2.1) ?_
  intro fault q hfault
  rw [hfaults] at hfault
  exact List.not_mem_nil hfault

end FaultFree

/-! ## Every fault ends some run -/

/-- A construct that is not prepared in any way shows its faults when it is generated. -/
lemma Construct.mem_lateFaults {c : Construct} {known : Nat → Bool} {fault : Fault}
    (hearly : c.earlyFaults known = []) (hopens : c.earlyOpens = fun _ => false)
    (h : fault ∈ orLater (c.earlyFaults known) (c.lateFaults (extended known c.earlyOpens))) :
    fault ∈ c.lateFaults known := by
  rwa [hearly, hopens, extended_false, orLater_nil] at h

/-- A mistake in an alternation shows for some choice. -/
lemma Construct.exists_choice {number : Nat} {branches : Branches} {known : Nat → Bool}
    {fault : Fault} (h : fault ∈ (Construct.alternation number branches).lateFaults known) :
    ∃ choice : Fin branches.length, fault ∈ branches.othersFaults choice 0 known ∨
      branches.othersFaults choice 0 known = [] ∧ fault ∈ branches.chosenFaults choice known := by
  obtain ⟨choice, hchoice, hfault⟩ := List.mem_flatMap.1 h
  exact ⟨⟨choice, List.mem_range.1 hchoice⟩, mem_orLater.1 hfault⟩

mutual

/-- **Every possible fault ends some run** of a pattern without calls.

**Proof sketch.** By induction over the tree. The words for the part with the fault are put behind
words for which the parts in front of it are generated. In an alternation the first words make the
choice that shows the fault. -/
theorem Pattern.canFail_samples {before after : Nat} {fault : Fault} :
    ∀ {t : Pattern}, t.CallFree → t.Numbered before after → t.Drawable →
      ∀ {p : Progress} {known : Nat → Bool}, p.groups.Knows known → fault ∈ t.faults known →
        CanFail (fun stream => t.samples stream) p fault
  | .done, _, _, _, _, _, _, hfault => absurd hfault List.not_mem_nil
  | .stop fault', _, _, _, p, _, _, hfault => by
    obtain rfl : fault = fault' := List.mem_singleton.1 hfault
    simp only [Pattern.samples]
    exact ⟨fun _ => 0, p, rfl⟩
  | .seq head counts rest, hcalls, ⟨mid, hhead, hrest⟩, ⟨hdrawHead, _, hdrawRest⟩, p, known, hp,
    hfault => by
    simp only [Pattern.samples_seq]
    rw [Pattern.faults] at hfault
    have hfree : head.CallsIn (· ∈ Builtin.failFree) := hcalls.1.imp fun _ => False.elim
    rcases mem_orLater.1 hfault with hfault | ⟨hnone, hfault⟩
    · exact (Construct.canFail_instances hcalls.1 hhead hdrawHead counts hp hfault).bind_left
    · obtain ⟨hearly, hlate⟩ := orLater_eq_nil.1 hnone
      refine .bind (head.settles.instances counts)
        (fun _ => rest.local_samples.bind fun _ => local_pure _) ?_
      apply (Construct.can_instances hfree hhead counts hp hearly hlate).imp
      intro _ q hq
      exact (Pattern.canFail_samples hcalls.2 hrest hdrawRest hq hfault).bind_left

/-- Each fault of a construct can end its instances. -/
lemma Construct.canFail_instances {before after : Nat} {fault : Fault} :
    ∀ {c : Construct}, c.CallsIn (fun _ => False) → c.Numbered before after → c.Drawable →
      ∀ (counts : List RepeatCount) {p : Progress} {known : Nat → Bool}, p.groups.Knows known →
        fault ∈ orLater (c.earlyFaults known) (c.lateFaults (extended known c.earlyOpens)) →
          CanFail (fun stream => c.instances stream counts) p fault
  | .reference span digits, _, _, _, counts, p, known, hp, hfault => by
    have hnum : (Construct.reference span digits).Numbered 0 0 := rfl
    have hends := Construct.preparesSoundly (fun _ => 0) (c := .reference span digits) trivial hnum
      p known hp
    -- preparing ends with the only fault that a reference can have
    simp only [Construct.earlyFaults, Construct.lateFaults] at hends hfault
    split at hfault
    · exact absurd hfault List.not_mem_nil
    · rename_i hnone
      simp only [if_neg hnone, List.mem_singleton] at hends
      obtain rfl := List.mem_singleton.1 hfault
      refine CanFail.bind_left (canFail_of_ends (fun _ => 0) (hends.imp_left ?_))
      exact fun _ _ h => List.cons_ne_nil _ _ h.1
  | .group number body, hcalls, ⟨_, hbody⟩, hdraw, counts, p, known, hp, hfault => by
    have hlate : fault ∈ body.faults known := Construct.mem_lateFaults rfl rfl hfault
    simp only [Construct.instances, Construct.prepare, pure_bind]
    exact (Pattern.canFail_samples hcalls hbody hdraw hp hlate).bind_left.bind_left
  | .alternation number branches, hcalls, ⟨_, hbranches⟩, ⟨hlength, hdraw⟩, counts, p, known, hp,
    hfault => by
    obtain ⟨choice, hfault⟩ := Construct.exists_choice (Construct.mem_lateFaults rfl rfl hfault)
    simp only [Construct.instances, Construct.prepare_alternation, pure_bind]
    refine CanFail.bind_left (.bind (local_choose branches.length_pos) (fun choice =>
      Branches.local_runChoice number choice (branches.local_probeOthers choice 0)
        (branches.local_chosen choice)) ?_)
    apply can_choose hlength choice branches.length_pos
    intro position
    simp only [Branches.runChoice]
    have hp : GroupTable.Knows (Progress.mk position p.groups).groups known := hp
    rcases hfault with hfault | ⟨hnone, hfault⟩
    · exact (Branches.canFail_probeOthers hcalls hbranches hdraw choice 0 hp hfault).bind_left
    · have hfree : branches.CallsIn (· ∈ Builtin.failFree) := hcalls.imp fun _ => False.elim
      refine .bind (branches.local_probeOthers choice 0) (fun _ =>
        (branches.local_chosen choice).bind fun _ => (local_modify _).bind fun _ =>
          (local_record number _).bind fun _ => local_pure _) ?_
      apply (Branches.can_probeOthers hfree hbranches choice 0 hp hnone).imp
      intro _ q hq
      exact (Branches.canFail_chosen hcalls hbranches hdraw choice (hq ▸ hp) hfault).bind_left
  | .character _, _, _, _, _, _, _, _, hfault => by
    simp [Construct.earlyFaults, Construct.lateFaults] at hfault
  | .oneOf _, _, _, _, _, _, _, _, hfault => by
    simp [Construct.earlyFaults, Construct.lateFaults] at hfault
  | .byte _, hcalls, _, _, _, _, _, _, _ => hcalls.elim
  | .encode _ _, hcalls, _, _, _, _, _, _, _ | .expand _ _, hcalls, _, _, _, _, _, _, _
  | .words _, hcalls, _, _, _, _, _, _, _ | .date _ _ _, hcalls, _, _, _, _, _, _, _
  | .shuffle _, hcalls, _, _, _, _, _, _, _ | .optional _, hcalls, _, _, _, _, _, _, _
  | .justify _ _ _ _, hcalls, _, _, _, _, _, _, _ => hcalls.1.elim

/-- Each fault of a branch that is not chosen can end the probes. -/
lemma Branches.canFail_probeOthers {before after : Nat} {fault : Fault} :
    ∀ {branches : Branches}, branches.CallsIn (fun _ => False) → branches.Numbered before after →
      branches.Drawable → ∀ (choice place : Nat) {p : Progress} {known : Nat → Bool},
        p.groups.Knows known → fault ∈ branches.othersFaults choice place known →
          CanFail (fun stream => branches.probeOthers stream choice place) p fault
  | .one _ _ body, hcalls, ⟨_, _, hbody⟩, hdraw, choice, place, p, known, hp, hfault => by
    simp only [Branches.probeOthers]
    rw [Branches.othersFaults] at hfault
    split at hfault
    · exact absurd hfault List.not_mem_nil
    · rename_i hne
      simp only [if_neg hne]
      exact (Pattern.canFail_samples hcalls hbody hdraw hp hfault).probe.bind_left
  | .more _ _ body rest, hcalls, ⟨_, hbody, hrest⟩, ⟨hdrawBody, hdrawRest⟩, choice, place, p,
    known, hp, hfault => by
    simp only [Branches.probeOthers]
    rw [Branches.othersFaults] at hfault
    by_cases hchoice : place = choice
    · simp only [if_pos hchoice, orLater_nil] at hfault ⊢
      exact Branches.canFail_probeOthers hcalls.2 hrest hdrawRest choice (place + 1) hp hfault
    · simp only [if_neg hchoice] at hfault ⊢
      rcases mem_orLater.1 hfault with hfault | ⟨hnone, hfault⟩
      · exact (Pattern.canFail_samples hcalls.1 hbody hdrawBody hp hfault).probe.bind_left
      · have hfree := Pattern.CallFree.failFree hcalls.1
        refine .bind body.local_samples.probe (fun _ =>
          (rest.local_probeOthers choice (place + 1)).bind fun _ => local_pure _) ?_
        apply (Pattern.can_probe hfree hbody hp hnone).imp
        intro _ q hq
        exact (Branches.canFail_probeOthers hcalls.2 hrest hdrawRest choice (place + 1)
          (hq ▸ hp) hfault).bind_left

/-- Each fault of the chosen branch can end it. -/
lemma Branches.canFail_chosen {before after : Nat} {fault : Fault} :
    ∀ {branches : Branches}, branches.CallsIn (fun _ => False) → branches.Numbered before after →
      branches.Drawable → ∀ (choice : Nat) {p : Progress} {known : Nat → Bool},
        p.groups.Knows known → fault ∈ branches.chosenFaults choice known →
          CanFail (fun stream => branches.chosen stream choice) p fault
  | .one _ _ body, hcalls, ⟨_, _, hbody⟩, hdraw, _, p, known, hp, hfault => by
    simp only [Branches.chosen]
    exact (Pattern.canFail_samples hcalls hbody hdraw hp hfault).bind_left
  | .more _ _ body _, hcalls, ⟨_, hbody, _⟩, ⟨hdraw, _⟩, 0, p, known, hp, hfault => by
    simp only [Branches.chosen]
    exact (Pattern.canFail_samples hcalls.1 hbody hdraw hp hfault).bind_left
  | .more _ _ _ rest, hcalls, ⟨_, _, hrest⟩, ⟨_, hdraw⟩, choice + 1, p, known, hp, hfault => by
    simp only [Branches.chosen]
    exact Branches.canFail_chosen hcalls.2 hrest hdraw choice hp hfault

end

/-! ## Whole patterns -/

/-- The error that an outcome reports, if there is one. -/
def Outcome.error? (outcome : Outcome) : Option PatternError :=
  match outcome.result with
  | .ok _ => none
  | .error fault => some fault.toError

/-- Each possible fault of a text is reported for some stream. -/
lemma exists_result_eq_error {pattern : String} (hcalls : (Pattern.ofText pattern.toList).CallFree)
    {fault : Fault} (h : fault ∈ faultsOfText pattern.toList) (position : Nat) :
    ∃ stream, (generate stream position pattern).result = .error fault := by
  have hfail : ∃ stream q,
      sampleText stream pattern.toList ⟨position, .empty⟩ = .error fault q := by
    rw [faultsOfText] at h
    simp only [sampleText]
    split at h
    · rename_i hlong
      obtain rfl := List.mem_singleton.1 h
      exact ⟨fun _ => 0, ⟨position, .empty⟩, by rw [if_pos hlong]; rfl⟩
    · rename_i hshort
      have hlimit : (Slice.whole pattern.toList).length < sizeLimit :=
        Nat.lt_of_le_of_lt (Nat.not_lt.1 hshort) (by decide)
      simp only [if_neg hshort]
      exact CanFail.bind_left (Pattern.canFail_samples hcalls (Pattern.numbered_ofSlice 0 _)
        (Pattern.drawable_ofSlice 0 _ hlimit) GroupTable.knows_empty h)
  obtain ⟨stream, q, hrun⟩ := hfail
  exact ⟨stream, by simp only [generate, hrun]⟩

/-- An outcome without a mistake, or with one of the possible faults of the text. -/
lemma error?_cases (stream : WordStream) (position : Nat) {pattern : String}
    (hcalls : (Pattern.ofText pattern.toList).FailFree) :
    faultsOfText pattern.toList = [] ∧ (generate stream position pattern).error? = none ∨
      ∃ fault ∈ faultsOfText pattern.toList,
        (generate stream position pattern).error? = some fault.toError := by
  have h := generate_eq stream position hcalls
  unfold Outcome.error?
  cases hresult : (generate stream position pattern).result with
  | ok s =>
    rw [hresult] at h
    exact .inl ⟨h, rfl⟩
  | error fault =>
    rw [hresult] at h
    exact .inr ⟨fault, h, rfl⟩

/-- **When errors depend on the text alone**: for a pattern without calls, generating reports the
same error for all streams, or none for all of them, exactly if all possible faults of the text
report the same error. -/
theorem error?_eq_iff {pattern : String} (hcalls : (Pattern.ofText pattern.toList).CallFree) :
    (∀ (stream stream' : WordStream) (position position' : Nat),
        (generate stream position pattern).error? =
          (generate stream' position' pattern).error?) ↔
      ∀ fault ∈ faultsOfText pattern.toList, ∀ fault' ∈ faultsOfText pattern.toList,
        fault.toError = fault'.toError := by
  constructor
  · intro hsame fault hfault fault' hfault'
    obtain ⟨stream, hstream⟩ := exists_result_eq_error hcalls hfault 0
    obtain ⟨stream', hstream'⟩ := exists_result_eq_error hcalls hfault' 0
    have := hsame stream stream' 0 0
    simp only [Outcome.error?, hstream, hstream'] at this
    exact Option.some.inj this
  · intro hfaults stream stream' position position'
    rcases error?_cases stream position hcalls.failFree with ⟨hnone, h⟩ | ⟨fault, hfault, h⟩ <;>
      rcases error?_cases stream' position' hcalls.failFree with
        ⟨hnone', h'⟩ | ⟨fault', hfault', h'⟩
    · rw [h, h']
    · rw [hnone] at hfault'
      exact absurd hfault' List.not_mem_nil
    · rw [hnone'] at hfault
      exact absurd hfault List.not_mem_nil
    · rw [h, h', hfaults fault hfault fault' hfault']

/-- With a mistake in each of two branches, the error depends on the branch that is chosen. -/
theorem error?_ne_two_references :
    ¬∀ (stream stream' : WordStream) (position position' : Nat),
      (generate stream position "(\\8|\\9)").error? =
        (generate stream' position' "(\\8|\\9)").error? := by
  have hcalls : (Pattern.ofText "(\\8|\\9)".toList).CallFree := by
    cbv
  have hfaults : faultsOfText "(\\8|\\9)".toList =
      [.within (.invalidReference "9") ⟨4, 2⟩, .within (.invalidReference "8") ⟨1, 2⟩] := by cbv
  rw [error?_eq_iff hcalls, hfaults]
  intro h
  have := h _ (.head _) _ (.tail _ (.head _))
  exact absurd this (by decide)

example : (generate (fun _ => 0) 0 "(\\8|\\9)").result =
    .error (.within (.invalidReference "9") ⟨4, 2⟩) := by cbv

example : (generate (fun _ => 0xffffffff) 0 "(\\8|\\9)").result =
    .error (.within (.invalidReference "8") ⟨1, 2⟩) := by cbv

end PatternSampler
