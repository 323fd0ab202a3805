import PatternSampler.Proofs.Faults.Messages
import PatternSampler.Proofs.Guarded.Constructs

set_option autoImplicit false

/-!
# Generating never gets stuck

Generating with guards does what generating does, for every pattern and every stream. So no guard is
ever needed, the texts of all parts that are evaluated stand in the pattern where their offsets say,
and errors underline what they name.

## Main results

* `Guarded.meets_onward` — reading on behind a token.
* `Guarded.meets_run` — a text that is evaluated as a part of a pattern.
* `sampleText_ne_panic` — every operation that is guarded has a result.
* `sampleText_calls_exact` — positions of parts and of errors.
-/

namespace PatternSampler

/-- What is left of a text is a part of it. -/
lemma Slice.RestOf.isPart {input : List Char} {s : Slice} (h : s.RestOf input) :
    s.IsPart (.whole input) := by
  obtain ⟨front, hinput, hstart⟩ := h
  exact ⟨front, [], by rw [List.append_nil]; exact hinput,
    by rw [hstart]; exact (Nat.zero_add _).symm⟩

namespace Guarded

variable {pattern : List Char} {stream : WordStream}

/-- Reading on from a state between two tokens. Each token leaves room for the groups of the next
ones.

**Proof sketch.** By induction on what is left of the text. -/
lemma meets_onward {level : Level pattern} {eval : Slice → Guarded (List Sample)}
    {weval : Slice → Walk (List Sample)}
    (h : ∀ part : Slice, part.IsPart (.whole level.text) → part.length < level.text.length →
      PartMeets level eval weval part)
    (c : Walk.Cursor) {last : Option Last} {low high : Nat} (hrest : c.rest.RestOf level.text)
    (hlast : Option.Rel (LastMeets level low) last c.last) (hroom : low + c.rest.length ≤ high)
    (hlimit : high < numberLimit) :
    Meets level low high (onward stream eval level.text c.rest last c.samples)
      (Walk.onward stream weval c) Eq := by
  fun_induction Walk.onward stream weval c generalizing last low with
  | case1 c fault hnext =>
    rw [onward, Scan.token_eq hrest, hnext]
    exact meets_fail ((Token.namedIn_of_next hnext).mono hrest.isPart)
  | case2 c hnext =>
    rw [onward, Scan.token_eq hrest, hnext]
    exact meets_pure rfl (by omega)
  | case3 c t behind hnext ih =>
    obtain ⟨htoken, hbehind⟩ := Token.room_next hnext
    obtain ⟨text, -, hstarts⟩ := Token.next_spelled hnext
    have hstart := hstarts.start_eq
    have htext := hstarts.length_eq
    have hlength : c.rest.length ≤ level.text.length := hrest.isPart.length_le
    have hparts : ∀ inner part : Slice, t.inner? = some inner → part.IsPart inner →
        PartMeets level eval weval part := by
      intro inner part hinner hpart
      obtain ⟨hin, hfront, hback⟩ := Token.inner_isPart hnext hinner
      have hinnerStop : inner.stop = inner.start + inner.length := rfl
      have := hpart.length_le
      exact h part (hpart.trans (hin.trans hrest.isPart)) (by omega)
    rw [onward, Scan.token_eq hrest, hnext, Scan.ofExcept_ok, ofScan_ok, pure_bind]
    simp only [if_pos hbehind]
    rw [difference_bind (by omega)]
    refine (meets_advance hrest.isPart hnext hlast hparts (Nat.le_refl _) (by omega)).bind ?_
    rintro ⟨last', s⟩ ⟨wlast', _⟩ ⟨hlast', rfl⟩
    exact ih wlast' s (hrest.of_starts hstarts) (.some hlast')
      (by simp only [Walk.Cursor.push]; omega)

/-- A text that is evaluated as a part of a pattern.

**Proof sketch.** By induction on the length of the text. Its parts are evaluated as texts of their
own, one level further down. -/
lemma meets_run (level : Level pattern) {low high : Nat} (hroom : low + level.text.length ≤ high)
    (hlimit : high < numberLimit) :
    Meets level low high (run stream level.text) (walk stream (.whole level.text)) Eq := by
  induction hn : level.text.length using Nat.strong_induction_on generalizing level low high with
  | _ n ih =>
    rw [run, walk_eq]
    refine meets_onward ?_ ⟨.whole level.text, none, []⟩ (.whole _) .none hroom hlimit
    intro part hpart hlength low high hroom hlimit
    refine meets_evaluate hpart ?_
    have hshorter : part.text.length < level.text.length := hlength
    simp only [if_pos hshorter]
    exact ih part.length (by omega) (level.enter hpart) hroom hlimit rfl

/-- Generating with guards does what generating does. -/
lemma sampleText_eq (stream : WordStream) (position : Nat) (text : List Char) :
    match PatternSampler.sampleText stream text ⟨position, .empty⟩ with
    | .ok s progress => ∃ ctx, sampleText stream text (.start position) = .ok s ctx ∧
        (∀ call ∈ ctx.calls, call.Exact text) ∧ ctx.ledger.progress.position = progress.position
    | .error fault progress => ∃ ctx,
        sampleText stream text (.start position) = .error (.error fault.toError) ctx ∧
        (∀ call ∈ ctx.calls, call.Exact text) ∧
        ctx.ledger.progress.position = progress.position ∧ fault.NamedIn (.whole text) := by
  unfold sampleText PatternSampler.sampleText
  by_cases hlong : maxPatternLength < text.length
  · simp only [if_pos hlong]
    exact ⟨_, rfl, by simp [Context.start], rfl, trivial⟩
  · simp only [if_neg hlong]
    have hlimit : text.length < numberLimit :=
      Nat.lt_of_le_of_lt (Nat.not_lt.1 hlong) (by decide)
    have hevaluate : Meets (.outermost text) 0 text.length (evaluate (run stream) (.whole text))
        (walk stream (.whole text)) Eq :=
      meets_evaluate (.refl _) (meets_run _ (Nat.le_of_eq (Nat.zero_add _)) hlimit)
    have hsample : Meets (.outermost text) 0 text.length
        (do return .join (← evaluate (run stream) (.whole text)))
        (Walk.sample (walk stream) (.whole text)) Eq :=
      hevaluate.bind_eq fun _ => meets_pure rfl (Nat.le_refl _)
    have hguarded := hsample (.start position) rfl (by simp [Context.start]) (Nat.le_refl 0)
    have htree : Walk.Tracks (Walk.sample (walk stream) (.whole text)) _ Eq 0 _ :=
      tracks_sample stream (.whole text) 0
    have htree := htree ⟨position, .empty⟩
    have hledger : (Context.start position).ledger = ⟨⟨position, .empty⟩, 0⟩ := rfl
    rw [hledger] at hguarded
    change match (Slice.whole text).sample stream 0 ⟨position, .empty⟩ with
      | .ok s progress => _
      | .error fault progress => _
    cases hsampled : (Slice.whole text).sample stream 0 ⟨position, .empty⟩ with
    | ok s progress =>
      rw [hsampled] at htree
      obtain ⟨_, hwalk, rfl⟩ := htree
      rw [hwalk] at hguarded
      obtain ⟨_, calls, hrun, hcalls, -, rfl⟩ := hguarded
      exact ⟨_, hrun, hcalls, rfl⟩
    | error fault progress =>
      rw [hsampled] at htree
      obtain ⟨n, hwalk⟩ := htree
      rw [hwalk] at hguarded
      obtain ⟨ctx, hrun, hcalls, hposition, hnamed⟩ := hguarded
      rw [Level.outermost, Fault.errorAt_nil] at hrun
      exact ⟨ctx, hrun, hcalls, hposition, hnamed⟩

end Guarded

/-! ## Whole patterns -/

/-- **No guarded operation is without a result**: for every pattern and every stream, generating
with guards does not end in panic. It yields the sample that `generate` yields or reports the same
error, and takes the same words.

Guarded are the operations that read the pattern, cut and slice it, count positions and groups, look
up branches, members and words, and draw numbers. The transforms of texts and the swaps of a shuffle
are functions without guards, which run through `Guarded.ofRun`, and nothing is said about them. -/
theorem sampleText_ne_panic (stream : WordStream) (position : Nat) (pattern : String) :
    (∀ ctx, Guarded.sampleText stream pattern.toList (.start position) ≠ .error .panic ctx) ∧
      match generate stream position pattern with
      | ⟨.ok s, behind⟩ => ∃ ctx,
          Guarded.sampleText stream pattern.toList (.start position) = .ok s ctx ∧
          ctx.ledger.progress.position = behind
      | ⟨.error fault, behind⟩ => ∃ ctx,
          Guarded.sampleText stream pattern.toList (.start position) =
            .error (.error fault.toError) ctx ∧
          ctx.ledger.progress.position = behind := by
  have hguarded := Guarded.sampleText_eq stream position pattern.toList
  unfold generate
  cases hrun : sampleText stream pattern.toList ⟨position, .empty⟩ with
  | ok s progress =>
    rw [hrun] at hguarded
    obtain ⟨ctx, hok, -, hposition⟩ := hguarded
    refine ⟨fun ctx' hpanic => ?_, ctx, hok, hposition⟩
    rw [hok] at hpanic
    cases hpanic
  | error fault progress =>
    rw [hrun] at hguarded
    obtain ⟨ctx, herror, -, hposition, -⟩ := hguarded
    refine ⟨fun ctx' hpanic => ?_, ctx, herror, hposition⟩
    rw [herror] at hpanic
    cases hpanic

/-- **Offsets address exact slices, and errors underline what they name**: wherever a part is
evaluated, also in a probe, a repetition or an argument, its text is what stands in the pattern from
the sum of its offsets on. An error whose message names a construct underlines this construct, and
the error of a transform stands right behind the name of the transform and its parenthesis. -/
theorem sampleText_calls_exact (stream : WordStream) (position : Nat) (pattern : String) :
    match generate stream position pattern with
    | ⟨.ok s, _⟩ => ∃ ctx,
        Guarded.sampleText stream pattern.toList (.start position) = .ok s ctx ∧
        ∀ call ∈ ctx.calls, call.Exact pattern.toList
    | ⟨.error fault, _⟩ => ∃ ctx,
        Guarded.sampleText stream pattern.toList (.start position) =
          .error (.error fault.toError) ctx ∧
        (∀ call ∈ ctx.calls, call.Exact pattern.toList) ∧ fault.toError.Names pattern.toList := by
  have hguarded := Guarded.sampleText_eq stream position pattern.toList
  unfold generate
  cases hrun : sampleText stream pattern.toList ⟨position, .empty⟩ with
  | ok s progress =>
    rw [hrun] at hguarded
    obtain ⟨ctx, hok, hcalls, -⟩ := hguarded
    exact ⟨ctx, hok, hcalls⟩
  | error fault progress =>
    rw [hrun] at hguarded
    obtain ⟨ctx, herror, hcalls, -, hnamed⟩ := hguarded
    exact ⟨ctx, herror, hcalls, fault.names_toError hnamed⟩

/-- The branch that is not chosen is evaluated first, then the other one and the argument. -/
example : match Guarded.sampleText (fun _ => 0) "(a|bc)$hex(d)".toList (.start 0) with
    | .ok _ ctx => ctx.calls.map Call.spans = [[0], [0, 3], [0, 1], [0, 11]]
    | .error _ _ => False := by
  cbv

end PatternSampler
