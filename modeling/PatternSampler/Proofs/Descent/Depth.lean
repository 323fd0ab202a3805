import PatternSampler.Proofs.Descent.Steps

set_option autoImplicit false

/-!
# Evaluation descends

Each part that is evaluated is shorter by two characters than the text around it, in the first
instance of a construct, in a repetition and in a probe. So the stack of offsets grows with at most
half the length of the pattern, and so many levels of evaluation are all that is ever needed. The
equations by which texts and parts are read then have one solution only, and no guard is part of it.

## Main definitions

* `Guarded.frameAt` — the offsets are given, and each call has room for the levels around it.
* `Guarded.nested` — evaluation cut off below a number of levels.
* `Guarded.Recursion` — the equations of reading, without guards.

## Main results

* `Guarded.agree_run` — running a text keeps the room for the levels around it.
* `Guarded.nested_eq_run` — half the length of a text is enough levels for it.
* `Guarded.recursion_iff` — the equations of reading have exactly one solution.
* `evaluation_descends` — cursors, parts, offsets and levels.
-/

namespace PatternSampler

/-- The call stands at a level that a pattern of `length` characters has room for. -/
def Call.Fits (length : Nat) (call : Call) : Prop :=
  call.text.length + 2 * call.spans.length ≤ length + 2

namespace Guarded

/-! ## Levels -/

/-- The frame of a text in a pattern of `length` characters: the offsets are those of the text, and
all calls fit. -/
def frameAt (length : Nat) (spans : List Nat) : Frame := ⟨(· = spans), Call.Fits length⟩

section Levels

variable {stream : WordStream} {length : Nat} {spans : List Nat}

/-- A part is evaluated one level further down. -/
lemma agree_evaluate {f g : List Char → Guarded (List Sample)} {part : Slice}
    (hfits : part.length + 2 * (spans.length + 1) ≤ length + 2)
    (h : Agree (frameAt length (spans ++ [part.start])) (f part.text) (g part.text) fun _ => True) :
    PartAgrees (frameAt length spans) (evaluate f) (evaluate g) part := by
  rintro ctx ⟨hspans, hcalls⟩
  have hspans : ctx.spans = spans := hspans
  have hcall : Call.Fits length ⟨spans ++ [part.start], part.text⟩ := by
    simpa [Call.Fits, Slice.length] using hfits
  have hcalls' : ∀ call ∈ ctx.calls ++ [⟨spans ++ [part.start], part.text⟩], call.Fits length := by
    rw [List.forall_mem_append, List.forall_mem_singleton]
    exact ⟨hcalls, hcall⟩
  obtain ⟨heq, hres⟩ := h
    { ctx with
      spans := spans ++ [part.start]
      calls := ctx.calls ++ [⟨spans ++ [part.start], part.text⟩] } ⟨rfl, hcalls'⟩
  refine ⟨by simp only [evaluate, hspans, heq], ?_⟩
  simp only [evaluate, hspans]
  cases hrun : f part.text { ctx with
      spans := spans ++ [part.start]
      calls := ctx.calls ++ [⟨spans ++ [part.start], part.text⟩] } with
  | ok samples ctx' =>
    rw [hrun] at hres
    obtain ⟨⟨hspans', hcalls'⟩, -⟩ := hres
    have hspans' : ctx'.spans = spans ++ [part.start] := hspans'
    exact ⟨⟨by simp [frameAt, hspans'], hcalls'⟩, trivial⟩
  | error halt ctx' =>
    rw [hrun] at hres
    obtain ⟨hspans', hcalls'⟩ := hres
    have hspans' : ctx'.spans = spans ++ [part.start] := hspans'
    exact ⟨by simp [frameAt, hspans'], hcalls'⟩

/-- Running a text keeps the offsets, and leaves room for the levels around it.

**Proof sketch.** By induction on the length of the text. Its parts are shorter by two characters,
and stand one level further down. -/
theorem agree_run {text : List Char} (hfits : text.length + 2 * spans.length ≤ length + 2) :
    Agree (frameAt length spans) (run stream text) (run stream text) fun _ => True := by
  induction hn : text.length using Nat.strong_induction_on generalizing text spans with
  | _ n ih =>
    rw [run_eq_loop]
    refine agree_loop (Config.sound_start text) fun part hpart => ?_
    have hshorter : part.text.length + 2 ≤ text.length := hpart.2
    have hroom : part.length + 2 * (spans.length + 1) ≤ length + 2 := by
      simp only [Slice.length]
      omega
    refine agree_evaluate hroom (ih part.text.length (by omega) ?_ rfl)
    simp only [List.length_append, List.length_singleton]
    omega

/-- The offsets of a whole pattern fit into it. -/
lemma agree_sampleText (stream : WordStream) (text : List Char) :
    Agree (frameAt text.length []) (sampleText stream text) (sampleText stream text)
      fun _ => True := by
  unfold sampleText
  split
  · exact agree_fail
  · have hroom : (Slice.whole text).text.length + 2 * ([] ++ [(Slice.whole text).start]).length ≤
        text.length + 2 := Nat.le_refl _
    have heval : PartAgrees (frameAt text.length []) (evaluate (run stream))
        (evaluate (run stream)) (.whole text) := agree_evaluate (Nat.le_refl _) (agree_run hroom)
    exact heval.bind fun _ _ => agree_pure trivial

/-- There is one offset, and at most another one for every two characters of the pattern. -/
lemma depth_sampleText (stream : WordStream) (position : Nat) (text : List Char) :
    match sampleText stream text (.start position) with
    | .ok _ ctx => ∀ call ∈ ctx.calls, call.spans.length ≤ 1 + text.length / 2
    | .error _ ctx => ∀ call ∈ ctx.calls, call.spans.length ≤ 1 + text.length / 2 := by
  have hstart : (frameAt text.length []).Holds (.start position) :=
    ⟨rfl, by simp [Context.start]⟩
  have hfits := (agree_sampleText stream text (.start position) hstart).2
  have hdepth : ∀ call : Call, call.Fits text.length →
      call.spans.length ≤ 1 + text.length / 2 := by
    intro call hcall
    unfold Call.Fits at hcall
    omega
  cases hsample : sampleText stream text (.start position) with
  | ok s ctx =>
    rw [hsample] at hfits
    exact fun call hcall => hdepth call (hfits.1.2 call hcall)
  | error halt ctx =>
    rw [hsample] at hfits
    exact fun call hcall => hdepth call (hfits.2 call hcall)

end Levels

/-! ## Levels that are enough -/

/-- The samples of a text, with panic below a number of levels. -/
def nested (stream : WordStream) : (levels : Nat) → List Char → Guarded (List Sample)
  | 0, _ => panic
  | levels + 1, text => loop stream (evaluate (nested stream levels)) text (.start text)

/-- With one level for the text and one for every two characters, nothing is cut off. -/
theorem nested_eq_run {stream : WordStream} {levels : Nat} {text : List Char}
    (h : 1 + text.length / 2 ≤ levels) : nested stream levels text = run stream text := by
  induction levels generalizing text with
  | zero => omega
  | succ levels ih =>
    rw [nested, run_eq_loop]
    refine loop_congr (Config.sound_start text) fun part hpart => ih ?_
    have hshorter : part.text.length + 2 ≤ text.length := hpart.2
    omega

/-! ## Recursion without guards -/

/-- The equations of reading, without guards. The functions call one another. -/
structure Recursion (stream : WordStream) (run : List Char → Guarded (List Sample))
    (read : List Char → Config → Guarded (List Sample)) (generate : Node → Guarded Sample)
    (evaluate : Slice → Guarded (List Sample)) : Prop where
  /-- A text is read from its start. -/
  run_eq : ∀ text, run text = read text (.start text)
  /-- A step leads to the next state, or to the end. -/
  read_eq : ∀ text (c : Config), c.Sound text →
    read text c = stepBy stream evaluate text generate c >>= fun next =>
      match next with
      | none => return c.samples
      | some next => read text next
  /-- A repetition generates the node in it as often as its count says. -/
  generate_repetition : ∀ child count base, generate (.repetition child count base) = do
    let instances ← draw stream count
    return .join (← replay (rewound base (generate child)) instances)
  /-- Any other node evaluates the parts that are kept in it, some of them in probes. -/
  generate_eq : ∀ node : Node, (∀ child count base, node ≠ .repetition child count base) →
    generate node = node.generate stream evaluate
  /-- To evaluate a part is to run its text. -/
  evaluate_eq : ∀ part, evaluate part = Guarded.evaluate run part

section Recursion

variable {stream : WordStream} {run : List Char → Guarded (List Sample)}
  {read : List Char → Config → Guarded (List Sample)} {generate : Node → Guarded Sample}
  {evaluate : Slice → Guarded (List Sample)} {text : List Char} {c : Config}

/-- A repetition contains a smaller node, so nodes are determined up to the evaluation of parts. -/
lemma Recursion.generate_eq_generate (h : Recursion stream run read generate evaluate) :
    generate = Node.generate stream evaluate := by
  funext node
  induction node with
  | repetition child count base ih =>
    rw [h.generate_repetition, ih]
    rfl
  | _ => exact h.generate_eq _ nofun

/-- Each step moves the cursor, so the steps are determined up to the evaluation of parts.

**Proof sketch.** By induction on the number of characters behind the cursor. -/
lemma Recursion.read_eq_loop (h : Recursion stream run read generate evaluate)
    (hc : c.Sound text) : read text c = loop stream evaluate text c := by
  induction hn : text.length - c.position using Nat.strong_induction_on generalizing c with
  | _ n ih =>
    rw [h.read_eq text c hc, h.generate_eq_generate, loop_eq hc]
    refine (yields_step stream evaluate hc).bind_congr fun next hnext => ?_
    cases next with
    | none => rfl
    | some next =>
      obtain ⟨hsound, hlt, hle⟩ := hnext next rfl
      exact ih _ (by omega) hsound rfl

/-- Each part is shorter than the text around it, so the evaluation of parts is determined.

**Proof sketch.** By induction on the length of the text. -/
lemma Recursion.run_eq_run (h : Recursion stream run read generate evaluate) (text : List Char) :
    run text = Guarded.run stream text := by
  induction hn : text.length using Nat.strong_induction_on generalizing text with
  | _ n ih =>
    rw [h.run_eq, h.read_eq_loop (Config.sound_start text), run_eq_loop, funext h.evaluate_eq]
    refine loop_congr (Config.sound_start text) fun part hpart => ih _ ?_ part.text rfl
    have hshorter : part.text.length + 2 ≤ text.length := hpart.2
    omega

/-- The equations of reading have exactly one solution. -/
theorem recursion_iff : Recursion stream run read generate evaluate ↔
    run = Guarded.run stream ∧ evaluate = Guarded.evaluate run ∧
      generate = Node.generate stream evaluate ∧
      ∀ text (c : Config), c.Sound text → read text c = loop stream evaluate text c := by
  constructor
  · intro h
    exact ⟨funext h.run_eq_run, funext h.evaluate_eq, h.generate_eq_generate,
      fun text c hc => h.read_eq_loop hc⟩
  · rintro ⟨rfl, rfl, rfl, hread⟩
    refine ⟨fun text => ?_, fun text c hc => ?_, fun _ _ _ => rfl, fun _ _ => rfl, fun _ => rfl⟩
    · rw [hread text _ (Config.sound_start text), run_eq_loop]
    · rw [hread text c hc, loop_eq hc]
      refine (yields_step stream _ hc).bind_congr fun next hnext => ?_
      cases next with
      | none => rfl
      | some next => exact (hread text next (hnext next rfl).sound).symm

end Recursion

end Guarded

/-! ## Whole patterns -/

open Guarded in
/-- **Evaluation descends**: a step of the reader that neither ends nor fails moves the cursor to
the right, in every state that reading comes by. The parts that are kept in a node stand in the text
and are shorter by two characters. The stack of offsets never holds more than one offset and another
one for every two characters of the pattern, and with so many levels of evaluation nothing is cut
off. So the equations of reading have exactly one solution. -/
theorem evaluation_descends (stream : WordStream) :
    (∀ eval text c, Passes stream eval text c →
      (∀ ctx next ctx', step stream eval text c ctx = .ok (some next) ctx' →
        c.position < next.position ∧ next.position ≤ text.length) ∧
      (∀ token behind, c.lex text = .ok (.token token behind) → ∀ span ctx node ctx',
        build eval span token ctx = .ok node ctx' → node.Within text) ∧
      ∀ emitted ∈ c.last, emitted.node.Within text) ∧
    (∀ position pattern, match generate stream position pattern with
      | ⟨.ok s, _⟩ => ∃ ctx,
          Guarded.sampleText stream pattern.toList (.start position) = .ok s ctx ∧
          ∀ call ∈ ctx.calls, call.spans.length ≤ 1 + pattern.toList.length / 2
      | ⟨.error fault, _⟩ => ∃ ctx,
          Guarded.sampleText stream pattern.toList (.start position) =
            .error (.error fault.toError) ctx ∧
          ∀ call ∈ ctx.calls, call.spans.length ≤ 1 + pattern.toList.length / 2) ∧
    (∀ levels text, 1 + text.length / 2 ≤ levels →
      nested stream levels text = Guarded.run stream text) ∧
    ∀ run read generate evaluate, Recursion stream run read generate evaluate ↔
      run = Guarded.run stream ∧ evaluate = Guarded.evaluate run ∧
        generate = Node.generate stream evaluate ∧
        ∀ text (c : Config), c.Sound text → read text c = loop stream evaluate text c := by
  refine ⟨fun eval text c hc => ⟨?_, ?_, hc.sound.within⟩, fun position pattern => ?_,
    fun levels text h => nested_eq_run h, fun _ _ _ _ => recursion_iff⟩
  · intro ctx next ctx' hstep
    have hfollows := follows_of_step hc.sound hstep
    exact ⟨hfollows.position_lt, hfollows.position_le⟩
  · intro token behind hlex span ctx node ctx' hbuild
    exact within_of_build hc.sound hlex hbuild
  · have hguarded := Guarded.sampleText_eq stream position pattern.toList
    have hdepth := depth_sampleText stream position pattern.toList
    unfold generate
    cases hrun : sampleText stream pattern.toList ⟨position, .empty⟩ with
    | ok s progress =>
      rw [hrun] at hguarded
      obtain ⟨ctx, hok, -⟩ := hguarded
      rw [hok] at hdepth
      exact ⟨ctx, hok, hdepth⟩
    | error fault progress =>
      rw [hrun] at hguarded
      obtain ⟨ctx, herror, -⟩ := hguarded
      rw [herror] at hdepth
      exact ⟨ctx, herror, hdepth⟩

/-- A pattern of four characters is evaluated on three levels. -/
example : match Guarded.sampleText (fun _ => 0) "(())".toList (.start 0) with
    | .ok _ ctx => ctx.calls.map (fun call => call.spans.length) = [1, 2, 3]
    | .error _ _ => False := by
  cbv

end PatternSampler
