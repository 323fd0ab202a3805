import PatternSampler.Proofs.Descent.Nodes
import PatternSampler.Proofs.Reading.Parts

set_option autoImplicit false

/-!
# Generating looks at parts only

What a token or a node generates depends on how parts are evaluated, and only on how those parts are
evaluated that stand in the token or are kept in the node. Along with this goes what every
evaluation keeps: properties of the offsets and of the calls that nothing but an evaluation touches.

## Main definitions

* `Guarded.Frame` — what is to be kept of a context.
* `Guarded.Agree` — two actions do the same, keep a frame, and yield results with a property.
* `Guarded.Yields` — what an action yields has a property.
* `Guarded.Quiet` — an action that neither moves the offsets nor evaluates anything.

## Main results

* `Guarded.agree_generate` — a node looks at the parts that are kept in it.
* `Guarded.agree_build` — building a node looks at the parts of the token, and keeps such parts.
* `Guarded.agree_produce` — what a token adds to the text.
* `Guarded.advance_eq_produce` — a token is generated by way of its node.
-/

namespace PatternSampler

namespace Guarded

/-! ## Actions that agree -/

/-- What is to be kept of a context: a property of the offsets, and one of each call. -/
structure Frame where
  spans : List Nat → Prop
  call : Call → Prop

/-- The context has the properties of the frame. -/
def Frame.Holds (F : Frame) (ctx : Context) : Prop :=
  F.spans ctx.spans ∧ ∀ call ∈ ctx.calls, F.call call

/-- Nothing is to be kept. -/
def Frame.any : Frame := ⟨fun _ => True, fun _ => True⟩

/-- A frame looks at the offsets and the calls only. -/
lemma Frame.Holds.of_eq {F : Frame} {ctx ctx' : Context} (h : F.Holds ctx)
    (hspans : ctx'.spans = ctx.spans) (hcalls : ctx'.calls = ctx.calls) : F.Holds ctx' := by
  rw [Frame.Holds, hspans, hcalls]
  exact h

/-- Each context has the properties of a frame that asks for nothing. -/
lemma Frame.holds_any (ctx : Context) : Frame.any.Holds ctx := ⟨trivial, fun _ _ => trivial⟩

/-- In every context with the properties of the frame, the two actions do the same. They keep these
properties, and what they yield has the property `P`. -/
def Agree {α : Type} (F : Frame) (x y : Guarded α) (P : α → Prop) : Prop :=
  ∀ ctx, F.Holds ctx → x ctx = y ctx ∧
    match x ctx with
    | .ok a ctx' => F.Holds ctx' ∧ P a
    | .error _ ctx' => F.Holds ctx'

/-- What the action yields has the property `P`, whatever becomes of the context. -/
def Yields {α : Type} (x : Guarded α) (P : α → Prop) : Prop := Agree .any x x P

/-- The action neither moves the offsets nor evaluates a part. -/
def Quiet {α : Type} (x : Guarded α) : Prop :=
  ∀ ctx, match x ctx with
    | .ok _ ctx' => ctx'.spans = ctx.spans ∧ ctx'.calls = ctx.calls
    | .error _ ctx' => ctx'.spans = ctx.spans ∧ ctx'.calls = ctx.calls

section Quiet

variable {α β : Type} {x : Guarded α} {f : α → Guarded β}

/-- Yielding a result evaluates no part. -/
lemma quiet_pure (a : α) : Quiet (pure a : Guarded α) := fun _ => ⟨rfl, rfl⟩

/-- A panic evaluates no part. -/
lemma quiet_panic : Quiet (panic : Guarded α) := fun _ => ⟨rfl, rfl⟩

/-- A mistake evaluates no part. -/
lemma quiet_fail (fault : Fault) : Quiet (fail fault : Guarded α) := fun _ => ⟨rfl, rfl⟩

/-- Looking at the context evaluates no part. -/
lemma quiet_get : Quiet (get : Guarded Context) := fun _ => ⟨rfl, rfl⟩

/-- A computation without a state evaluates no part. -/
lemma quiet_ofScan : ∀ r : Scan Fault α, Quiet (ofScan r)
  | .ok a => quiet_pure a
  | .error .panic => quiet_panic
  | .error (.error fault) => quiet_fail fault

/-- An action without guards evaluates no part. -/
lemma quiet_ofRun (a : Run α) : Quiet (ofRun a) := by
  intro ctx
  simp only [ofRun]
  cases a ctx.ledger.progress <;> exact ⟨rfl, rfl⟩

/-- Setting the counter evaluates no part. -/
lemma quiet_setOpened (number : Nat) : Quiet (setOpened number) := fun _ => ⟨rfl, rfl⟩

/-- Looking at the counter evaluates no part. -/
lemma quiet_opened : Quiet opened := fun _ => ⟨rfl, rfl⟩

/-- Actions that evaluate no part, one after the other. -/
lemma Quiet.bind (hx : Quiet x) (hf : ∀ a, Quiet (f a)) : Quiet (x >>= f) := by
  intro ctx
  have hctx := hx ctx
  simp only [Bind.bind, EStateM.bind]
  cases h : x ctx with
  | error halt ctx' =>
    rw [h] at hctx
    exact hctx
  | ok a ctx' =>
    rw [h] at hctx
    have hctx' := hf a ctx'
    rwa [hctx.1, hctx.2] at hctx'

/-- A choice evaluates no part. -/
lemma quiet_uniform (stream : WordStream) (n : Nat) : Quiet (uniform stream n) := by
  unfold uniform
  split
  · exact (quiet_ofRun _).bind fun _ => quiet_pure _
  · exact quiet_panic

/-- Drawing a number of instances evaluates no part. -/
lemma quiet_draw (stream : WordStream) : ∀ count : RepeatCount, Quiet (draw stream count)
  | .exactly count => quiet_pure count
  | .between _ _ => (quiet_ofScan _).bind fun _ => (quiet_ofScan _).bind fun _ =>
    (quiet_uniform stream _).bind fun _ => quiet_ofScan _

/-- A number of groups is formed without evaluating a part. -/
lemma quiet_number (n : Nat) : Quiet (number n) := by
  intro ctx
  unfold number
  cases ctx.overflow with
  | panics => exact quiet_ofScan (.below numberLimit n) ctx
  | wraps => exact ⟨rfl, rfl⟩

/-- Jumping over groups evaluates no part. -/
lemma quiet_reserve (part : Slice) : Quiet (reserve part) :=
  (quiet_number _).bind fun _ => quiet_opened.bind fun _ => (quiet_number _).bind fun _ =>
    quiet_setOpened _

/-- Opening a group evaluates no part. -/
lemma quiet_openGroup : Quiet openGroup :=
  quiet_opened.bind fun _ => (quiet_number _).bind fun _ => (quiet_setOpened _).bind fun _ =>
    quiet_pure _

/-- Making the texts of groups empty evaluates no part. -/
lemma quiet_clearOthers (choice : Nat) : ∀ (place : Nat) (branches : List Branch),
    Quiet (clearOthers choice place branches)
  | _, [] => quiet_pure ()
  | place, branch :: branches => by
    have hlater := quiet_clearOthers choice (place + 1) branches
    unfold clearOthers
    split
    · exact hlater
    · exact (quiet_number _).bind fun _ => (quiet_number _).bind fun _ =>
        (quiet_ofRun _).bind fun _ => hlater

/-- Sampling a day evaluates no part. -/
lemma quiet_day (stream : WordStream) (first : Int) (days : Nat) (separator : String) :
    Quiet (day stream first days separator) := by
  refine (quiet_uniform stream days).bind fun day => ?_
  dsimp only
  split
  · exact quiet_fail _
  · exact quiet_pure _

end Quiet

/-! ## Rules -/

section Rules

variable {α β : Type} {F : Frame} {x y : Guarded α} {f g : α → Guarded β} {P : α → Prop}
  {Q : β → Prop}

/-- Both actions yield the same result. -/
lemma agree_pure {a : α} (h : P a) : Agree F (pure a) (pure a) P := fun _ hctx => ⟨rfl, hctx, h⟩

/-- Both actions end in panic. -/
lemma agree_panic : Agree F (panic : Guarded α) panic P := fun _ hctx => ⟨rfl, hctx⟩

/-- Both actions report the same mistake. -/
lemma agree_fail {fault : Fault} : Agree F (fail fault) (fail fault) P := fun _ hctx => ⟨rfl, hctx⟩

/-- Actions that agree, one after the other. -/
lemma Agree.bind (h : Agree F x y P) (hf : ∀ a, P a → Agree F (f a) (g a) Q) :
    Agree F (x >>= f) (y >>= g) Q := by
  intro ctx hctx
  obtain ⟨heq, hx⟩ := h ctx hctx
  simp only [Bind.bind, EStateM.bind, ← heq]
  cases hres : x ctx with
  | error halt ctx' =>
    rw [hres] at hx
    exact ⟨rfl, hx⟩
  | ok a ctx' =>
    rw [hres] at hx
    exact hf a hx.2 ctx' hx.1

/-- Less may be promised of the result. -/
lemma Agree.mono {P' : α → Prop} (h : Agree F x y P) (hP : ∀ a, P a → P' a) :
    Agree F x y P' := by
  intro ctx hctx
  obtain ⟨heq, hx⟩ := h ctx hctx
  refine ⟨heq, ?_⟩
  cases hres : x ctx with
  | error halt ctx' =>
    rw [hres] at hx
    exact hx
  | ok a ctx' =>
    rw [hres] at hx
    exact ⟨hx.1, hP a hx.2⟩

/-- What is promised of the result holds of the result of a good run. -/
lemma Yields.of_eq_ok {a : α} {ctx ctx' : Context} (h : Yields x P) (hx : x ctx = .ok a ctx') :
    P a := by
  have hres := (h ctx (Frame.holds_any ctx)).2
  rw [hx] at hres
  exact hres.2

/-- What follows an action may use what the action yields. -/
lemma Yields.bind_congr (h : Yields x P) (hf : ∀ a, P a → f a = g a) : x >>= f = x >>= g := by
  funext ctx
  simp only [Bind.bind, EStateM.bind]
  cases hres : x ctx with
  | error halt ctx' => rfl
  | ok a ctx' => exact congrFun (hf a (h.of_eq_ok hres)) ctx'

/-- Where nothing is to be kept, nothing is asked of an action that agrees with itself. -/
lemma yields_true (x : Guarded α) : Yields x fun _ => True := by
  refine fun ctx _ => ⟨rfl, ?_⟩
  cases x ctx with
  | ok a ctx' => exact ⟨Frame.holds_any ctx', trivial⟩
  | error halt ctx' => exact Frame.holds_any ctx'

/-- An action that evaluates no part agrees with itself, and any frame is kept. -/
lemma Quiet.agree (hx : Quiet x) : Agree F x x fun _ => True := by
  intro ctx hctx
  refine ⟨rfl, ?_⟩
  have hquiet := hx ctx
  cases hres : x ctx with
  | error halt ctx' =>
    rw [hres] at hquiet
    exact hctx.of_eq hquiet.1 hquiet.2
  | ok a ctx' =>
    rw [hres] at hquiet
    exact ⟨hctx.of_eq hquiet.1 hquiet.2, trivial⟩

/-- An action that evaluates no part, in front of actions that agree. -/
lemma Quiet.agree_bind (hx : Quiet x) (hf : ∀ a, Agree F (f a) (g a) Q) :
    Agree F (x >>= f) (x >>= g) Q :=
  hx.agree.bind fun a _ => hf a

/-- The counter is set back alike on both sides. -/
lemma agree_rewound {base : Nat} (h : Agree F x y P) :
    Agree F (rewound base x) (rewound base y) P :=
  quiet_opened.agree_bind fun _ => (quiet_setOpened base).agree_bind fun _ => h.bind fun _ ha =>
    quiet_opened.agree_bind fun _ => (quiet_setOpened _).agree_bind fun _ => agree_pure ha

/-- Actions that agree, several times over. -/
lemma agree_replay (h : Agree F x y P) :
    ∀ count, Agree F (replay x count) (replay y count) fun _ => True
  | 0 => agree_pure trivial
  | count + 1 => h.bind fun _ _ => (agree_replay h count).bind fun _ _ => agree_pure trivial

/-- The calls of a probe stay calls, and its offsets are forgotten. -/
lemma agree_probe {first : Nat} (h : Agree F x y P) :
    Agree F (probe first x) (probe first y) P := by
  intro ctx hctx
  obtain ⟨heq, hx⟩ := h { ctx with ledger.opened := first } hctx
  refine ⟨by simp only [probe, heq], ?_⟩
  simp only [probe]
  cases hres : x { ctx with ledger.opened := first } with
  | error halt ctx' =>
    rw [hres] at hx
    exact ⟨hctx.1, hx.2⟩
  | ok a ctx' =>
    rw [hres] at hx
    exact ⟨⟨hctx.1, hx.1.2⟩, hx.2⟩

/-- Cutting at separators. -/
lemma agree_parts_bind {separator : Char} {s : Slice} {f g : List Slice → Guarded β}
    (h : ∀ slices, splitParts separator s = .ok slices → Agree F (f slices) (g slices) Q) :
    Agree F (parts separator s >>= f) (parts separator s >>= g) Q := by
  rw [parts_eq]
  cases hsplit : splitParts separator s with
  | error fault => exact agree_fail.bind (P := fun _ => False) fun _ => False.elim
  | ok slices => exact h slices hsplit

/-- What is found at a place stands in the row. -/
lemma agree_item (row : List α) (place : Nat) :
    Agree F (ofScan (.item row place)) (ofScan (.item row place)) (· ∈ row) := by
  cases hitem : row[place]? with
  | none =>
    simp only [Scan.item, hitem]
    exact agree_panic
  | some a =>
    rw [Scan.item_of_getElem? hitem]
    exact agree_pure (List.mem_of_getElem? hitem)

/-- The branches are made of the parts that they are made for. -/
lemma agree_numbered : ∀ (first : Nat) (parts : List Slice),
    Agree F (numbered first parts) (numbered first parts) fun branches =>
      ∀ branch ∈ branches, branch.part ∈ parts
  | _, [] => agree_pure (by simp)
  | first, part :: parts =>
    (quiet_number _).agree_bind fun _ => (quiet_number _).agree_bind fun next =>
      (agree_numbered next parts).bind fun _ hbranches => agree_pure (by
        rw [List.forall_mem_cons]
        exact ⟨List.mem_cons_self, fun b hb => List.mem_cons_of_mem _ (hbranches b hb)⟩)

end Rules

/-! ## Nodes -/

section Parts

variable {F : Frame} {stream : WordStream} {eval eval' : Slice → Guarded (List Sample)}

/-- Two ways to evaluate a part agree on it. -/
def PartAgrees (F : Frame) (eval eval' : Slice → Guarded (List Sample)) (part : Slice) : Prop :=
  Agree F (eval part) (eval' part) fun _ => True

/-- The sample of a part that is evaluated alike. -/
lemma agree_sample {part : Slice} (h : PartAgrees F eval eval' part) :
    Agree F (sample eval part) (sample eval' part) fun _ => True :=
  h.bind fun _ _ => agree_pure trivial

/-- The text of a fixed argument that is evaluated alike. -/
lemma agree_literal {part : Slice} (role : LiteralArgument) (h : PartAgrees F eval eval' part) :
    Agree F (literal eval role part) (literal eval' role part) fun _ => True := by
  refine (agree_sample h).bind fun s _ => ?_
  cases s.entropy.isPositive
  · exact agree_pure trivial
  · exact agree_fail

/-- The text of a fixed argument that may be missing. -/
lemma agree_literalOr (role : LiteralArgument) (default : String) {part : Option Slice}
    (h : ∀ p ∈ part, PartAgrees F eval eval' p) :
    Agree F (literalOr eval role default part) (literalOr eval' role default part)
      fun _ => True := by
  cases part with
  | none => exact agree_pure trivial
  | some p => exact agree_literal role (h p rfl)

/-- The branches that are not chosen are probed alike. -/
lemma agree_probeOthers (choice : Nat) : ∀ (place : Nat) {branches : List Branch},
    (∀ branch ∈ branches, PartAgrees F eval eval' branch.part) →
      Agree F (probeOthers eval choice place branches) (probeOthers eval' choice place branches)
        fun _ => True
  | _, [], _ => agree_pure trivial
  | place, branch :: branches, h => by
    obtain ⟨hbranch, hbranches⟩ := List.forall_mem_cons.1 h
    have hlater := agree_probeOthers choice (place + 1) hbranches
    unfold probeOthers
    split
    · exact hlater
    · exact (agree_probe hbranch).bind fun _ _ => hlater.bind fun _ _ => agree_pure trivial

/-- One of several branches is generated alike. -/
lemma agree_alternate {parts : List Slice} (h : ∀ part ∈ parts, PartAgrees F eval eval' part) :
    Agree F (alternate stream eval parts) (alternate stream eval' parts) fun _ => True := by
  unfold alternate
  split
  · exact agree_panic
  · refine quiet_opened.agree_bind fun base => ?_
    refine (agree_numbered base parts).bind fun branches hin => ?_
    have hbranches : ∀ branch ∈ branches, PartAgrees F eval eval' branch.part := fun branch hb =>
      h _ (hin branch hb)
    refine (quiet_uniform stream _).agree_bind fun choice => ?_
    refine (agree_probeOthers choice 0 hbranches).bind fun _ _ => ?_
    refine (agree_item branches choice).bind fun chosen hchosen => ?_
    refine (quiet_setOpened _).agree_bind fun _ => (hbranches chosen hchosen).bind fun _ _ => ?_
    exact (quiet_clearOthers choice 0 branches).agree_bind fun _ =>
      (quiet_number _).agree_bind fun _ => (quiet_number _).agree_bind fun _ =>
        (quiet_setOpened _).agree_bind fun _ => agree_pure trivial

/-- A group is generated alike if its body is. -/
lemma agree_group {number : Nat} {body body' : Guarded Sample}
    (h : Agree F body body' fun _ => True) :
    Agree F (group number body) (group number body') fun _ => True :=
  quiet_opened.agree_bind fun _ => (quiet_setOpened number).agree_bind fun _ => h.bind fun _ _ =>
    quiet_opened.agree_bind fun _ => (quiet_setOpened _).agree_bind fun _ =>
      (quiet_ofRun _).agree_bind fun _ => agree_pure trivial

/-- Generating a node evaluates the parts that are kept in it, and no others.

**Proof sketch.** By induction on the node, of which only a repetition contains another one. -/
theorem agree_generate {node : Node} (h : ∀ part ∈ node.parts, PartAgrees F eval eval' part) :
    Agree F (node.generate stream eval) (node.generate stream eval') fun _ => True := by
  induction node with
  | text => exact agree_pure trivial
  | oneOf set =>
    simp only [Node.generate, member_eq]
    exact (quiet_ofRun _).agree
  | byte case =>
    simp only [Node.generate, byte_eq]
    exact (quiet_ofRun _).agree
  | words count =>
    simp only [Node.generate, words_eq]
    exact (quiet_ofRun _).agree
  | day first days separator => exact (quiet_day stream first days separator).agree
  | group number body => exact agree_group (agree_sample (h body List.mem_cons_self))
  | alternation number branches => exact agree_group (agree_alternate h)
  | repetition child count base ih =>
    exact (quiet_draw stream count).agree_bind fun instances =>
      (agree_replay (agree_rewound (ih h)) instances).bind fun _ _ => agree_pure trivial
  | encode t argument | shuffle argument =>
    exact (agree_sample (h argument List.mem_cons_self)).bind fun _ _ => (quiet_ofRun _).agree
  | optional argument =>
    simp only [Node.generate, orNothing_eq]
    exact (agree_sample (h argument List.mem_cons_self)).bind fun _ _ => (quiet_ofRun _).agree
  | justify alignment width fill argument =>
    simp only [Node.generate, justified_eq]
    exact (agree_sample (h argument List.mem_cons_self)).bind fun _ _ => agree_pure trivial

/-! ## Building nodes -/

/-- The node of a single construct. The parts that it keeps stand in the inner part of the token, if
there is one. -/
structure Node.From (inner : Option Slice) (node : Node) : Prop where
  multiplicity_eq : node.multiplicity = 1
  isPart : ∀ part ∈ node.parts, ∃ s ∈ inner, part.IsPart s

/-- A node that keeps no parts stands anywhere. -/
lemma Node.From.of_parts_eq_nil {inner : Option Slice} {node : Node}
    (hmultiplicity : node.multiplicity = 1) (hparts : node.parts = []) : node.From inner :=
  ⟨hmultiplicity, by simp [hparts]⟩

/-- The node of a date keeps no parts, and its arguments are evaluated alike. -/
lemma agree_buildDate {inner : Option Slice} {first last : Slice} {separator : Option Slice}
    (hfirst : PartAgrees F eval eval' first) (hlast : PartAgrees F eval eval' last)
    (hseparator : ∀ part ∈ separator, PartAgrees F eval eval' part) :
    Agree F (buildDate eval first last separator) (buildDate eval' first last separator)
      (Node.From inner) :=
  (agree_literal .year hfirst).bind fun _ _ => (quiet_ofRun _).agree_bind fun _ =>
    (agree_literal .year hlast).bind fun _ _ => (quiet_ofRun _).agree_bind fun _ =>
      (quiet_ofScan _).agree_bind fun _ => by
        rw [days_eq]
        exact (quiet_ofRun _).agree_bind fun _ => (agree_literalOr .separator "-" hseparator).bind
          fun _ _ => agree_pure (.of_parts_eq_nil rfl rfl)

/-- The node of a justified part keeps this part, and the other arguments are evaluated alike. -/
lemma agree_buildJustify (alignment : Alignment) {inner : Option Slice} {argument width : Slice}
    {fill : Option Slice} (span : Span) (hargument : ∃ s ∈ inner, argument.IsPart s)
    (hwidth : PartAgrees F eval eval' width)
    (hfill : ∀ part ∈ fill, PartAgrees F eval eval' part) :
    Agree F (buildJustify eval alignment argument width fill span)
      (buildJustify eval' alignment argument width fill span) (Node.From inner) := by
  refine (quiet_reserve argument).agree_bind fun _ => ?_
  refine (agree_literal .width hwidth).bind fun _ _ => (quiet_ofRun _).agree_bind fun columns => ?_
  refine (agree_literalOr .fill " " hfill).bind fun _ _ => ?_
  refine (quiet_ofRun _).agree_bind fun filling => ?_
  by_cases hlarge : maxRepeat < columns
  · simp only [if_pos hlarge]
    exact agree_fail
  · simp only [if_neg hlarge]
    exact agree_pure ⟨rfl, List.forall_mem_singleton.2 hargument⟩

/-- The node of a call keeps parts of its arguments only, and evaluates the others alike. -/
lemma agree_buildCall (span : Span) (f : Builtin) {arguments : Slice}
    (h : ∀ part : Slice, part.IsPart arguments → PartAgrees F eval eval' part) :
    Agree F (buildCall eval span f arguments) (buildCall eval' span f arguments)
      (Node.From (some arguments)) := by
  have hkept : ∃ s ∈ some arguments, arguments.IsPart s := ⟨arguments, rfl, .refl _⟩
  have hpart {parts : List Slice} (hsplit : splitParts ',' arguments = .ok parts) (part : Slice)
      (hmem : part ∈ parts) : PartAgrees F eval eval' part :=
    h part (isPart_of_mem_splitParts hsplit hmem)
  cases f with
  | encode | shuffle | optional => exact agree_pure ⟨rfl, List.forall_mem_singleton.2 hkept⟩
  | byte =>
    simp only [buildCall]
    split
    · exact agree_pure (.of_parts_eq_nil rfl rfl)
    · exact agree_fail
  | words =>
    simp only [buildCall]
    split
    · exact agree_pure (.of_parts_eq_nil rfl rfl)
    · exact (agree_literal .wordCount (h arguments (.refl _))).bind fun _ _ =>
        (quiet_ofRun _).agree_bind fun _ => agree_pure (.of_parts_eq_nil rfl rfl)
  | expand =>
    refine agree_parts_bind fun parts hsplit => ?_
    rcases parts with _ | ⟨first, _ | ⟨second, _ | ⟨third, later⟩⟩⟩
    case cons.cons.nil =>
      have hfirst : ∃ s ∈ some arguments, first.IsPart s :=
        ⟨arguments, rfl, isPart_of_mem_splitParts hsplit (by simp)⟩
      exact (quiet_reserve first).agree_bind fun _ =>
        (agree_literal .separator (hpart hsplit second (by simp))).bind fun _ _ =>
          agree_pure ⟨rfl, List.forall_mem_singleton.2 hfirst⟩
    all_goals exact agree_fail
  | date =>
    refine agree_parts_bind fun parts hsplit => ?_
    rcases parts with _ | ⟨first, _ | ⟨second, _ | ⟨third, _ | ⟨fourth, later⟩⟩⟩⟩
    case cons.cons.nil =>
      exact agree_buildDate (hpart hsplit first (by simp)) (hpart hsplit second (by simp)) (by simp)
    case cons.cons.cons.nil =>
      exact agree_buildDate (hpart hsplit first (by simp)) (hpart hsplit second (by simp))
        (by simpa using hpart hsplit third (by simp))
    all_goals exact agree_fail
  | justify alignment =>
    refine agree_parts_bind fun parts hsplit => ?_
    rcases parts with _ | ⟨first, _ | ⟨second, _ | ⟨third, _ | ⟨fourth, later⟩⟩⟩⟩
    case cons.cons.nil =>
      exact agree_buildJustify alignment span
        ⟨arguments, rfl, isPart_of_mem_splitParts hsplit (by simp)⟩
        (hpart hsplit second (by simp)) (by simp)
    case cons.cons.cons.nil =>
      exact agree_buildJustify alignment span
        ⟨arguments, rfl, isPart_of_mem_splitParts hsplit (by simp)⟩
        (hpart hsplit second (by simp)) (by simpa using hpart hsplit third (by simp))
    all_goals exact agree_fail

/-- Building the node of a token evaluates parts of the token only, and keeps parts of the token
only. -/
theorem agree_build (span : Span) {token : Token}
    (h : ∀ inner ∈ token.inner?, ∀ part : Slice, part.IsPart inner →
      PartAgrees F eval eval' part) :
    Agree F (build eval span token) (build eval' span token) (Node.From token.inner?) := by
  cases token with
  | character | oneOf => exact agree_pure (.of_parts_eq_nil rfl rfl)
  | repetition => exact agree_fail
  | reference digits =>
    refine quiet_get.agree_bind fun ctx => ?_
    cases (decimal? digits).bind ctx.ledger.progress.groups.text? with
    | none => exact agree_fail
    | some text => exact agree_pure (.of_parts_eq_nil rfl rfl)
  | call f arguments => exact agree_buildCall span f (h arguments rfl)
  | group body =>
    refine quiet_openGroup.agree_bind fun number => agree_parts_bind fun parts hsplit => ?_
    have hparts : ∀ part ∈ parts, ∃ s ∈ some body, part.IsPart s := fun part hmem =>
      ⟨body, rfl, isPart_of_mem_splitParts hsplit hmem⟩
    have hbody : ∃ s ∈ some body, body.IsPart s := ⟨body, rfl, .refl _⟩
    rcases parts with _ | ⟨first, _ | ⟨second, later⟩⟩
    case cons.nil => exact agree_pure ⟨rfl, List.forall_mem_singleton.2 hbody⟩
    all_goals exact agree_pure ⟨rfl, hparts⟩

/-- The node of a token is single, and the parts that it keeps stand in the token. -/
lemma yields_build (eval : Slice → Guarded (List Sample)) (span : Span) (token : Token) :
    Yields (build eval span token) (Node.From token.inner?) :=
  agree_build span fun _ _ part _ => yields_true (eval part)

/-! ## Tokens -/

/-- The part is kept in the construct in front of a token, or it stands in the token. -/
def Reaches (last : Option Emitted) (token : Token) (part : Slice) : Prop :=
  (∃ emitted ∈ last, part ∈ emitted.node.parts) ∨ ∃ inner ∈ token.inner?, part.IsPart inner

/-- What a token adds to the text comes from parts that the token reaches, and so does the node that
is kept. -/
theorem agree_produce {last : Option Emitted} (span : Span) {token : Token}
    (h : ∀ part, Reaches last token part → PartAgrees F eval eval' part) :
    Agree F (produce stream eval (Node.generate stream eval) last span token)
      (produce stream eval' (Node.generate stream eval') last span token)
      fun produced => ∀ part ∈ produced.1.node.parts, Reaches last token part := by
  by_cases ht : ∃ count, token = .repetition count
  · obtain ⟨count, rfl⟩ := ht
    cases last with
    | none => exact agree_fail
    | some last =>
      have hnode : Agree F (last.node.generate stream eval) (last.node.generate stream eval')
          fun _ => True := agree_generate fun part hpart => h part (.inl ⟨last, rfl, hpart⟩)
      unfold produce
      dsimp only
      split
      · exact agree_fail
      · exact (quiet_draw stream count).agree_bind fun instances =>
          (agree_replay (agree_rewound hnode) (instances - 1)).bind fun _ _ =>
            agree_pure fun part hpart => .inl ⟨last, rfl, hpart⟩
  · have hbuilt : Agree F (do
          let base ← opened
          let node ← build eval span token
          let s ← Emitted.again (Node.generate stream eval) ⟨node, base⟩
          return ((⟨node, base⟩ : Emitted), s)) (do
          let base ← opened
          let node ← build eval' span token
          let s ← Emitted.again (Node.generate stream eval') ⟨node, base⟩
          return ((⟨node, base⟩ : Emitted), s))
        fun produced => ∀ part ∈ produced.1.node.parts, Reaches last token part := by
      refine quiet_opened.agree_bind fun base => ?_
      refine (agree_build span fun inner hinner part hpart =>
        h part (.inr ⟨inner, hinner, hpart⟩)).bind fun node hnode => ?_
      have hparts : ∀ part ∈ node.parts, Reaches last token part := fun part hpart =>
        .inr (hnode.isPart part hpart)
      have hgenerate : Agree F (node.generate stream eval) (node.generate stream eval')
          fun _ => True := agree_generate fun part hpart => h part (hparts part hpart)
      exact (agree_rewound hgenerate).bind fun s _ => agree_pure hparts
    cases token with
    | repetition count => exact absurd ⟨count, rfl⟩ ht
    | character | oneOf | reference | group | call => exact hbuilt

/-- The node that is kept behind a token holds parts that the token reaches. -/
lemma yields_produce (stream : WordStream) (eval : Slice → Guarded (List Sample))
    (last : Option Emitted) (span : Span) (token : Token) :
    Yields (produce stream eval (Node.generate stream eval) last span token) fun produced =>
      ∀ part ∈ produced.1.node.parts, Reaches last token part :=
  agree_produce span fun part _ => yields_true (eval part)

/-- A token is generated by way of its node. -/
theorem advance_eq_produce (last : Option Emitted) (span : Span) (token : Token) :
    advance stream eval (last.map (Emitted.last stream eval)) span token =
      Prod.map (Emitted.last stream eval) id <$>
        produce stream eval (Node.generate stream eval) last span token := by
  have hprepare : (do
        let base ← opened
        let action ← prepare stream eval span token
        let s ← rewound base action
        return ((⟨action, base, 1⟩ : Last), s)) =
      Prod.map (Emitted.last stream eval) id <$> (do
        let base ← opened
        let node ← build eval span token
        let s ← Emitted.again (Node.generate stream eval) ⟨node, base⟩
        return ((⟨node, base⟩ : Emitted), s)) := by
    simp only [prepare_eq_build, bind_map_left, map_bind, map_pure]
    refine bind_congr fun base => ?_
    -- the product of the node is one, since it has not been repeated yet
    refine (yields_build eval span token).bind_congr fun node hnode => ?_
    simp only [Prod.map_apply, id_eq, Emitted.last, Emitted.again, hnode.multiplicity_eq]
  cases token with
  | repetition count =>
    cases last with
    | none => rfl
    | some last =>
      rw [produce]
      by_cases hlarge : maxRepeat < last.node.multiplicity * count.high
      · rw [if_pos hlarge]
        exact if_pos hlarge
      · rw [if_neg hlarge]
        simp only [map_bind, map_pure]
        exact if_neg hlarge
  | character | oneOf | reference | group | call => exact hprepare

end Parts

end Guarded

end PatternSampler
