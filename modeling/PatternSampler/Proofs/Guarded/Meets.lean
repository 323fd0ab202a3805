import PatternSampler.Proofs.Faults.Named
import PatternSampler.Proofs.Guarded.Choices
import PatternSampler.Proofs.Run.Append

set_option autoImplicit false

/-!
# Guarded actions that do what they should

A guarded action is compared with an action that has no guards. The two take the same words, leave
the same texts of groups and the same counter behind, and yield related results. If one reports a
mistake, so does the other, at the place where it stands in the whole pattern.

What keeps the guards quiet is the counter: an action that starts with at most `low` opened groups
ends with at most `high` of them.

## Main definitions

* `Level` — a text that is evaluated as a part of a pattern, with its offsets.
* `Guarded.Meets` — a guarded action does what an action without guards does.

## Main results

* `Guarded.Meets.bind`, `Guarded.meets_ofRun`, `Guarded.meets_rewound`, `Guarded.meets_probe`,
  `Guarded.meets_replay` — the rules for the ways in which actions are put together.
* `walk_shift` — a moved slice is generated along its text as the slice is.
* `Guarded.meets_evaluate` — a part is evaluated as a text of its own.

## Implementation notes

An action that fails need not leave the same texts of groups behind, and nothing looks at them.
-/

namespace PatternSampler

/-! ## Levels -/

/-- The text of a call stands in the pattern where its offsets say. -/
def Call.Exact (pattern : List Char) (call : Call) : Prop :=
  call.spans.sum + call.text.length ≤ pattern.length ∧
    (pattern.drop call.spans.sum).take call.text.length = call.text

/-- A text that is evaluated as a part of a pattern. -/
structure Level (pattern : List Char) where
  /-- Where each part starts inside the part around it, the outermost first. -/
  spans : List Nat
  text : List Char
  isPart : (⟨spans.sum, text⟩ : Slice).IsPart (.whole pattern)

/-- A part moves with the text in front of it. -/
lemma Slice.IsPart.shift {part s : Slice} (h : part.IsPart s) (k : Nat) :
    (part.shift k).IsPart (s.shift k) := by
  obtain ⟨front, back, htext, hstart⟩ := h
  refine ⟨front, back, htext, ?_⟩
  show part.start + k = s.start + k + front.length
  omega

namespace Level

variable {pattern : List Char}

/-- The level of a part of the text. -/
def enter (level : Level pattern) {part : Slice} (h : part.IsPart (.whole level.text)) :
    Level pattern where
  spans := level.spans ++ [part.start]
  text := part.text
  isPart := by
    have hlevel : ((Slice.whole level.text).shift level.spans.sum).IsPart (.whole pattern) := by
      simpa [Slice.shift, Slice.whole] using level.isPart
    have hpart := (h.shift level.spans.sum).trans hlevel
    rwa [List.sum_append, List.sum_singleton, Nat.add_comm]

/-- The level of the whole pattern. -/
def outermost (pattern : List Char) : Level pattern := ⟨[], pattern, .refl _⟩

end Level

/-- A position is moved by the sum of the offsets. -/
lemma resolvePosition_eq (position : Nat) (spans : List Nat) :
    resolvePosition position spans = position + spans.sum := by
  unfold resolvePosition
  induction spans generalizing position with
  | nil => rfl
  | cons offset spans ih =>
    rw [List.foldl_cons, ih, List.sum_cons]
    omega

/-- An error of the whole pattern is reported where it stands. -/
lemma Fault.errorAt_nil (fault : Fault) : fault.errorAt [] = fault.toError := by
  simp [errorAt, resolvePosition]

/-- A fault in a part is a fault in the text around it, further on. -/
lemma Fault.errorAt_append (fault : Fault) (spans : List Nat) (offset : Nat) :
    fault.errorAt (spans ++ [offset]) = (fault.shift offset).errorAt spans := by
  have hposition (position : Nat) : resolvePosition position (spans ++ [offset]) =
      resolvePosition (position + offset) spans := by
    simp only [resolvePosition_eq, List.sum_append, List.sum_singleton]
    omega
  simp only [errorAt, Fault.toError_shift, Option.map_map, Function.comp_def, hposition]

/-- What a fault spells in a slice it spells further on as well. -/
lemma Fault.Spells.shift {fault : Fault} {s : Slice} {text : List Char} (h : fault.Spells s text)
    (k : Nat) : (fault.shift k).Spells (s.shift k) text := by
  obtain ⟨start, hplace, hpart⟩ := h
  exact ⟨start + k, by rw [Fault.shift, hplace]; rfl, hpart.shift k⟩

/-- A fault that names a construct names it further on as well. -/
lemma Fault.NamedIn.shift {fault : Fault} {s : Slice} (h : fault.NamedIn s) (k : Nat) :
    (fault.shift k).NamedIn (s.shift k) := by
  obtain ⟨cause, place⟩ := fault
  cases cause with
  | unmatched | invalidReference | unknownSet | unknownFunction => exact Spells.shift h k
  | unbalanced imbalance => cases imbalance <;> exact Spells.shift h k
  | invalidEscape => exact h.imp (·.shift k) (·.shift k)
  | transform t cause =>
    obtain ⟨span, start, hplace, hstart, hpart⟩ := h
    obtain rfl : place = some span := hplace
    refine ⟨span.shift k, start + k, rfl, ?_, hpart.shift k⟩
    show span.start + k = start + k + (t.name.length + 2)
    omega
  | _ => trivial

namespace Guarded

/-! ## Meeting -/

section Meets

variable {pattern : List Char} {α β γ δ : Type}

/-- At a level and with at most `low` groups opened, the guarded action `x` does what `y` does. If
it ends well, its result is related to the result of `y`, and at most `high` groups are opened. -/
def Meets (level : Level pattern) (low high : Nat) (x : Guarded α) (y : Walk β)
    (R : α → β → Prop) : Prop :=
  ∀ ctx : Context, ctx.spans = level.spans → (∀ call ∈ ctx.calls, call.Exact pattern) →
    ctx.ledger.opened ≤ low →
    match y ctx.ledger with
    | .ok v l => ∃ u calls, x ctx = .ok u ⟨l, level.spans, calls, ctx.overflow⟩ ∧
        (∀ call ∈ calls, call.Exact pattern) ∧ l.opened ≤ high ∧ R u v
    | .error fault l => ∃ ctx', x ctx = .error (.error (fault.errorAt level.spans)) ctx' ∧
        (∀ call ∈ ctx'.calls, call.Exact pattern) ∧
        ctx'.ledger.progress.position = l.progress.position ∧ fault.NamedIn (.whole level.text)

variable {level : Level pattern} {low mid high low' high' : Nat} {x : Guarded α} {y : Walk β}
  {R : α → β → Prop} {R' : γ → δ → Prop}

/-- Results that are related may be returned. -/
lemma meets_pure {u : α} {v : β} (h : R u v) (hle : low ≤ high) :
    Meets level low high (pure u) (pure v) R := by
  rintro ⟨l, spans, calls, overflow⟩ rfl hcalls hopened
  exact ⟨u, calls, rfl, hcalls, Nat.le_trans hopened hle, h⟩

/-- A mistake is reported with its place in the pattern. -/
lemma meets_fail {fault : Fault} (h : fault.NamedIn (.whole level.text)) :
    Meets level low high (fail fault) (throw fault) R := by
  rintro ⟨l, spans, calls, overflow⟩ rfl hcalls hopened
  exact ⟨_, rfl, hcalls, rfl, h⟩

/-- Two actions that do what they should, one after the other. -/
lemma Meets.bind {f : α → Guarded γ} {g : β → Walk δ} (h : Meets level low mid x y R)
    (hf : ∀ u v, R u v → Meets level mid high (f u) (g v) R') :
    Meets level low high (x >>= f) (y >>= g) R' := by
  intro ctx hspans hcalls hopened
  have hctx := h ctx hspans hcalls hopened
  simp only [Bind.bind, EStateM.bind]
  cases hy : y ctx.ledger with
  | ok v l =>
    rw [hy] at hctx
    obtain ⟨u, calls, hx, hcalls, hopened, hR⟩ := hctx
    rw [hx]
    exact hf u v hR ⟨l, level.spans, calls, ctx.overflow⟩ rfl hcalls hopened
  | error fault l =>
    rw [hy] at hctx
    obtain ⟨ctx', hx, hctx'⟩ := hctx
    exact ⟨ctx', by rw [hx], hctx'⟩

/-- What follows two actions with the same result. -/
lemma Meets.bind_eq {y : Walk α} {f : α → Guarded γ} {g : α → Walk δ}
    (h : Meets level low mid x y Eq) (hf : ∀ u, Meets level mid high (f u) (g u) R') :
    Meets level low high (x >>= f) (y >>= g) R' :=
  h.bind fun u _ huv => huv ▸ hf u

/-- An action meets another one also with fewer groups in front of it and more behind it. -/
lemma Meets.mono (h : Meets level low high x y R) (hlow : low' ≤ low) (hhigh : high ≤ high') :
    Meets level low' high' x y R := by
  intro ctx hspans hcalls hopened
  have hctx := h ctx hspans hcalls (Nat.le_trans hopened hlow)
  cases hy : y ctx.ledger with
  | ok v l =>
    rw [hy] at hctx
    obtain ⟨u, calls, hx, hcalls, hopened, hR⟩ := hctx
    exact ⟨u, calls, hx, hcalls, Nat.le_trans hopened hhigh, hR⟩
  | error fault l =>
    rw [hy] at hctx
    exact hctx

/-- An action without guards meets itself. -/
lemma meets_ofRun {a : Run α}
    (h : a.Keeps (fun _ => True) (fun _ => True) fun fault => fault.NamedIn (.whole level.text))
    (hle : low ≤ high) : Meets level low high (ofRun a) (Walk.lift a) Eq := by
  rintro ⟨l, spans, calls, overflow⟩ rfl hcalls hopened
  have hend := h l.progress trivial
  simp only [Walk.lift, ofRun]
  cases ha : a l.progress with
  | ok v p => exact ⟨v, calls, rfl, hcalls, Nat.le_trans hopened hle, rfl⟩
  | error fault p => exact ⟨_, rfl, hcalls, rfl, Run.ends_of_eq_error hend ha⟩

/-! ## The counter -/

/-- The ledger is a part of the context. -/
lemma meets_get :
    Meets level low low (get : Guarded Context) (get : Walk Ledger)
      fun ctx l => ctx.ledger = l := by
  rintro ⟨l, spans, calls, overflow⟩ rfl hcalls hopened
  exact ⟨⟨l, level.spans, calls, overflow⟩, calls, rfl, hcalls, hopened, rfl⟩

/-- The counter is the same on both sides. -/
lemma meets_opened :
    Meets level low low opened Walk.opened fun u v => u = v ∧ v ≤ low := by
  rintro ⟨l, spans, calls, overflow⟩ rfl hcalls hopened
  exact ⟨l.opened, calls, rfl, hcalls, hopened, rfl, hopened⟩

/-- The counter may be set to any number that is allowed. -/
lemma meets_setOpened {number : Nat} (h : number ≤ high) :
    Meets level low high (setOpened number) (Walk.setOpened number) Eq := by
  rintro ⟨l, spans, calls, overflow⟩ rfl hcalls -
  exact ⟨(), calls, rfl, hcalls, h, rfl⟩

/-- A number that fits is its own sum, whatever becomes of the others. -/
lemma number_of_lt {n : Nat} (h : n < numberLimit) : number n = pure n := by
  funext ctx
  unfold number
  cases ctx.overflow with
  | panics =>
    dsimp only
    rw [Scan.below_of_lt h]
    rfl
  | wraps =>
    dsimp only
    rw [Nat.mod_eq_of_lt h]
    rfl

/-- What follows a number that fits. -/
lemma number_bind {n : Nat} (h : n < numberLimit) (f : Nat → Guarded α) :
    number n >>= f = f n := by
  rw [number_of_lt h, pure_bind]

/-- A text has at least as many characters as groups. -/
lemma countGroups_le (text : List Char) : countGroups text ≤ text.length := by
  have hcount : ∀ (scan : GroupScan) (text : List Char), scan.count text ≤ text.length := by
    intro scan text
    induction text generalizing scan with
    | nil => exact Nat.le_refl _
    | cons c rest ih =>
      have := ih (scan.next c)
      rw [GroupScan.count, List.length_cons]
      split <;> omega
  exact hcount .start text

/-- A group is opened as long as there is a number left for it. -/
lemma meets_openGroup (hlimit : low + 1 < numberLimit) :
    Meets level low (low + 1) openGroup Walk.openGroup fun u v => u = v ∧ v ≤ low + 1 := by
  refine meets_opened.bind ?_
  rintro n _ ⟨rfl, hn⟩
  rw [number_bind (by omega)]
  exact (meets_setOpened (by omega)).bind_eq fun _ => meets_pure ⟨rfl, by omega⟩ (Nat.le_refl _)

/-- A part has room for all its groups, so the counter can jump over them. -/
lemma meets_reserve {part : Slice} (h : low + part.length ≤ high) (hlimit : high < numberLimit) :
    Meets level low high (reserve part) (Walk.reserve part) Eq := by
  have hcount := countGroups_le part.text
  simp only [Slice.length] at h
  rw [reserve, number_bind (by omega)]
  refine meets_opened.bind ?_
  rintro n _ ⟨rfl, hn⟩
  rw [number_bind (by omega)]
  exact meets_setOpened (by omega)

/-- The counter goes back in front of an action and is not lower behind it. -/
lemma meets_rewound {base : Nat} (h : Meets level base high x y R) (hle : low ≤ high) :
    Meets level low high (rewound base x) (Walk.rewound base y) R := by
  refine meets_opened.bind ?_
  rintro resume _ ⟨rfl, hresume⟩
  refine (meets_setOpened (Nat.le_refl base)).bind_eq fun _ => h.bind fun u v huv => ?_
  refine meets_opened.bind ?_
  rintro n _ ⟨rfl, hn⟩
  exact (meets_setOpened (Nat.max_le.2 ⟨Nat.le_trans hresume hle, hn⟩)).bind_eq fun _ =>
    meets_pure huv (Nat.le_refl _)

/-- A copy of the context does what the context itself would do, and leaves it as it is. -/
lemma meets_probe {first : Nat} (h : Meets level first high x y R) :
    Meets level low low (probe first x) (Walk.probe first y) R := by
  rintro ⟨l, spans, calls, overflow⟩ rfl hcalls hopened
  have hcopy := h ⟨{ l with opened := first }, level.spans, calls, overflow⟩ rfl hcalls
    (Nat.le_refl _)
  simp only [Walk.probe, probe, Walk.opened, Walk.setOpened, Walk.lift, bind, EStateM.bind, get,
    getThe, MonadStateOf.get, EStateM.get, modify, modifyGet, MonadStateOf.modifyGet,
    EStateM.modifyGet, pure, EStateM.pure]
  cases hy : y { l with opened := first } with
  | ok v l' =>
    rw [hy] at hcopy
    obtain ⟨u, calls', hx, hcalls', -, hR⟩ := hcopy
    rw [hx]
    exact ⟨u, calls', rfl, hcalls', hopened, hR⟩
  | error fault l' =>
    rw [hy] at hcopy
    obtain ⟨ctx', hx, hcalls', hposition, hnamed⟩ := hcopy
    rw [hx]
    exact ⟨_, rfl, hcalls', hposition, hnamed⟩

/-- The same action several times over. -/
lemma meets_replay {y : Walk α} (h : Meets level low low x y Eq) (count : Nat) :
    Meets level low low (replay x count) (Walk.replay y count) Eq := by
  induction count with
  | zero => exact meets_pure rfl (Nat.le_refl _)
  | succ count ih =>
    exact h.bind_eq fun u => ih.bind_eq fun us => meets_pure rfl (Nat.le_refl _)

end Meets

end Guarded

/-! ## Parts -/

/-- A moved slice is generated along its text as the slice is. Only its mistakes are reported
further on. -/
theorem walk_shift (stream : WordStream) (s : Slice) (k : Nat) (l : Ledger) :
    match walk stream s l with
    | .ok samples l' => walk stream (s.shift k) l = .ok samples l'
    | .error fault l' =>
      ∃ n, walk stream (s.shift k) l = .error (fault.shift k) ⟨l'.progress, n⟩ := by
  have hhere := tracks_walk stream s l.opened l.progress
  have hmoved := tracks_walk stream (s.shift k) l.opened l.progress
  rw [Pattern.ofSlice_shift, Pattern.samples_shift, Run.shift_apply] at hmoved
  cases hrun : (Pattern.ofSlice l.opened s).samples stream l.progress with
  | ok samples progress =>
    rw [hrun] at hhere hmoved
    obtain ⟨_, hhere, rfl⟩ := hhere
    obtain ⟨_, hmoved, rfl⟩ := hmoved
    rw [hhere]
    exact hmoved
  | error fault progress =>
    rw [hrun] at hhere hmoved
    obtain ⟨n, hhere⟩ := hhere
    rw [hhere]
    exact hmoved

/-- A part is evaluated as a text of its own. -/
lemma Guarded.meets_evaluate {pattern : List Char} {level : Level pattern} {low high : Nat}
    {stream : WordStream} {run : List Char → Guarded (List Sample)} {part : Slice}
    (hpart : part.IsPart (.whole level.text))
    (h : Meets (level.enter hpart) low high (run part.text) (walk stream (.whole part.text)) Eq) :
    Meets level low high (evaluate run part) (walk stream part) Eq := by
  rintro ⟨l, spans, calls, overflow⟩ rfl hcalls hopened
  have hcalls' : ∀ call ∈ calls ++ [⟨level.spans ++ [part.start], part.text⟩],
      call.Exact pattern := by
    intro call hmem
    rcases List.mem_append.1 hmem with hmem | hmem
    · exact hcalls call hmem
    · rw [List.mem_singleton.1 hmem]
      exact (level.enter hpart).isPart.take_drop
  have hinside := h ⟨l, level.spans ++ [part.start], _, overflow⟩ rfl hcalls' hopened
  have hmoved := walk_shift stream (.whole part.text) part.start l
  have hback : (Slice.whole part.text).shift part.start = part := by
    simp [Slice.shift, Slice.whole]
  rw [hback] at hmoved
  cases hwalk : walk stream (.whole part.text) l with
  | ok samples l' =>
    rw [hwalk] at hinside hmoved
    obtain ⟨u, calls₁, hrun, hcalls₁, hopened₁, rfl⟩ := hinside
    simp only [hmoved, evaluate, hrun]
    exact ⟨u, calls₁, by simp only [Level.enter, List.dropLast_concat], hcalls₁, hopened₁, rfl⟩
  | error fault l' =>
    rw [hwalk] at hinside hmoved
    obtain ⟨ctx', hrun, hcalls₁, hposition, hnamed⟩ := hinside
    obtain ⟨n, hmoved⟩ := hmoved
    have herror : fault.errorAt (level.enter hpart).spans =
        (fault.shift part.start).errorAt level.spans := fault.errorAt_append _ _
    have hnamed' : (fault.shift part.start).NamedIn (.whole level.text) := by
      have := hnamed.shift part.start
      rw [Level.enter, hback] at this
      exact this.mono hpart
    simp only [hmoved, evaluate, hrun, herror]
    exact ⟨_, rfl, hcalls₁, hposition, hnamed'⟩

end PatternSampler
