import PatternSampler.Proofs.Run.Unrolled

set_option autoImplicit false

/-!
# Counts in a row

Each count in a row repeats what the counts in front of it make of a construct. How many copies the
row may ask for is bounded, and the bound is checked at each count before anything is generated for
it. The numbers of copies themselves are drawn anew at each level.

## Main definitions

* `saturatingMul`, `multiplicity` — the product of the upper bounds in 64 bits.
* `readCountsSaturating` — counts read with these products.
* `Sample.Copies` — a text that consists of copies of a character.

## Main results

* `readCountsSaturating_eq` — products in 64 bits let pass what exact products let pass.
* `readCounts_eq_fault` — the first count behind which the product is too large is reported.
* `keeps_extras_copies` — the number of copies lies between the products of the bounds.
* `walk_chained_counts` — a character with counts behind it.
-/

namespace PatternSampler

open Run

/-! ## Products in 64 bits -/

/-- The product of two numbers in 64 bits. The largest number stands for the products that do not
fit. -/
def saturatingMul (m n : Nat) : Nat := min (m * n) (sizeLimit - 1)

/-- The largest number of copies that counts ask for, in 64 bits. Each count repeats what the counts
in front of it make. -/
def multiplicity (counts : List RepeatCount) : Nat :=
  counts.foldl (fun copies count => saturatingMul count.high copies) 1

/-- One more count multiplies the copies. -/
lemma multiplicity_concat (counts : List RepeatCount) (count : RepeatCount) :
    multiplicity (counts ++ [count]) = saturatingMul count.high (multiplicity counts) := by
  rw [multiplicity, List.foldl_concat, multiplicity]

/-- The copies asked for are the product of the counts, as long as it fits. -/
lemma multiplicity_eq (counts : List RepeatCount) :
    multiplicity counts = min (counts.map RepeatCount.high).prod (sizeLimit - 1) := by
  induction counts using List.reverseRecOn with
  | nil => decide
  | append_singleton counts count ih =>
    rw [multiplicity_concat, ih, saturatingMul, List.map_append, List.prod_append,
      List.map_singleton, List.prod_singleton]
    generalize (counts.map RepeatCount.high).prod = product
    rcases Nat.eq_zero_or_pos count.high with hzero | hpos
    · simp [hzero]
    · rcases Nat.le_total product (sizeLimit - 1) with hle | hle
      · rw [min_eq_left hle, Nat.mul_comm]
      · have hlarge : sizeLimit - 1 ≤ count.high * (sizeLimit - 1) := Nat.le_mul_of_pos_left _ hpos
        rw [min_eq_right hle, min_eq_right hlarge,
          min_eq_right (hle.trans (Nat.le_mul_of_pos_right _ hpos))]

/-- A product in 64 bits is too large exactly if the exact product is. -/
lemma maxRepeat_lt_saturatingMul_iff (before : List RepeatCount) (count : RepeatCount) :
    maxRepeat < saturatingMul count.high (multiplicity before) ↔
      maxRepeat < (before.map RepeatCount.high).prod * count.high := by
  have hlimit : maxRepeat < sizeLimit - 1 := by decide
  rw [← multiplicity_concat, multiplicity_eq, lt_min_iff, List.map_append, List.prod_append,
    List.map_singleton, List.prod_singleton]
  exact and_iff_left hlimit

/-- Reads repeat counts behind those in `before`, with products in 64 bits. -/
def readCountsSaturating (before : List RepeatCount) (s : Slice) : Counts :=
  match _h : Token.next s with
  | .ok (some (.repetition count, rest)) =>
    if maxRepeat < saturatingMul count.high (multiplicity before) then
      ⟨[], rest, some (.located .repeatTooLarge s.start (rest.start - s.start))⟩
    else
      let later := readCountsSaturating (before ++ [count]) rest
      { later with counts := count :: later.counts }
  | _ => ⟨[], s, none⟩
termination_by s.length
decreasing_by
  exact (Token.room_next _h).2

/-- Products in 64 bits let pass what exact products let pass. -/
theorem readCountsSaturating_eq (before : List RepeatCount) (s : Slice) :
    readCountsSaturating before s = readCounts (before.map RepeatCount.high).prod s := by
  fun_induction readCountsSaturating before s with
  | case1 before s count rest h hlarge =>
    rw [maxRepeat_lt_saturatingMul_iff] at hlarge
    rw [readCounts, h]
    simp only [if_pos hlarge]
  | case2 before s count rest h hle later ih =>
    rw [maxRepeat_lt_saturatingMul_iff] at hle
    rw [readCounts, h]
    simp only [if_neg hle, later, ih, List.map_append, List.prod_append, List.map_singleton,
      List.prod_singleton]
  | case3 before s h =>
    rw [readCounts_of_ne fun count rest => h count rest]

/-! ## Reading -/

section Reading

variable {bodies : List (List Char)} {counts : List RepeatCount}

/-- A count in its braces is read, whatever follows it. -/
lemma next_braced {body : List Char} {count : RepeatCount} (h : RepeatCount.ofText body = .ok count)
    (start : Nat) (rest : List Char) :
    Token.next ⟨start, braced body ++ rest⟩ =
      .ok (some (.repetition count, ⟨start + (braced body).length, rest⟩)) := by
  exact Token.next_of_spelled (.repetition (RepeatCount.brace_notMem_of_ofText h) h) ⟨rfl, rfl⟩
    (by simp)

/-- Counts in their braces are spelled by their bodies. -/
lemma spelled_of_bodies (h : List.Forall₂ (fun body count => RepeatCount.ofText body = .ok count)
    bodies counts) : RepeatCount.Spelled counts (bodies.map braced).flatten := by
  induction h with
  | nil => exact .nil
  | cons hcount _ ih => exact .braced hcount ih

/-- The first count behind which the product is too large is reported, at its braces. -/
lemma readCounts_eq_fault (h : List.Forall₂ (fun body count => RepeatCount.ofText body = .ok count)
    bodies counts) {product : Nat} (hproduct : product ≤ maxRepeat)
    (hlarge : maxRepeat < product * (counts.map RepeatCount.high).prod) (start : Nat) :
    ∃ i, ∃ hi : i < bodies.length,
      (∀ j ≤ i, product * ((counts.take j).map RepeatCount.high).prod ≤ maxRepeat) ∧
      maxRepeat < product * ((counts.take (i + 1)).map RepeatCount.high).prod ∧
      ∃ rest, readCounts product ⟨start, (bodies.map braced).flatten⟩ = ⟨counts.take i, rest,
        some (.located .repeatTooLarge (start + ((bodies.take i).map braced).flatten.length)
          (braced bodies[i]).length)⟩ := by
  induction h generalizing product start with
  | nil =>
    rw [List.map_nil, List.prod_nil, Nat.mul_one] at hlarge
    omega
  | @cons body count bodies counts hcount h ih =>
    have hnext := next_braced hcount start (bodies.map braced).flatten
    rw [List.map_cons, List.flatten_cons]
    by_cases hhere : maxRepeat < product * count.high
    · refine ⟨0, Nat.succ_pos _, ?_, by simpa using hhere,
        ⟨start + (braced body).length, (bodies.map braced).flatten⟩, ?_⟩
      · intro j hj
        obtain rfl : j = 0 := by omega
        simpa using hproduct
      · rw [readCounts, hnext]
        simp only [if_pos hhere, Nat.add_sub_cancel_left]
        rfl
    · rw [Nat.not_lt] at hhere
      rw [List.map_cons, List.prod_cons, ← Nat.mul_assoc] at hlarge
      obtain ⟨i, hi, hbefore, hbehind, rest, hread⟩ :=
        ih hhere hlarge (start + (braced body).length)
      refine ⟨i + 1, Nat.succ_lt_succ hi, ?_, ?_, rest, ?_⟩
      · intro j hj
        cases j with
        | zero => simpa using hproduct
        | succ j => simpa [Nat.mul_assoc] using hbefore j (by omega)
      · simpa [Nat.mul_assoc] using hbehind
      · rw [readCounts, hnext]
        simp only [if_neg (Nat.not_lt.2 hhere), hread]
        simp [Nat.add_assoc]

end Reading

/-! ## Copies -/

/-- The text consists of copies of a character, as many as the bounds say. -/
def Sample.Copies (c : Char) (low high : Nat) (s : Sample) : Prop :=
  ∃ copies, s.text = String.ofList (List.replicate copies c) ∧ low ≤ copies ∧ copies ≤ high

namespace Sample.Copies

variable {c : Char} {low high low' high' : Nat} {s : Sample} {samples : List Sample}

/-- Wider bounds hold as well. -/
lemma mono (h : s.Copies c low high) (hlow : low' ≤ low) (hhigh : high ≤ high') :
    s.Copies c low' high' := by
  obtain ⟨copies, htext, hle, hge⟩ := h
  exact ⟨copies, htext, hlow.trans hle, hge.trans hhigh⟩

/-- The copies depend on the text alone. -/
lemma of_text_eq {s' : Sample} (h : s.Copies c low high) (htext : s'.text = s.text) :
    s'.Copies c low high := by
  obtain ⟨copies, hcopies, hbounds⟩ := h
  exact ⟨copies, htext.trans hcopies, hbounds⟩

/-- Samples one behind the other have the copies of all of them. -/
lemma join (h : ∀ s ∈ samples, s.Copies c low high) :
    (Sample.join samples).Copies c (samples.length * low) (samples.length * high) := by
  induction samples with
  | nil => exact ⟨0, by simp [Sample.join], by simp⟩
  | cons s samples ih =>
    obtain ⟨⟨copies, htext, hlow, hhigh⟩, hsamples⟩ := List.forall_mem_cons.1 h
    obtain ⟨copies', htext', hlow', hhigh'⟩ := ih hsamples
    refine ⟨copies + copies', ?_, ?_, ?_⟩
    · have hfirst : (Sample.join [s]).text = s.text := by simp [Sample.join]
      rw [← List.singleton_append, Sample.text_join_append, hfirst, htext, htext',
        ← String.ofList_append, List.replicate_append_replicate]
    · rw [List.length_cons, Nat.succ_mul]
      omega
    · rw [List.length_cons, Nat.succ_mul]
      omega

end Sample.Copies

section Repetition

variable {I : GroupTable → Prop} {F : Fault → Prop} {c : Char} {low high : Nat}
  {action : Run Sample} {counts : List RepeatCount} {count : RepeatCount}

/-- The number that is drawn for a count lies between its bounds. -/
lemma keeps_draw_bounds (stream : WordStream) (h : count.Valid) :
    (count.draw stream).Keeps I (fun n => count.low ≤ n ∧ n ≤ count.high) F := by
  cases count with
  | exactly => exact keeps_pure ⟨le_rfl, le_rfl⟩
  | between low high =>
    refine (keeps_choose stream _).bind fun place _ => keeps_pure ⟨Nat.le_add_right low place, ?_⟩
    have hplace := place.isLt
    have hle : low ≤ high := h.low_le
    show low + place ≤ high
    omega

/-- A count multiplies the bounds of the number of copies. -/
lemma keeps_repeated_copies (stream : WordStream) (h : count.Valid)
    (haction : action.Keeps I (Sample.Copies c low high) F) :
    (repeated stream count action).Keeps I
      (Sample.Copies c (count.low * low) (count.high * high)) F := by
  refine (keeps_draw_bounds stream h).bind fun n hn => (haction.replay n).bind
    fun samples hsamples => keeps_pure ?_
  obtain ⟨rfl, hcopies⟩ := hsamples
  exact (Sample.Copies.join hcopies).mono (Nat.mul_le_mul_right _ hn.1)
    (Nat.mul_le_mul_right _ hn.2)

/-- With what the counts add to it, a first instance has as many copies as the products of the
bounds say.

**Proof sketch.** By induction on the counts. The first count adds to the first instance what makes
`n` instances of it, and together they are a first instance of what the later counts repeat. -/
lemma keeps_extras_copies (stream : WordStream) (hcounts : ∀ count ∈ counts, count.Valid)
    (haction : action.Keeps I (Sample.Copies c low high) F) :
    (extras stream counts action).Keeps I (fun added => ∀ first : Sample, first.Copies c low high →
      (Sample.join (first :: added)).Copies c ((counts.map RepeatCount.low).prod * low)
        ((counts.map RepeatCount.high).prod * high)) F := by
  induction counts generalizing action low high with
  | nil =>
    refine keeps_pure fun first hfirst => ?_
    simpa using hfirst.of_text_eq (Sample.text_join_singleton first)
  | cons count counts ih =>
    obtain ⟨hcount, hcounts⟩ := List.forall_mem_cons.1 hcounts
    refine (keeps_draw_bounds stream hcount).bind fun n hn => (haction.replay (n - 1)).bind
      fun added hadded => (ih hcounts (keeps_repeated_copies stream hcount haction)).bind
        fun more hmore => keeps_pure fun first hfirst => ?_
    obtain ⟨hlength, hcopies⟩ := hadded
    have hpos : 0 < n := Nat.lt_of_lt_of_le hcount.low_pos hn.1
    have hrow := Sample.Copies.join (List.forall_mem_cons.2 ⟨hfirst, hcopies⟩)
    rw [List.length_cons, hlength, Nat.sub_add_cancel hpos] at hrow
    have hall := hmore _ (hrow.mono (Nat.mul_le_mul_right _ hn.1) (Nat.mul_le_mul_right _ hn.2))
    rw [← Nat.mul_assoc, ← Nat.mul_assoc] at hall
    rw [List.map_cons, List.prod_cons, List.map_cons, List.prod_cons, Nat.mul_comm count.low,
      Nat.mul_comm count.high]
    refine hall.of_text_eq ?_
    simp [Sample.join, String.append_assoc]

end Repetition

/-! ## Texts -/

/-- A character with counts in braces behind it. -/
def chained (c : Char) (bodies : List (List Char)) : List Char := c :: (bodies.map braced).flatten

section Texts

variable {c : Char} {bodies : List (List Char)} {counts : List RepeatCount}

/-- The character is read first, and its counts are left. -/
lemma next_chained (hc : isStructural c = false) (bodies : List (List Char)) (start : Nat) :
    Token.next ⟨start, chained c bodies⟩ =
      .ok (some (.character c, ⟨start + 1, (bodies.map braced).flatten⟩)) :=
  Token.next_of_spelled (.literal hc) ⟨rfl, rfl⟩ (by simp)

/-- The tree of a character with counts, whatever reading the counts yields. -/
lemma Pattern.ofSlice_chained (hc : isStructural c = false) (bodies : List (List Char))
    (opened start : Nat) :
    Pattern.ofSlice opened ⟨start, chained c bodies⟩ =
      .seq (.character c) (readCounts 1 ⟨start + 1, (bodies.map braced).flatten⟩).counts
        (match (readCounts 1 ⟨start + 1, (bodies.map braced).flatten⟩).fault with
          | some fault => .stop fault
          | none =>
            ofSlice opened (readCounts 1 ⟨start + 1, (bodies.map braced).flatten⟩).rest) := by
  rw [Pattern.ofSlice_of_construct (next_chained hc bodies start) (by rw [Construct.ofToken])]
  rfl

/-- The instances of a character that counts ask for. -/
lemma keeps_samples_chained {I : GroupTable → Prop} {F : Fault → Prop} (stream : WordStream)
    (hcounts : ∀ count ∈ counts, count.Valid) :
    ((Pattern.seq (.character c) counts .done).samples stream).Keeps I (fun samples =>
      (Sample.join samples).Copies c (counts.map RepeatCount.low).prod
        (counts.map RepeatCount.high).prod) F := by
  have hone : (pure (.fixed c.toString) : Run Sample).Keeps I (Sample.Copies c 1 1) F :=
    keeps_pure ⟨1, by simp [Sample.fixed], le_rfl, le_rfl⟩
  simp only [Pattern.samples, Construct.prepare, pure_bind]
  refine (keeps_extras_copies stream hcounts hone).bind fun added hadded => keeps_pure ?_
  have hall := hadded (.fixed c.toString) ⟨1, by simp [Sample.fixed], le_rfl, le_rfl⟩
  simpa using hall

/-- Behind the instances of a character a fault is reported. -/
lemma keeps_samples_chained_stop {I : GroupTable → Prop} (stream : WordStream) (fault : Fault)
    (hcounts : ∀ count ∈ counts, count.Valid) :
    ((Pattern.seq (.character c) counts (.stop fault)).samples stream).Keeps I (fun _ => False)
      (· = fault) := by
  have hone : (pure (.fixed c.toString) : Run Sample).Keeps I (Sample.Copies c 1 1) (· = fault) :=
    keeps_pure ⟨1, by simp [Sample.fixed], le_rfl, le_rfl⟩
  have hstop : (throw fault : Run (List Sample)).Keeps I (fun _ => False) (· = fault) := by
    intro p hp
    rfl
  simp only [Pattern.samples, Construct.prepare, pure_bind]
  exact (keeps_extras_copies stream hcounts hone).bind fun _ _ => hstop.bind fun _ h => h.elim

/-- What holds of the end of a run of the tree holds of the end of a run along the text. -/
lemma walk_of_keeps {stream : WordStream} {s : Slice} {P : Sample → Prop} {F : Fault → Prop}
    (l : Ledger) (h : (s.sample stream l.opened).Keeps (fun _ => True) P F) :
    match Walk.sample (walk stream) s l with
    | .ok x _ => P x
    | .error fault _ => F fault := by
  have hwalk := tracks_sample stream s l.opened l.progress
  have hends := h l.progress trivial
  cases hrun : s.sample stream l.opened l.progress with
  | ok x q =>
    rw [hrun] at hwalk
    obtain ⟨_, hwalk, rfl⟩ := hwalk
    rw [hwalk]
    exact (ends_of_eq_ok hends hrun).2
  | error fault q =>
    rw [hrun] at hwalk
    obtain ⟨n, hwalk⟩ := hwalk
    rw [hwalk]
    exact ends_of_eq_error hends hrun

/-- If the product of the upper bounds is small enough, there are as many copies as they say. -/
lemma walk_chained_of_le (hc : isStructural c = false)
    (h : List.Forall₂ (fun body count => RepeatCount.ofText body = .ok count) bodies counts)
    (hle : (counts.map RepeatCount.high).prod ≤ maxRepeat) (stream : WordStream) (start : Nat)
    (l : Ledger) :
    ∃ s l', Walk.sample (walk stream) ⟨start, chained c bodies⟩ l = .ok s l' ∧
      s.Copies c (counts.map RepeatCount.low).prod (counts.map RepeatCount.high).prod := by
  have hspelled := spelled_of_bodies h
  have hread : readCounts 1 ⟨start + 1, (bodies.map braced).flatten⟩ =
      ⟨counts, ⟨start + 1 + (bodies.map braced).flatten.length, []⟩, none⟩ :=
    readCounts_of_spelled hspelled ⟨by simp, rfl⟩ (fun _ _ => by simp [Token.next])
      (by rwa [Nat.one_mul])
  have htree : Pattern.ofSlice l.opened ⟨start, chained c bodies⟩ =
      .seq (.character c) counts .done := by
    rw [Pattern.ofSlice_chained hc, hread]
    simp only
    rw [Pattern.ofSlice]
    rfl
  have hkeeps : ((⟨start, chained c bodies⟩ : Slice).sample stream l.opened).Keeps (fun _ => True)
      (Sample.Copies c (counts.map RepeatCount.low).prod (counts.map RepeatCount.high).prod)
      fun _ => False := by
    rw [Slice.sample, htree]
    exact (keeps_samples_chained stream hspelled.valid).bind fun samples hs => keeps_pure hs
  have hwalk := walk_of_keeps l hkeeps
  cases hrun : Walk.sample (walk stream) ⟨start, chained c bodies⟩ l with
  | ok s l' =>
    rw [hrun] at hwalk
    exact ⟨s, l', rfl, hwalk⟩
  | error fault l' =>
    rw [hrun] at hwalk
    exact hwalk.elim

/-- If the product of the upper bounds is too large, the first count at which it is too large is
reported. -/
lemma walk_chained_of_lt (hc : isStructural c = false)
    (h : List.Forall₂ (fun body count => RepeatCount.ofText body = .ok count) bodies counts)
    (hlt : maxRepeat < (counts.map RepeatCount.high).prod) (start : Nat) :
    ∃ i, ∃ hi : i < bodies.length,
      (∀ j ≤ i, ((counts.take j).map RepeatCount.high).prod ≤ maxRepeat) ∧
      maxRepeat < ((counts.take (i + 1)).map RepeatCount.high).prod ∧
      ∀ stream l, ∃ fault l', Walk.sample (walk stream) ⟨start, chained c bodies⟩ l =
          .error fault l' ∧
        fault.toError = ⟨.value, ["repeat count too large"],
          some (start + 1 + ((bodies.take i).map braced).flatten.length),
          (braced bodies[i]).length⟩ := by
  obtain ⟨i, hi, hbefore, hbehind, rest, hread⟩ :=
    readCounts_eq_fault h (show 1 ≤ maxRepeat by decide) (by rwa [Nat.one_mul]) (start + 1)
  simp only [Nat.one_mul] at hbefore hbehind
  refine ⟨i, hi, hbefore, hbehind, fun stream l => ?_⟩
  have hvalid : ∀ count ∈ counts.take i, count.Valid := fun count hcount =>
    (spelled_of_bodies h).valid count (List.mem_of_mem_take hcount)
  have hkeeps : ((⟨start, chained c bodies⟩ : Slice).sample stream l.opened).Keeps (fun _ => True)
      (fun _ => False) (· = .located .repeatTooLarge
        (start + 1 + ((bodies.take i).map braced).flatten.length) (braced bodies[i]).length) := by
    rw [Slice.sample, Pattern.ofSlice_chained hc, hread]
    exact (keeps_samples_chained_stop stream _ hvalid).bind fun _ h => h.elim
  have hwalk := walk_of_keeps l hkeeps
  cases hrun : Walk.sample (walk stream) ⟨start, chained c bodies⟩ l with
  | ok s l' =>
    rw [hrun] at hwalk
    exact hwalk.elim
  | error fault l' =>
    rw [hrun] at hwalk
    obtain rfl : fault = .located _ _ _ := hwalk
    have hlength : 1 ≤ (braced bodies[i]).length := Nat.succ_pos _
    refine ⟨_, l', rfl, ?_⟩
    simp only [Fault.toError, Fault.located, max_eq_left hlength]
    rfl

/-- **Counts in a row**: let a character that stands for itself have valid counts in braces behind
it, `{m₁,M₁}` to `{mₖ,Mₖ}`. The text is generated for every stream if and only if `M₁ * … * Mₖ` is
at most `maxRepeat`, and then it consists of at least `m₁ * … * mₖ` and at most `M₁ * … * Mₖ` copies
of the character. Otherwise the first count is reported at which the product of the upper bounds is
too large. Products in 64 bits, with the largest number in place of any that do not fit, let the
same counts pass.

**Proof sketch.** The products of the counts in front are carried along while the counts are read.
What is generated for the first counts is a first instance of what the later ones repeat, so the
bounds are multiplied count by count. -/
theorem walk_chained_counts (start : Nat) {c : Char} {bodies : List (List Char)}
    {counts : List RepeatCount} (hc : isStructural c = false)
    (hcounts : List.Forall₂ (fun body count => RepeatCount.ofText body = .ok count) bodies counts) :
    ((∀ stream l, ∃ s l', Walk.sample (walk stream) ⟨start, chained c bodies⟩ l = .ok s l') ↔
      (counts.map RepeatCount.high).prod ≤ maxRepeat) ∧
    ((counts.map RepeatCount.high).prod ≤ maxRepeat → ∀ stream l, ∃ s l' r,
      Walk.sample (walk stream) ⟨start, chained c bodies⟩ l = .ok s l' ∧
      s.text = String.ofList (List.replicate r c) ∧
      (counts.map RepeatCount.low).prod ≤ r ∧ r ≤ (counts.map RepeatCount.high).prod) ∧
    (maxRepeat < (counts.map RepeatCount.high).prod → ∃ i, ∃ hi : i < bodies.length,
      (∀ j ≤ i, ((counts.take j).map RepeatCount.high).prod ≤ maxRepeat) ∧
      maxRepeat < ((counts.take (i + 1)).map RepeatCount.high).prod ∧
      ∀ stream l, ∃ fault l', Walk.sample (walk stream) ⟨start, chained c bodies⟩ l =
          .error fault l' ∧
        fault.toError = ⟨.value, ["repeat count too large"],
          some (start + 1 + ((bodies.take i).map braced).flatten.length),
          (braced bodies[i]).length⟩) ∧
    ∀ s, readCountsSaturating [] s = readCounts 1 s := by
  refine ⟨⟨?_, ?_⟩, ?_, fun hlt => walk_chained_of_lt hc hcounts hlt start, ?_⟩
  · intro hok
    by_contra hlt
    rw [Nat.not_le] at hlt
    obtain ⟨i, hi, -, -, herror⟩ := walk_chained_of_lt hc hcounts hlt start
    obtain ⟨s, l', hs⟩ := hok (fun _ => 0) ⟨⟨0, .empty⟩, 0⟩
    obtain ⟨fault, l'', hfault, -⟩ := herror (fun _ => 0) ⟨⟨0, .empty⟩, 0⟩
    rw [hs] at hfault
    cases hfault
  · intro hle stream l
    obtain ⟨s, l', hs, -⟩ := walk_chained_of_le hc hcounts hle stream start l
    exact ⟨s, l', hs⟩
  · intro hle stream l
    obtain ⟨s, l', hs, r, htext, hlow, hhigh⟩ := walk_chained_of_le hc hcounts hle stream start l
    exact ⟨s, l', r, hs, htext, hlow, hhigh⟩
  · intro s
    rw [readCountsSaturating_eq, List.map_nil, List.prod_nil]

/-- Two counts that are valid on their own ask for too many copies together, and the second one is
reported. -/
theorem walk_chained_counts_too_large :
    ∃ fault l, Walk.sample (walk fun _ => 0) ⟨0, "a{16384}{16385}".toList⟩ ⟨⟨0, .empty⟩, 0⟩ =
      .error fault l ∧
        fault.toError = ⟨.value, ["repeat count too large"], some 8, 7⟩ := by
  have hcounts : List.Forall₂ (fun body count => RepeatCount.ofText body = .ok count)
      ["16384".toList, "16385".toList] [.exactly 16384, .exactly 16385] :=
    .cons (by decide) (.cons (by decide) .nil)
  have hc : isStructural 'a' = false := by decide
  obtain ⟨-, -, hlarge, -⟩ := walk_chained_counts 0 hc hcounts
  obtain ⟨i, hi, hbefore, hbehind, herror⟩ := hlarge (by decide)
  obtain ⟨fault, l, hrun, hfault⟩ := herror (fun _ => 0) ⟨⟨0, .empty⟩, 0⟩
  -- one count alone is small enough
  obtain rfl : i = 1 := by
    simp only [List.length_cons, List.length_nil] at hi
    interval_cases i
    · exact absurd hbehind (by decide)
    · rfl
  exact ⟨fault, l, hrun, hfault⟩

end Texts

end PatternSampler
