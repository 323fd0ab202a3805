import Mathlib
import PatternSampler.Proofs.CharSet.Members
import PatternSampler.Proofs.Entropy.Exact
import PatternSampler.Proofs.Faults.Possible
import PatternSampler.Proofs.Reading.Counts
import PatternSampler.Proofs.Run.Ends

set_option autoImplicit false

/-!
# The entropy of a pattern

The entropy of a sample lies between two numbers that are read off the tree of the pattern. They
differ only in how often constructs are repeated.

## Main definitions

* `Pattern.plainText?` — the text of a pattern that is a row of characters.
* `Pattern.PlainNumbers` — the numbers that functions take entropy from are rows of characters.
* `Pattern.measure` — the entropy of a pattern whose counts are known.

## Main results

* `Pattern.measured_samples` — the entropy of a run lies between the measures of the tree.
* `entropy_between_measures` — the same for texts, and what follows for fixed counts.

## Implementation notes

The logarithm of zero is zero here, which is the entropy of a set without members.
-/

namespace PatternSampler

open Run

/-! ## Measures -/

/-- The text of a pattern that is a row of characters. -/
def Pattern.plainText? : Pattern → Option (List Char)
  | .done => some []
  | .seq (.character c) [] rest => rest.plainText?.map (c :: ·)
  | _ => none

/-- The number that an argument spells if it is a row of characters. -/
def Argument.plainNumber? {α : Type} (read : List Char → Option α) (a : Argument) : Option α :=
  a.body.plainText?.bind read

/-- The number of days of the years from the one that an argument spells to the one that another
spells. -/
noncomputable def dayCount (first last : Argument) : Nat :=
  match first.plainNumber? signed?, last.plainNumber? signed? with
  | some firstYear, some lastYear => ∑ year ∈ Finset.Icc firstYear lastYear, daysInYear year
  | _, _ => 0

mutual

/-- The entropy of a pattern in which each count asks for `often` instances. -/
noncomputable def Pattern.measure (often : RepeatCount → Nat) : Pattern → ℝ
  | .done | .stop _ => 0
  | .seq head counts rest =>
    ((counts.map often).prod : Nat) * head.measure often + rest.measure often

/-- The entropy of a construct in which each count asks for `often` instances. -/
noncomputable def Construct.measure (often : RepeatCount → Nat) : Construct → ℝ
  | .character _ | .reference _ _ => 0
  | .oneOf set => Entropy.choiceBits (Set.ncard {c | set.contains c = true})
  | .group _ body => body.measure often
  | .alternation _ branches => Entropy.choiceBits branches.length + branches.leastMeasure often
  | .encode _ argument | .expand argument _ | .shuffle argument | .justify _ argument _ _ =>
    argument.measure often
  | .byte _ => 8
  | .words count => 11 * ((count.plainNumber? unsigned?).getD 0 : Nat)
  | .date first last _ => Entropy.choiceBits (dayCount first last)
  | .optional _ => 1

/-- The entropy of an argument in which each count asks for `often` instances. -/
noncomputable def Argument.measure (often : RepeatCount → Nat) : Argument → ℝ
  | .mk _ body => body.measure often

/-- The smallest entropy of a branch in which each count asks for `often` instances. -/
noncomputable def Branches.leastMeasure (often : RepeatCount → Nat) : Branches → ℝ
  | .one _ _ body => body.measure often
  | .more _ _ body rest => min (body.measure often) (rest.leastMeasure often)

end

mutual

/-- The numbers of words and the years that have a part in the entropy of a pattern are rows of
characters. -/
def Pattern.PlainNumbers : Pattern → Prop
  | .done | .stop _ => True
  | .seq head _ rest => head.PlainNumbers ∧ rest.PlainNumbers

/-- The numbers of words and the years that have a part in the entropy of a construct are rows of
characters. -/
def Construct.PlainNumbers : Construct → Prop
  | .character _ | .oneOf _ | .reference _ _ | .byte _ | .optional _ => True
  | .group _ body => body.PlainNumbers
  | .alternation _ branches => branches.PlainNumbers
  | .encode _ argument | .expand argument _ | .shuffle argument | .justify _ argument _ _ =>
    argument.PlainNumbers
  | .words count => count.body.plainText?.isSome
  | .date first last _ => first.body.plainText?.isSome ∧ last.body.plainText?.isSome

/-- The numbers of words and the years that have a part in the entropy of an argument are rows of
characters. -/
def Argument.PlainNumbers : Argument → Prop
  | .mk _ body => body.PlainNumbers

/-- The numbers of words and the years that have a part in the entropy of branches are rows of
characters. -/
def Branches.PlainNumbers : Branches → Prop
  | .one _ _ body => body.PlainNumbers
  | .more _ _ body rest => body.PlainNumbers ∧ rest.PlainNumbers

end

/-- A number is at most the smallest measure of the branches if it is at most the measure of each of
them. -/
lemma Branches.le_leastMeasure {often : RepeatCount → Nat} {x : ℝ} {b : Branches} :
    x ≤ b.leastMeasure often ↔ ∀ body ∈ b.bodies, x ≤ body.measure often := by
  fun_induction Branches.bodies b with
  | case1 before count body => simp [leastMeasure]
  | case2 before count body rest ih =>
    rw [leastMeasure, le_min_iff, ih, List.forall_mem_cons]

section Nonneg

variable (often : RepeatCount → Nat)

mutual

/-- The measure of a pattern is not negative. -/
lemma Pattern.measure_nonneg : ∀ t : Pattern, 0 ≤ t.measure often
  | .done | .stop _ => le_rfl
  | .seq head _ rest =>
    add_nonneg (mul_nonneg (Nat.cast_nonneg _) head.measure_nonneg) rest.measure_nonneg

/-- The measure of a construct is not negative. -/
lemma Construct.measure_nonneg : ∀ c : Construct, 0 ≤ c.measure often
  | .character _ | .reference _ _ => le_rfl
  | .oneOf set => Entropy.choiceBits_nonneg _
  | .group _ body => body.measure_nonneg
  | .alternation _ branches =>
    add_nonneg (Entropy.choiceBits_nonneg _) branches.leastMeasure_nonneg
  | .encode _ argument | .expand argument _ | .shuffle argument | .justify _ argument _ _ =>
    argument.measure_nonneg
  | .byte _ => by norm_num [Construct.measure]
  | .words _ => mul_nonneg (by norm_num) (Nat.cast_nonneg _)
  | .date _ _ _ => Entropy.choiceBits_nonneg _
  | .optional _ => zero_le_one

/-- The measure of an argument is not negative. -/
lemma Argument.measure_nonneg : ∀ a : Argument, 0 ≤ a.measure often
  | .mk _ body => body.measure_nonneg

/-- The smallest measure of branches is not negative. -/
lemma Branches.leastMeasure_nonneg : ∀ b : Branches, 0 ≤ b.leastMeasure often
  | .one _ _ body => body.measure_nonneg
  | .more _ _ body rest => le_min body.measure_nonneg rest.leastMeasure_nonneg

end

end Nonneg

mutual

/-- The measure depends on the counts only as far as they ask for instances. -/
lemma Pattern.measure_congr {often often' : RepeatCount → Nat} :
    ∀ {t : Pattern}, t.CountsIn (fun count => often count = often' count) →
      t.measure often = t.measure often'
  | .done, _ | .stop _, _ => rfl
  | .seq head counts rest, ⟨hhead, hcounts, hrest⟩ => by
    rw [Pattern.measure, Pattern.measure, Construct.measure_congr hhead,
      Pattern.measure_congr hrest, List.map_congr_left hcounts]

/-- The measure of a construct depends on what its counts ask for. -/
lemma Construct.measure_congr {often often' : RepeatCount → Nat} :
    ∀ {c : Construct}, c.CountsIn (fun count => often count = often' count) →
      c.measure often = c.measure often'
  | .character _, _ | .reference _ _, _ | .oneOf _, _ | .byte _, _ | .words _, _
  | .date _ _ _, _ | .optional _, _ => rfl
  | .group _ body, h => Pattern.measure_congr (t := body) h
  | .alternation _ branches, h =>
    congrArg (Entropy.choiceBits branches.length + ·) (Branches.leastMeasure_congr h)
  | .encode _ argument, h | .shuffle argument, h => Argument.measure_congr (a := argument) h
  | .expand _ _, h | .justify _ _ _ _, h => Argument.measure_congr h.1

/-- The measure of an argument depends on what its counts ask for. -/
lemma Argument.measure_congr {often often' : RepeatCount → Nat} :
    ∀ {a : Argument}, a.CountsIn (fun count => often count = often' count) →
      a.measure often = a.measure often'
  | .mk _ body, h => Pattern.measure_congr (t := body) h

/-- The smallest measure of branches depends on what their counts ask for. -/
lemma Branches.leastMeasure_congr {often often' : RepeatCount → Nat} :
    ∀ {b : Branches}, b.CountsIn (fun count => often count = often' count) →
      b.leastMeasure often = b.leastMeasure often'
  | .one _ _ body, h => Pattern.measure_congr (t := body) h
  | .more _ _ _ _, h =>
    congrArg₂ min (Pattern.measure_congr h.1) (Branches.leastMeasure_congr h.2)

end

/-! ## Fixed arguments -/

section Plain

variable {I : GroupTable → Prop} {F : Fault → Prop}

/-- A row of characters yields the characters. -/
lemma Pattern.keeps_plainText (stream : WordStream) {t : Pattern} {text : List Char}
    (h : t.plainText? = some text) :
    (t.samples stream).Keeps I (fun samples => (Sample.join samples).text.toList = text) F := by
  fun_induction Pattern.plainText? t generalizing text with
  | case1 =>
    cases h
    rw [Pattern.samples]
    exact keeps_pure rfl
  | case2 c rest ih =>
    obtain ⟨later, hlater, rfl⟩ := Option.map_eq_some_iff.1 h
    rw [Pattern.samples_seq]
    have hhere : ((Construct.character c).instances stream []).Keeps I
        (fun samples => samples = [.fixed c.toString]) F := by
      simp only [Construct.instances, Construct.prepare, extras, pure_bind]
      exact keeps_pure rfl
    refine hhere.bind fun here hh => (ih hlater).bind fun samples hs => keeps_pure ?_
    subst hh
    simpa [Sample.join, Sample.fixed, String.toList_join] using hs
  | case3 => cases h

/-- An argument that is a row of characters has these characters as its text. -/
lemma Argument.keeps_literal (stream : WordStream) (role : LiteralArgument) {a : Argument}
    {text : List Char} (h : a.body.plainText? = some text)
    (hF : ∀ cause : Cause, cause.kind ≠ .unknown → F (.within cause a.span)) :
    (a.literal stream role).Keeps I (fun s => s.toList = text) F := by
  cases a with
  | mk span body =>
    rw [Argument.literal]
    exact (Pattern.keeps_plainText stream h).bind fun samples hs =>
      keeps_ite (fun _ => keeps_throw (hF _ (by simp))) fun _ => keeps_pure hs

end Plain

/-! ## Runs -/

/-- The entropy of a sample lies between two numbers. -/
def Sample.Within (x y : ℝ) (s : Sample) : Prop := x ≤ s.entropy.exact ∧ s.entropy.exact ≤ y

/-- Samples one after the other, each between the same numbers. -/
lemma Sample.within_join {x y : ℝ} {samples : List Sample} (h : ∀ s ∈ samples, s.Within x y) :
    (Sample.join samples).Within (samples.length * x) (samples.length * y) := by
  rw [Sample.Within, exact_join]
  have hlength : (samples.map fun s => s.entropy.exact).length = samples.length :=
    List.length_map _
  constructor
  · have := List.card_nsmul_le_sum (samples.map fun s => s.entropy.exact) x
      (List.forall_mem_map.2 fun s hs => (h s hs).1)
    rwa [hlength, nsmul_eq_mul] at this
  · have := List.sum_le_card_nsmul (samples.map fun s => s.entropy.exact) y
      (List.forall_mem_map.2 fun s hs => (h s hs).2)
    rwa [hlength, nsmul_eq_mul] at this

section Repetition

variable {I : GroupTable → Prop} {F : Fault → Prop} {x y : ℝ} {action : Run Sample}

/-- A count that is drawn lies between its bounds. -/
lemma keeps_draw_between (stream : WordStream) {count : RepeatCount} (h : count.Valid) :
    (count.draw stream).Keeps I (fun n => count.low ≤ n ∧ n ≤ count.high) F := by
  have hle := h.low_le
  cases count with
  | exactly n => exact keeps_pure ⟨le_rfl, le_rfl⟩
  | between low high =>
    refine (keeps_choose stream _).bind fun extra _ => keeps_pure ?_
    have hextra := extra.isLt
    simp only [RepeatCount.low, RepeatCount.high] at hle ⊢
    omega

/-- Between `low` and `high` instances, less some instance of each. -/
lemma mul_between (less : Nat) {low high n : Nat} (hlow : low ≤ n) (hhigh : n ≤ high)
    (hless : less ≤ low) (hx : 0 ≤ x) (hy : 0 ≤ y) :
    (low - less) * x ≤ (n - less : Nat) * x ∧ (n - less : Nat) * y ≤ (high - less) * y := by
  have hlow' : (low : ℝ) ≤ n := Nat.cast_le.2 hlow
  have hhigh' : (n : ℝ) ≤ high := Nat.cast_le.2 hhigh
  rw [Nat.cast_sub (hless.trans hlow)]
  exact ⟨mul_le_mul_of_nonneg_right (by linarith) hx, mul_le_mul_of_nonneg_right (by linarith) hy⟩

/-- A repeated construct has the bits of as many instances as the count asks for. -/
lemma measured_repeated (stream : WordStream) {count : RepeatCount} (hcount : count.Valid)
    (hx : 0 ≤ x) (hy : 0 ≤ y) (h : action.Keeps I (Sample.Within x y) F) :
    (repeated stream count action).Keeps I (Sample.Within (count.low * x) (count.high * y)) F := by
  refine (keeps_draw_between stream hcount).bind fun n hn => (h.replay n).bind
    fun samples hs => keeps_pure ?_
  obtain ⟨hlow, hhigh⟩ := Sample.within_join hs.2
  obtain ⟨hlow', hhigh'⟩ := mul_between 0 hn.1 hn.2 (Nat.zero_le _) hx hy
  rw [hs.1] at hlow hhigh
  simp only [Nat.cast_zero, sub_zero, Nat.sub_zero] at hlow' hhigh'
  exact ⟨hlow'.trans hlow, hhigh.trans hhigh'⟩

/-- What repeat counts add to the entropy of a construct.

**Proof sketch.** By induction on the counts. The first count adds its own number of instances
less the one that is there. The later counts see a construct that the first count has multiplied. -/
lemma measured_extras (stream : WordStream) {counts : List RepeatCount}
    (hcounts : ∀ count ∈ counts, count.Valid) (hx : 0 ≤ x) (hy : 0 ≤ y)
    (h : action.Keeps I (Sample.Within x y) F) :
    (extras stream counts action).Keeps I
      (fun added => (Sample.join added).Within
        (((counts.map RepeatCount.low).prod : Nat) * x - x)
        (((counts.map RepeatCount.high).prod : Nat) * y - y)) F := by
  induction counts generalizing action x y with
  | nil => exact keeps_pure (by simp [Sample.Within, exact_join])
  | cons count later ih =>
    obtain ⟨hcount, hlater⟩ := List.forall_mem_cons.1 hcounts
    refine (keeps_draw_between stream hcount).bind fun n hn => (h.replay (n - 1)).bind
      fun samples hs => (ih hlater (mul_nonneg (Nat.cast_nonneg _) hx)
        (mul_nonneg (Nat.cast_nonneg _) hy) (measured_repeated stream hcount hx hy h)).bind
          fun more hmore => keeps_pure ?_
    have hfirst := Sample.within_join hs.2
    have hbounds := mul_between 1 hn.1 hn.2 hcount.low_pos hx hy
    rw [hs.1] at hfirst
    simp only [Sample.Within, exact_join, List.map_cons, List.sum_cons, List.prod_cons,
      Nat.cast_mul, Nat.cast_one] at hfirst hmore hbounds ⊢
    constructor
    · linarith [hfirst.1, hmore.1, hbounds.1]
    · linarith [hfirst.2, hmore.2, hbounds.2]

end Repetition

/-! ## Trees and their runs -/

/-- Preparing the construct yields an action whose entropy lies between the measures. -/
def Construct.IsMeasured (stream : WordStream) (c : Construct) : Prop :=
  (c.prepare stream).Keeps (fun _ => True)
    (fun action => action.Keeps (fun _ => True)
      (Sample.Within (c.measure RepeatCount.low) (c.measure RepeatCount.high)) fun _ => True)
    fun _ => True

/-- The instances of a construct have the bits of as many instances as the counts ask for. -/
lemma Construct.IsMeasured.instances {stream : WordStream} {c : Construct}
    (h : c.IsMeasured stream) {counts : List RepeatCount}
    (hcounts : ∀ count ∈ counts, count.Valid) :
    (c.instances stream counts).Keeps (fun _ => True)
      (fun samples => (Sample.join samples).Within
        (((counts.map RepeatCount.low).prod : Nat) * c.measure RepeatCount.low)
        (((counts.map RepeatCount.high).prod : Nat) * c.measure RepeatCount.high))
      fun _ => True := by
  refine h.bind fun action haction => haction.bind fun first hfirst =>
    (measured_extras stream hcounts (c.measure_nonneg _) (c.measure_nonneg _) haction).bind
      fun added hadded => keeps_pure ?_
  simp only [Sample.Within, exact_join, List.map_cons, List.sum_cons] at hfirst hadded ⊢
  constructor <;> linarith [hfirst.1, hfirst.2, hadded.1, hadded.2]

mutual

/-- The entropy of a run lies between the measures of the tree.

**Proof sketch.** By induction over the tree. The least of the branches of an alternation is not
below the least lower bound, since each of its values is the value of some branch, and it is not
above the upper bound of any branch, since each branch has a value among them. -/
theorem Pattern.measured_samples (stream : WordStream) :
    ∀ {t : Pattern}, t.PlainNumbers → t.CountsIn RepeatCount.Valid →
      (t.samples stream).Keeps (fun _ => True)
        (fun samples => (Sample.join samples).Within (t.measure RepeatCount.low)
          (t.measure RepeatCount.high))
        fun _ => True
  | .done, _, _ => by
    rw [Pattern.samples]
    exact keeps_pure (by simp [Sample.Within, exact_join, Pattern.measure])
  | .stop fault, _, _ => by
    rw [Pattern.samples]
    exact keeps_throw trivial
  | .seq head counts rest, ⟨hhead, hrest⟩, ⟨hheadCounts, hcounts, hrestCounts⟩ => by
    rw [Pattern.samples_seq]
    refine ((Construct.isMeasured stream hhead hheadCounts).instances hcounts).bind
      fun here hhere => (Pattern.measured_samples stream hrest hrestCounts).bind
        fun later hlater => keeps_pure ?_
    simp only [Sample.Within, exact_join, List.map_append, List.sum_append, Pattern.measure]
      at hhere hlater ⊢
    exact ⟨add_le_add hhere.1 hlater.1, add_le_add hhere.2 hlater.2⟩

/-- The entropy of each construct lies between its measures. -/
lemma Construct.isMeasured (stream : WordStream) :
    ∀ {c : Construct}, c.PlainNumbers → c.CountsIn RepeatCount.Valid → c.IsMeasured stream
  | .character c, _, _ => by
    rw [Construct.IsMeasured, Construct.prepare]
    exact keeps_pure (keeps_pure (by simp [Sample.Within, Sample.fixed, Construct.measure]))
  | .oneOf set, _, _ => by
    rw [Construct.IsMeasured, Construct.prepare]
    refine keeps_pure ((keeps_charSet_entropy stream set).imp fun s hs => ?_)
    rw [Sample.Within, hs, Construct.measure, Construct.measure, CharSet.ncard_contains]
    split
    · exact ⟨le_rfl, le_rfl⟩
    · rename_i hempty
      simp [Nat.eq_zero_of_not_pos hempty]
  | .reference span digits, _, _ => by
    rw [Construct.IsMeasured, Construct.prepare]
    intro p hp
    rw [ends_bind, ends_get]
    split
    · exact ⟨hp, keeps_pure (by simp [Sample.Within, Sample.fixed, Construct.measure])⟩
    · trivial
  | .group number body, hplain, hcounts => by
    rw [Construct.IsMeasured, Construct.prepare]
    exact keeps_pure ((Pattern.measured_samples (t := body) stream hplain hcounts).bind
      fun samples hs => (keeps_record _ _).bind fun _ _ => keeps_pure hs)
  | .alternation number branches, hplain, hcounts => by
    rw [Construct.IsMeasured, Construct.prepare_alternation]
    refine keeps_pure ((keeps_choose stream _).bind fun choice _ =>
      (Branches.measured_probeOthers stream hplain hcounts choice 0).bind fun others hothers =>
        (Branches.measured_chosen stream hplain hcounts choice).bind fun s hs =>
          (keeps_modify _).bind fun _ _ => (keeps_record _ _).bind fun _ _ => keeps_pure ?_)
    have hlow : branches.leastMeasure RepeatCount.low ≤
        Entropy.exactLeast s.entropy.exact others := Entropy.le_exactLeast.2 ⟨hs.1, hothers.1⟩
    have hhigh : Entropy.exactLeast s.entropy.exact others ≤
        branches.leastMeasure RepeatCount.high := by
      obtain ⟨hleft, hright⟩ := Entropy.exactLeast_le s.entropy.exact others
      rw [Branches.le_leastMeasure]
      intro body hbody
      obtain ⟨i, hi⟩ := List.mem_iff_getElem?.1 hbody
      by_cases hchoice : i = choice
      · exact hleft.trans (hs.2 body (hchoice ▸ hi))
      · obtain ⟨other, hother, hle⟩ := hothers.2 i body hi (by omega)
        exact (hright other hother).trans hle
    simp only [Sample.Within, Entropy.exact, Entropy.exactSum, Construct.measure, add_zero]
    exact ⟨add_le_add_right hlow _, add_le_add_right hhigh _⟩
  | .encode t argument, hplain, hcounts => by
    rw [Construct.IsMeasured, Construct.prepare]
    refine keeps_pure ((Argument.measured_sample (a := argument) stream hplain hcounts).bind
      fun s hs => (keeps_transformed t s fun _ _ => trivial).imp fun s' hs' => ?_)
    rwa [Sample.Within, hs']
  | .expand argument separator, hplain, hcounts => by
    rw [Construct.IsMeasured, Construct.prepare]
    refine (keeps_trivial _).bind fun sep _ =>
      keeps_pure ((Argument.measured_sample (a := argument) stream hplain hcounts.1).bind
        fun s hs => (keeps_transformed _ s fun _ _ => trivial).imp fun s' hs' => ?_)
    rwa [Sample.Within, hs']
  | .byte case, _, _ => by
    rw [Construct.IsMeasured, Construct.prepare]
    refine keeps_pure ((keeps_sampleByte stream case).imp fun s hs => ?_)
    rw [Sample.Within, hs, Entropy.exact_choice_256]
    exact ⟨le_rfl, le_rfl⟩
  | .words count, hplain, _ => by
    obtain ⟨text, htext⟩ := Option.isSome_iff_exists.1 hplain
    refine Construct.keeps_prepare_words
      (Argument.keeps_literal stream .wordCount htext fun _ _ => trivial) (fun _ _ => trivial)
      fun literal number hliteral hnumber _ => (keeps_sampleWords stream number).imp
        fun s hs => ?_
    have hcount : count.plainNumber? unsigned? = some number := by
      rw [Argument.plainNumber?, htext, Option.bind_some, ← hliteral, hnumber]
    have hwords : (Entropy.sum (List.replicate number (.choice 2048))).exact = 11 * number := by
      rw [Entropy.exact, Entropy.exactSum_eq, List.map_replicate, Entropy.exact_choice_2048,
        List.sum_replicate, nsmul_eq_mul, mul_comm]
    rw [Sample.Within, hs, Construct.measure, Construct.measure, hcount, Option.getD_some, hwords]
    exact ⟨le_rfl, le_rfl⟩
  | .date first last separator, ⟨hfirst, hlast⟩, _ => by
    obtain ⟨firstText, hfirst⟩ := Option.isSome_iff_exists.1 hfirst
    obtain ⟨lastText, hlast⟩ := Option.isSome_iff_exists.1 hlast
    refine Construct.keeps_prepare_date
      (Argument.keeps_literal stream .year hfirst fun _ _ => trivial)
      (Argument.keeps_literal stream .year hlast fun _ _ => trivial) (keeps_trivial _)
      (fun _ _ _ _ => trivial)
      fun text text' firstYear lastYear days sep htext htext' hfirstYear hlastYear hdays hday =>
        hday.imp fun s hs => ?_
    have hyears : dayCount first last = days + 1 := by
      rw [dayCount, Argument.plainNumber?, Argument.plainNumber?, hfirst, hlast,
        Option.bind_some, Option.bind_some, ← htext, ← htext', hfirstYear, hlastYear, hdays]
    rw [Sample.Within, hs, Construct.measure, Construct.measure, hyears, Entropy.exact]
    exact ⟨le_rfl, le_rfl⟩
  | .shuffle argument, hplain, hcounts => by
    rw [Construct.IsMeasured, Construct.prepare]
    refine keeps_pure ((Argument.measured_sample (a := argument) stream hplain hcounts).bind
      fun s hs => (keeps_shuffled stream s).imp fun s' hs' => ?_)
    rwa [Sample.Within, hs']
  | .optional argument, _, _ => by
    rw [Construct.IsMeasured, Construct.prepare]
    refine keeps_pure ((keeps_trivial _).bind
      fun s _ => (keeps_orNothing stream s).imp fun s' hs' => ?_)
    rw [Sample.Within, hs', Entropy.exact_choice_2]
    exact ⟨le_rfl, le_rfl⟩
  | .justify _ argument _ _, hplain, hcounts =>
    Construct.keeps_prepare_justify (keeps_trivial _) (keeps_trivial _)
      (fun _ _ _ _ => trivial) fun columns filling =>
        (Argument.measured_sample (a := argument) stream hplain hcounts.1).bind
          fun s hs => keeps_pure hs

/-- The entropy of an argument lies between its measures. -/
lemma Argument.measured_sample (stream : WordStream) :
    ∀ {a : Argument}, a.PlainNumbers → a.CountsIn RepeatCount.Valid →
      (a.sample stream).Keeps (fun _ => True)
        (Sample.Within (a.measure RepeatCount.low) (a.measure RepeatCount.high)) fun _ => True
  | .mk _ body, hplain, hcounts => by
    rw [Argument.sample]
    exact (Pattern.measured_samples (t := body) stream hplain hcounts).bind fun _ hs =>
      keeps_pure hs

/-- Each other branch has its entropy among those of the branches that are not chosen. -/
lemma Branches.measured_probeOthers (stream : WordStream) :
    ∀ {b : Branches}, b.PlainNumbers → b.CountsIn RepeatCount.Valid → ∀ choice place : Nat,
      (b.probeOthers stream choice place).Keeps (fun _ => True)
        (fun others => (∀ e ∈ others, b.leastMeasure RepeatCount.low ≤ e.exact) ∧
          ∀ i body, b.bodies[i]? = some body → place + i ≠ choice →
            ∃ e ∈ others, e.exact ≤ body.measure RepeatCount.high)
        fun _ => True
  | .one _ _ body, hplain, hcounts, choice, place => by
    rw [Branches.probeOthers]
    refine keeps_ite (fun hplace => keeps_pure ⟨by simp, fun i body' hi hne => ?_⟩) fun _ =>
      (Pattern.measured_samples (t := body) stream hplain hcounts).probe.bind
        fun samples hs => keeps_pure ⟨List.forall_mem_singleton.2 hs.1, fun i body' hi _ => ?_⟩
    · have hlt := (List.getElem?_eq_some_iff.1 hi).1
      simp only [Branches.bodies, List.length_singleton] at hlt
      omega
    · have hbody := List.mem_of_getElem? hi
      rw [Branches.bodies, List.mem_singleton] at hbody
      subst hbody
      exact ⟨_, List.mem_singleton_self _, hs.2⟩
  | .more _ _ body rest, hplain, hcounts, choice, place => by
    have hrest := Branches.measured_probeOthers stream hplain.2 hcounts.2 choice (place + 1)
    rw [Branches.probeOthers]
    refine keeps_ite (fun hplace => hrest.imp fun others hothers => ?_) fun hplace =>
      (Pattern.measured_samples stream hplain.1 hcounts.1).probe.bind fun samples hs =>
        hrest.bind fun others hothers => keeps_pure ?_
    · refine ⟨fun e he => (min_le_right _ _).trans (hothers.1 e he), fun i body' hi hne => ?_⟩
      cases i with
      | zero => exact absurd hplace hne
      | succ i => exact hothers.2 i body' hi (by omega)
    · refine ⟨List.forall_mem_cons.2 ⟨(min_le_left _ _).trans hs.1,
        fun e he => (min_le_right _ _).trans (hothers.1 e he)⟩, fun i body' hi hne => ?_⟩
      cases i with
      | zero =>
        cases hi
        exact ⟨_, List.mem_cons_self, hs.2⟩
      | succ i =>
        obtain ⟨e, he, hle⟩ := hothers.2 i body' hi (by omega)
        exact ⟨e, List.mem_cons_of_mem _ he, hle⟩

/-- The chosen branch has its own entropy. -/
lemma Branches.measured_chosen (stream : WordStream) :
    ∀ {b : Branches}, b.PlainNumbers → b.CountsIn RepeatCount.Valid → ∀ choice : Nat,
      (b.chosen stream choice).Keeps (fun _ => True)
        (fun s => b.leastMeasure RepeatCount.low ≤ s.entropy.exact ∧
          ∀ body, b.bodies[choice]? = some body →
            s.entropy.exact ≤ body.measure RepeatCount.high)
        fun _ => True
  | .one _ _ body, hplain, hcounts, choice => by
    rw [Branches.chosen]
    refine (Pattern.measured_samples (t := body) stream hplain hcounts).bind fun samples hs =>
      keeps_pure ⟨hs.1, fun body' hbody => ?_⟩
    have hmem := List.mem_of_getElem? hbody
    rw [Branches.bodies, List.mem_singleton] at hmem
    exact hmem ▸ hs.2
  | .more _ _ body rest, hplain, hcounts, 0 => by
    rw [Branches.chosen]
    refine (Pattern.measured_samples stream hplain.1 hcounts.1).bind fun samples hs =>
      keeps_pure ⟨(min_le_left _ _).trans hs.1, fun body' hbody => ?_⟩
    cases hbody
    exact hs.2
  | .more _ _ body rest, hplain, hcounts, choice + 1 => by
    rw [Branches.chosen]
    exact (Branches.measured_chosen stream hplain.2 hcounts.2 choice).imp fun s hs =>
      ⟨(min_le_right _ _).trans hs.1, hs.2⟩

end

/-! ## Whole patterns -/

/-- The entropy of a sample lies between the measures for the bounds of the counts. -/
lemma exact_between_measures {pattern : String}
    (hplain : (Pattern.ofText pattern.toList).PlainNumbers) {stream : WordStream} {position : Nat}
    {s : Sample} (hs : (generate stream position pattern).result = .ok s) :
    (Pattern.ofText pattern.toList).measure RepeatCount.low ≤ s.entropy.exact ∧
      s.entropy.exact ≤ (Pattern.ofText pattern.toList).measure RepeatCount.high := by
  obtain ⟨q, hrun⟩ := generate_eq_ok hs
  obtain ⟨samples, hsamples, rfl⟩ := ends_of_eq_ok (ends_sampleText_of_keeps
    (Pattern.measured_samples stream hplain (Pattern.countsIn_ofSlice 0 _)) _) hrun
  exact hsamples

/-- **Entropies lie between static measures.** Let the numbers of words and the years in a pattern
be rows of characters. Whatever the random words are, the entropy of a sample lies between the
measures of the pattern for the lower and for the upper bounds of its counts. If the bounds of each
count are the same, then all samples have the same entropy, whichever branches are chosen. -/
theorem entropy_between_measures {pattern : String}
    (hplain : (Pattern.ofText pattern.toList).PlainNumbers) :
    (∀ (stream : WordStream) (position : Nat) (s : Sample),
      (generate stream position pattern).result = .ok s →
        (Pattern.ofText pattern.toList).measure RepeatCount.low ≤ s.entropy.exact ∧
          s.entropy.exact ≤ (Pattern.ofText pattern.toList).measure RepeatCount.high) ∧
      ((Pattern.ofText pattern.toList).CountsIn (fun count => count.low = count.high) →
        ∀ (stream stream' : WordStream) (position position' : Nat) (s s' : Sample),
          (generate stream position pattern).result = .ok s →
            (generate stream' position' pattern).result = .ok s' →
              s.entropy.exact = s'.entropy.exact) := by
  refine ⟨fun stream position s hs => exact_between_measures hplain hs,
    fun hfixed stream stream' position position' s s' hs hs' => ?_⟩
  have hmeasure := Pattern.measure_congr hfixed
  obtain ⟨hlow, hhigh⟩ := exact_between_measures hplain hs
  obtain ⟨hlow', hhigh'⟩ := exact_between_measures hplain hs'
  rw [hmeasure] at hlow hlow'
  exact le_antisymm (hhigh.trans hlow') (hhigh'.trans hlow)

/-- A day of the year one or a letter that may be left out, once or twice. -/
theorem entropy_between_measures_of_day_or_letter :
    ∃ s, (generate (fun _ => 0) 0 "($date(1,1)|$?(b)){1,2}").result = .ok s ∧
      2 ≤ s.entropy.exact ∧ s.entropy.exact ≤ 4 := by
  have htree : Pattern.ofText "($date(1,1)|$?(b)){1,2}".toList =
      .seq (.alternation 1
        (.more 1 0 (.seq (.date ⟨⟨7, 1⟩, .seq (.character '1') [] .done⟩
            ⟨⟨9, 1⟩, .seq (.character '1') [] .done⟩ (.ofChar ⟨1, 10⟩ '-')) [] .done)
          (.one 1 0 (.seq (.optional ⟨⟨15, 1⟩, .seq (.character 'b') [] .done⟩) [] .done))))
        [.between 1 2] .done := by
    cbv
  have hplain : (Pattern.ofText "($date(1,1)|$?(b)){1,2}".toList).PlainNumbers := by
    rw [htree]
    exact ⟨⟨⟨⟨rfl, rfl⟩, trivial⟩, trivial, trivial⟩, trivial⟩
  have hrun : (generate (fun _ => 0) 0 "($date(1,1)|$?(b)){1,2}").result =
      .ok ⟨"0001-01-01", .sum [.sum [.choice 2, .least (.sum [.choice 365])
        [.sum [.choice 2]]], .sum []]⟩ := by
    cbv
  have hbounds := (entropy_between_measures hplain).1 _ _ _ hrun
  rw [htree] at hbounds
  have htwo : Entropy.choiceBits 2 = 1 := (Entropy.choiceBits_two_pow 1).trans Nat.cast_one
  have hyear : signed? ['1'] = some 1 := by decide
  have hdays : daysInYear 1 = 365 := by decide
  have hleast : min (Entropy.choiceBits 365) 1 = 1 :=
    min_eq_right ((Entropy.le_choiceBits_iff (by decide)).2 (by norm_num))
  refine ⟨_, hrun, ?_⟩
  norm_num [Pattern.measure, Construct.measure, Branches.leastMeasure, Branches.length, dayCount,
    Argument.plainNumber?, Argument.body, Pattern.plainText?, hyear, hdays, htwo, hleast,
    RepeatCount.low, RepeatCount.high] at hbounds
  exact hbounds

end PatternSampler
