import PatternSampler.Proofs.CharSet.Members
import PatternSampler.Proofs.Guarded.Walk
import PatternSampler.Proofs.Numeric.Calendar

set_option autoImplicit false

/-!
# No random choice gets stuck

A choice is made among at least one value, the place that it yields lies in the row that it is made
for, and the sums and differences around it have results. So a guarded choice is the choice without
guards.

## Main results

* `Guarded.draw_eq`, `Guarded.member_eq`, `Guarded.words_eq`, `Guarded.day_eq` — the guards of
  random parts have no effect.
* `Guarded.days_eq` — there are days between two years in order.
* `Guarded.parts_eq` — a slice is cut at its separators.
-/

namespace PatternSampler

/-- The member at a place is the one in the row of members. -/
lemma CharSet.getElem?_toList (set : CharSet) (place : Fin set.size) :
    set.toList[place.val]? = some (set.get place) := by
  have hlist : set.toList = (ranks set.ranges).map ofRank := by
    rw [ranks, List.map_flatMap]
    rfl
  rw [hlist, List.getElem?_map, rankAt_eq _ _ place.isLt]
  rfl

namespace Guarded

variable {α β : Type}

/-! ## Actions without guards -/

/-- Yielding a result needs no guard. -/
@[simp] lemma ofRun_pure (x : α) : ofRun (pure x) = pure x := rfl

/-- A mistake is reported with and without guards. -/
@[simp] lemma ofRun_throw (fault : Fault) : ofRun (throw fault : Run α) = fail fault := rfl

/-- Actions without guards, one after the other. -/
@[simp] lemma ofRun_bind (a : Run α) (f : α → Run β) :
    ofRun (a >>= f) = ofRun a >>= fun x => ofRun (f x) := by
  funext ctx
  simp only [ofRun, bind, EStateM.bind]
  cases a ctx.ledger.progress <;> rfl

/-- A computation that ends well yields its result. -/
lemma ofScan_ok (x : α) : ofScan (.ok x) = pure x := rfl

/-! ## Choices -/

section Choices

variable (stream : WordStream)

/-- What follows a choice among at least one value. -/
lemma uniform_bind {n : Nat} (h : 0 < n) (f : Nat → Guarded β) :
    uniform stream n >>= f = ofRun (Run.choose stream n h) >>= fun i => f i.val := by
  rw [uniform, dif_pos h, bind_assoc]
  rfl

/-- What follows a difference of numbers in order. -/
lemma difference_bind {m n : Nat} (h : n ≤ m) (f : Nat → Guarded β) :
    ofScan (.difference m n) >>= f = f (m - n) := by
  rw [Scan.difference_of_le h]
  rfl

/-- What follows a number below its limit. -/
lemma below_bind {limit n : Nat} (h : n < limit) (f : Nat → Guarded β) :
    ofScan (.below limit n) >>= f = f n := by
  rw [Scan.below_of_lt h]
  rfl

/-- What follows an element of the row. -/
lemma item_bind {row : List α} {place : Nat} {x : α} (h : row[place]? = some x)
    (f : α → Guarded β) : ofScan (.item row place) >>= f = f x := by
  rw [Scan.item_of_getElem? h]
  rfl

/-- The number drawn for a repeat count lies between its bounds. -/
lemma draw_eq {count : RepeatCount} (h : count.Valid) :
    draw stream count = ofRun (count.draw stream) := by
  cases count with
  | exactly count => rfl
  | between low high =>
    obtain ⟨-, hle, hhigh⟩ := h
    simp only [RepeatCount.low, RepeatCount.high, maxRepeat] at hle hhigh
    rw [draw, RepeatCount.draw, difference_bind hle, below_bind (by unfold sizeLimit; omega),
      uniform_bind stream (Nat.succ_pos _), ofRun_bind]
    refine bind_congr fun i => ?_
    have hi := i.isLt
    have hsum : low + i.val < sizeLimit := by
      unfold sizeLimit
      omega
    rw [Scan.below_of_lt hsum]
    rfl

/-- The place drawn for a member lies in the set. -/
lemma member_eq (set : CharSet) : member stream set = ofRun (set.sample stream) := by
  unfold member CharSet.sample
  by_cases h : 0 < set.size
  · rw [if_neg (Nat.ne_of_gt h), dif_pos h, uniform_bind stream h, ofRun_bind]
    exact bind_congr fun place => item_bind (set.getElem?_toList place) _
  · rw [if_pos (Nat.eq_zero_of_not_pos h), dif_neg h]
    rfl

/-- The digits of a byte need no guard. -/
lemma byte_eq (case : LetterCase) : byte stream case = ofRun (sampleByte stream case) := by
  rw [byte, sampleByte, uniform_bind stream (by decide), ofRun_bind]
  rfl

/-- The place drawn for a word lies in the list of words. -/
lemma word_eq : word stream = ofRun (sampleWord stream) := by
  rw [word, sampleWord, uniform_bind stream (by rw [Mnemonic.length_wordList]; decide), ofRun_bind]
  refine bind_congr fun place => ?_
  rw [item_bind (List.getElem?_eq_getElem place.isLt)]
  rfl

/-- An action without guards needs none several times over. -/
lemma replay_ofRun (action : Run α) (count : Nat) :
    replay (ofRun action) count = ofRun (Run.replay count action) := by
  induction count with
  | zero => rfl
  | succ count ih => simp only [replay, ih, Run.replay_succ, ofRun_bind, ofRun_pure]

/-- The words drawn lie in the list of words. -/
lemma words_eq (count : Nat) : words stream count = ofRun (sampleWords stream count) := by
  rw [words, sampleWords, word_eq, replay_ofRun, ofRun_bind]
  rfl

/-- There is a day between the start of a year and the end of one that is not earlier. -/
lemma days_eq (span : Span) (first last : Int) :
    days span first last = ofRun (do return (← daysOf span first last) + 1) := by
  unfold days daysOf
  by_cases horder : last < first
  · rw [if_pos horder, if_pos horder]
    rfl
  by_cases hrange : first < Date.firstYear ∨ Date.lastYear < last
  · simp only [if_neg horder, if_pos hrange]
    rfl
  have hdays : 365 ≤ daysBefore (last + 1) - daysBefore first := by
    have hmono := daysBefore_mono (Int.not_lt.1 horder)
    have hsucc := daysBefore_succ last
    have hyear := le_daysInYear last
    omega
  have hlimit : daysBefore (last + 1) - daysBefore first < sizeLimit := by
    simp only [daysBefore, Date.firstYear, Date.lastYear, sizeLimit] at *
    omega
  have hswap : daysBefore (last + 1) - 1 - daysBefore first =
      daysBefore (last + 1) - daysBefore first - 1 := by omega
  simp only [if_neg horder, if_neg hrange, hswap]
  rw [if_neg (by omega), Scan.below_of_lt (by omega)]
  rfl

/-- A day drawn among at least one needs no guard. -/
lemma day_eq (first : Int) (days : Nat) (separator : String) :
    day stream first (days + 1) separator = ofRun (sampleDay stream first days separator) := by
  rw [day, sampleDay, uniform_bind stream (Nat.succ_pos _), ofRun_bind]
  refine bind_congr fun i => ?_
  dsimp only
  split <;> rfl

/-- The choice between a sample and nothing needs no guard. -/
lemma orNothing_eq (s : Sample) : orNothing stream s = ofRun (s.orNothing stream) := by
  rw [orNothing, Sample.orNothing, uniform_bind stream (by decide), ofRun_bind]
  rfl

end Choices

/-- What is left of the free places is not negative. -/
lemma justified_eq (alignment : Alignment) (width : Nat) (fill : Char) (s : Sample) :
    justified alignment width fill s = pure (s.justified alignment width fill) := by
  cases alignment with
  | left => exact difference_bind (Nat.zero_le _) _
  | right => exact difference_bind (Nat.le_refl _) _
  | center => exact difference_bind (Nat.div_le_self _ _) _

/-- A slice is cut at its separators, and what is not balanced in it stands where it does in the
text around it. -/
lemma parts_eq (separator : Char) (s : Slice) :
    parts separator s = ofScan (.ofExcept (splitParts separator s)) := by
  have hshift := splitParts_shift s.start separator (.whole s.text)
  have hs : (Slice.whole s.text).shift s.start = s := by
    simp [Slice.shift, Slice.whole]
  rw [hs] at hshift
  rw [parts, Scan.split_eq, hshift, splitParts]
  cases (Slice.whole s.text).split separator <;> rfl

end Guarded

end PatternSampler
