import PatternSampler.Proofs.Entropy.Exact
import PatternSampler.Proofs.Numeric.Dates
import PatternSampler.Proofs.Run.Choices

set_option autoImplicit false

/-!
# Generating dates

A call for a date draws one of the days from the start of one year to the end of another, and each
of them has a text of its own.

## Main definitions

* `DrawsDays` — what is promised of the samples of consecutive years.

## Main results

* `drawsDays` — the promises hold for all years of the calendar in order.
* `date_draws_each_day_once` — the calls that are accepted and what they draw.
-/

namespace PatternSampler

/-! ## Days -/

section Days

variable {first last : Int} {separator : String} {days : Nat}

/-- A day of the calendar is sampled by one draw. -/
lemma sampleDay_eq (h : daysBefore first + days < daysBefore (Date.lastYear + 1))
    (stream : WordStream) (separator : String) (p : Progress) :
    sampleDay stream first days separator p =
      .ok ⟨(Date.since first (uniform stream (days + 1) p.position).1).render separator,
          .choice (days + 1)⟩
        { p with position := (uniform stream (days + 1) p.position).2 } := by
  have hdrawn : (uniform stream (days + 1) p.position).1 < days + 1 :=
    uniform_lt stream p.position (Nat.succ_pos days)
  have hyear : (Date.since first (uniform stream (days + 1) p.position).1).year <
      Date.lastYear + 1 := Date.year_ofDayNumber_lt (by omega)
  simp only [sampleDay, Run.choose, bind, EStateM.bind]
  exact congrFun (if_neg (Int.not_lt.2 (Int.lt_add_one_iff.1 hyear))) _

/-- The samples of a day from the start of one year to the end of another, the last one of which
comes `days` days after the first one. -/
structure DrawsDays (first last : Int) (separator : String) (days : Nat) : Prop where
  /-- Each day belongs to one of the offsets. -/
  bijOn : Set.BijOn (Date.since first) (Set.Iio (days + 1))
    {d | d.IsDay ∧ first ≤ d.year ∧ d.year ≤ last}
  /-- Later offsets belong to later days. -/
  before : ∀ m n, m < n → (Date.since first m).Before (Date.since first n)
  first_eq : Date.since first 0 = ⟨first, 1, 1⟩
  last_eq : Date.since first days = ⟨last, 12, 31⟩
  /-- The day at the drawn offset is written. Sampling does not fail. -/
  sample_eq : ∀ (stream : WordStream) (p : Progress),
    sampleDay stream first days separator p =
      .ok ⟨(Date.since first (uniform stream (days + 1) p.position).1).render separator,
          .choice (days + 1)⟩
        { p with position := (uniform stream (days + 1) p.position).2 }
  /-- Different offsets lead to different texts. -/
  injOn : Set.InjOn (fun offset => (Date.since first offset).render separator) (Set.Iio (days + 1))
  /-- Each day can be drawn. -/
  ncard_texts : ∀ p : Progress,
    {text | ∃ stream s q, sampleDay stream first days separator p = .ok s q ∧ s.text = text}.ncard =
      days + 1
  /-- The entropy counts the days. -/
  two_rpow_exact : (2 : ℝ) ^ (Entropy.choice (days + 1)).exact = (days + 1 : Nat)

/-- The texts are those of all offsets. -/
lemma texts_sampleDay (h : daysBefore first + days < daysBefore (Date.lastYear + 1))
    (hdays : days + 1 < sizeLimit) (separator : String) (p : Progress) :
    {text | ∃ stream s q, sampleDay stream first days separator p = .ok s q ∧ s.text = text} =
      (fun offset => (Date.since first offset).render separator) '' Set.Iio (days + 1) := by
  ext text
  constructor
  · rintro ⟨stream, s, q, hs, rfl⟩
    rw [sampleDay_eq h] at hs
    cases hs
    exact ⟨_, uniform_lt stream p.position (Nat.succ_pos days), rfl⟩
  · rintro ⟨offset, hoffset, rfl⟩
    obtain ⟨stream, hstream⟩ := exists_uniform_eq (le_chunkSize hdays) hoffset p.position
    refine ⟨stream, _, _, sampleDay_eq h stream separator p, ?_⟩
    rw [hstream]

/-- The days of the years of the calendar fit into 64 bits. -/
lemma days_lt_sizeLimit (hfirst : Date.firstYear ≤ first) (hlast : last ≤ Date.lastYear)
    (hdays : daysBefore first + (days + 1 : Nat) = daysBefore (last + 1)) :
    days + 1 < sizeLimit := by
  have hlow := daysBefore_mono hfirst
  have hhigh := daysBefore_mono (Int.add_le_add_right hlast 1)
  have hall : daysBefore (Date.lastYear + 1) - daysBefore Date.firstYear < sizeLimit := by decide
  omega

/-- What is promised of the samples of years of the calendar in order. -/
theorem drawsDays (hfirst : Date.firstYear ≤ first) (hlast : last ≤ Date.lastYear)
    (hdays : daysBefore first + (days + 1 : Nat) = daysBefore (last + 1)) (separator : String) :
    DrawsDays first last separator days := by
  have hbij := Date.bijOn_since hdays
  have hinj : Set.InjOn (fun offset => (Date.since first offset).render separator)
      (Set.Iio (days + 1)) :=
    (Date.injOn_render separator).comp hbij.injOn fun offset hoffset => (hbij.mapsTo hoffset).1
  have hend : daysBefore first + days < daysBefore (Date.lastYear + 1) := by
    have := daysBefore_mono (Int.add_le_add_right hlast 1)
    omega
  exact {
    bijOn := hbij
    before := fun m n hmn => Date.before_ofDayNumber (by omega)
    first_eq := Date.since_zero first
    last_eq := Date.since_last hdays
    sample_eq := fun stream p => sampleDay_eq hend stream separator p
    injOn := hinj
    ncard_texts := fun p => by
      rw [texts_sampleDay hend (days_lt_sizeLimit hfirst hlast hdays), hinj.ncard_image,
        Set.ncard_Iio_nat]
    two_rpow_exact := by rw [Entropy.exact, Entropy.two_rpow_choiceBits (Nat.succ_pos days)] }

end Days

/-! ## Calls -/

/-- The number of days behind the first one, for years of the calendar in order. -/
lemma daysOf_of_le {first last : Int} (h : first ≤ last) (hfirst : Date.firstYear ≤ first)
    (hlast : last ≤ Date.lastYear) (span : Span) :
    ∃ days : Nat, daysOf span first last = pure days ∧
      daysBefore first + (days + 1 : Nat) = daysBefore (last + 1) := by
  have hmono := daysBefore_mono h
  have hsucc := daysBefore_succ last
  have hlength := le_daysInYear last
  refine ⟨(daysBefore (last + 1) - daysBefore first - 1).toNat, ?_, ?_⟩
  · rw [daysOf, if_neg (Int.not_lt.2 h), if_neg (by omega)]
  · omega

/-- Other years are a mistake. -/
lemma daysOf_of_not_le {first last : Int}
    (h : ¬(first ≤ last ∧ Date.firstYear ≤ first ∧ last ≤ Date.lastYear)) (span : Span) :
    ∃ cause, daysOf span first last = throw (.within cause span) ∧ cause.kind = .value := by
  unfold daysOf
  by_cases horder : last < first
  · exact ⟨_, if_pos horder, rfl⟩
  · rw [if_neg horder]
    exact ⟨_, if_pos (by omega), rfl⟩

section Calls

variable {stream : WordStream} {first last separator : Argument} {p q r : Progress}
  {firstText lastText : String} {firstYear lastYear : Int}

/-- A call whose years are settled goes on with the number of days and the separator. -/
lemma Construct.prepare_date (hfirst : first.literal stream .year p = .ok firstText q)
    (hfirstYear : signed? firstText.toList = some firstYear)
    (hlast : last.literal stream .year q = .ok lastText r)
    (hlastYear : signed? lastText.toList = some lastYear) :
    (Construct.date first last separator).prepare stream p = (do
      let days ← daysOf (first.span.upTo last.span) firstYear lastYear
      let text ← separator.literal stream .separator
      return sampleDay stream firstYear days text : Run (Run Sample)) r := by
  have hfirstNumber : numberOf signed? first.span firstText = pure firstYear := by
    rw [numberOf, hfirstYear]
  have hlastNumber : numberOf signed? last.span lastText = pure lastYear := by
    rw [numberOf, hlastYear]
  rw [Construct.prepare]
  simp only [bind, EStateM.bind, hfirst, hlast, hfirstNumber, hlastNumber, pure, EStateM.pure]

/-- A first year that is no numeral is reported where it stands, before anything else is read. -/
lemma Construct.prepare_date_of_first (hfirst : first.literal stream .year p = .ok firstText q)
    (hyear : signed? firstText.toList = none) :
    (Construct.date first last separator).prepare stream p =
      .error (.within (.invalidNumber firstText) first.span) q := by
  have hnumber : numberOf signed? first.span firstText =
      throw (.within (.invalidNumber firstText) first.span) := by
    rw [numberOf, hyear]
  rw [Construct.prepare]
  simp only [bind, EStateM.bind, hfirst, hnumber]
  rfl

/-- A last year that is no numeral is reported where it stands. -/
lemma Construct.prepare_date_of_last (hfirst : first.literal stream .year p = .ok firstText q)
    (hfirstYear : signed? firstText.toList = some firstYear)
    (hlast : last.literal stream .year q = .ok lastText r)
    (hyear : signed? lastText.toList = none) :
    (Construct.date first last separator).prepare stream p =
      .error (.within (.invalidNumber lastText) last.span) r := by
  have hfirstNumber : numberOf signed? first.span firstText = pure firstYear := by
    rw [numberOf, hfirstYear]
  have hnumber : numberOf signed? last.span lastText =
      throw (.within (.invalidNumber lastText) last.span) := by
    rw [numberOf, hyear]
  rw [Construct.prepare]
  simp only [bind, EStateM.bind, hfirst, hlast, hfirstNumber, hnumber, pure, EStateM.pure]
  rfl

/-- **Dates.** A call whose arguments spell two years of 32 bits is accepted if the years come in
order and are years of the calendar, as long as its separator is a text. Whatever this text is, the
call draws the days from the first day of the first year to the last day of the last one, in the
order of their offsets, and writes each of them differently. So there are as many texts as days, and
the entropy counts them. Other years are a mistake of a value, which marks both arguments.

An argument whose text is no numeral of 32 bits with a sign, for example because its number is too
large for them, is a mistake of a value as well. It marks this argument alone.

**Proof sketch.** The days of the years are those between two day numbers, and a day number is a day
(`Date.bijOn_since`). A written day has two characters each for the day and the month, so that it
can be taken apart from its end (`Date.injOn_render`). Each offset is drawn from some stream
(`exists_uniform_eq`), since the days of all years fit into 64 bits. -/
theorem date_draws_each_day_once (hfirst : first.literal stream .year p = .ok firstText q) :
    match signed? firstText.toList with
    | none => (Construct.date first last separator).prepare stream p =
        .error (.within (.invalidNumber firstText) first.span) q
    | some firstYear => ∀ lastText r, last.literal stream .year q = .ok lastText r →
      match signed? lastText.toList with
      | none => (Construct.date first last separator).prepare stream p =
          .error (.within (.invalidNumber lastText) last.span) r
      | some lastYear =>
        (firstYear ≤ lastYear ∧ -262143 ≤ firstYear ∧ lastYear ≤ 262142 →
          ∃ days, (∀ text, DrawsDays firstYear lastYear text days) ∧
            (Construct.date first last separator).prepare stream p =
              match separator.literal stream .separator r with
              | .ok text r => .ok (sampleDay stream firstYear days text) r
              | .error fault r => .error fault r) ∧
        (¬(firstYear ≤ lastYear ∧ -262143 ≤ firstYear ∧ lastYear ≤ 262142) →
          ∃ cause, cause.kind = .value ∧ (Construct.date first last separator).prepare stream p =
            .error (.within cause (first.span.upTo last.span)) r) := by
  cases hfirstYear : signed? firstText.toList with
  | none => exact Construct.prepare_date_of_first hfirst hfirstYear
  | some firstYear =>
    intro lastText r hlast
    cases hlastYear : signed? lastText.toList with
    | none => exact Construct.prepare_date_of_last hfirst hfirstYear hlast hlastYear
    | some lastYear =>
      dsimp only
      rw [Construct.prepare_date hfirst hfirstYear hlast hlastYear]
      constructor
      · rintro ⟨horder, hlow, hhigh⟩
        obtain ⟨days, hdays, hsum⟩ := daysOf_of_le horder hlow hhigh (first.span.upTo last.span)
        refine ⟨days, drawsDays hlow hhigh hsum, ?_⟩
        rw [hdays, pure_bind]
        simp only [bind, EStateM.bind]
        cases separator.literal stream .separator r <;> rfl
      · intro hnot
        obtain ⟨cause, hthrow, hkind⟩ := daysOf_of_not_le hnot (first.span.upTo last.span)
        refine ⟨cause, hkind, ?_⟩
        rw [hthrow]
        rfl

end Calls

/-- Five years around the year zero, of which the first one and the last one are leap years, with a
digit between the parts of a date. -/
theorem date_draws_each_day_once_leap_years :
    ∃ days, (∀ text, DrawsDays (-4) 0 text days) ∧
      (Construct.date
          ⟨⟨6, 2⟩, .seq (.character '-') [] (.seq (.character '4') [] .done)⟩
          ⟨⟨9, 1⟩, .seq (.character '0') [] .done⟩
          ⟨⟨11, 1⟩, .seq (.character '1') [] .done⟩).prepare (fun _ => 0) ⟨0, .empty⟩ =
        .ok (sampleDay (fun _ => 0) (-4) days "1") ⟨0, .empty⟩ := by
  have hfirst :
      (Argument.mk ⟨6, 2⟩ (.seq (.character '-') [] (.seq (.character '4') [] .done))).literal
        (fun _ => 0) .year ⟨0, .empty⟩ = .ok "-4" ⟨0, .empty⟩ := rfl
  have hlast : (Argument.mk ⟨9, 1⟩ (.seq (.character '0') [] .done)).literal
      (fun _ => 0) .year ⟨0, .empty⟩ = .ok "0" ⟨0, .empty⟩ := rfl
  exact (date_draws_each_day_once hfirst "0" ⟨0, .empty⟩ hlast).1 (by decide)

/-- A year that does not fit into 32 bits is far behind the years of the calendar. The mistake that
is reported for it marks the ten digits of this year, and not both years and the comma between them,
which are the twelve characters from position 6 on. -/
theorem date_marks_one_year :
    ∃ fault, (generate (fun _ => 0) 0 "$date(1,3000000000)").result = .error fault ∧
      fault.toError.kind = .value ∧
      decimal? "3000000000".toList = some 3000000000 ∧ 262142 < 3000000000 ∧
      (fault.toError.position, fault.toError.markLength) = (some 8, 10) ∧
      (fault.toError.position, fault.toError.markLength) ≠ (some 6, 12) := by
  have hrun : (generate (fun _ => 0) 0 "$date(1,3000000000)").result =
      .error (.located (.invalidNumber "3000000000") 8 10) := by cbv
  exact ⟨_, hrun, rfl, by decide, by decide, rfl, by decide⟩

end PatternSampler
