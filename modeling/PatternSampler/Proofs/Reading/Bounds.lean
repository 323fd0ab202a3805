import PatternSampler.Proofs.Numeric.Numerals
import PatternSampler.Proofs.Run.Chained
import PatternSampler.Proofs.Run.Choices

set_option autoImplicit false

/-!
# The grammar of repeat counts

The text between the braces is a row of digits, or two of them with a comma between them. It is
accepted if the numbers are in order and within what may be asked for, however many digits they
have. Each number between the bounds is then drawn from some stream, and no other one is.

## Main definitions

* `IsDecimal` — a row of digits and the number that it denotes.
* `RepeatCount.Written` — a text and the count that it spells.

## Main results

* `decimal?_iff_isDecimal` — which texts read as a number.
* `RepeatCount.ofBounds_eq_ok_iff` — which texts read as one bound or two.
* `RepeatCount.ofText_accepts_written` — which texts read as a count, and what is drawn for it.
-/

namespace PatternSampler

/-! ## Rows of digits -/

/-- A row of digits, zeros in front included, and the number that it denotes in decimal. -/
inductive IsDecimal : List Char → Nat → Prop
  /-- A digit denotes its own value. -/
  | digit {digit : Nat} (h : digit < 10) : IsDecimal [Nat.digitChar digit] digit
  /-- A further digit makes the ones in front of it count ten times as much. -/
  | concat {front : List Char} {n digit : Nat} (hfront : IsDecimal front n) (h : digit < 10) :
      IsDecimal (front ++ [Nat.digitChar digit]) (10 * n + digit)

/-- A text reads as the number that it denotes. -/
theorem decimal?_iff_isDecimal {text : List Char} {n : Nat} :
    decimal? text = some n ↔ IsDecimal text n := by
  constructor
  · intro h
    induction text using List.reverseRecOn generalizing n with
    | nil => cases h
    | append_singleton front c ih =>
      have hlast : n % 10 < 10 := Nat.mod_lt n (by decide)
      obtain ⟨rfl, ⟨rfl, hlt⟩ | hfront⟩ := decimal?_concat_eq_some h
      · rw [Nat.mod_eq_of_lt hlt]
        exact .digit hlt
      · have hconcat := IsDecimal.concat (ih hfront) hlast
        rwa [Nat.div_add_mod] at hconcat
  · intro h
    induction h with
    | digit h => exact decimal?_digit h
    | concat _ h ih =>
      rw [decimal?_append ih (decimal?_digit h), List.length_singleton, pow_one, Nat.mul_comm]

/-- There is no comma in a row of digits. -/
lemma IsDecimal.comma_notMem {text : List Char} {n : Nat} (h : IsDecimal text n) : ',' ∉ text := by
  have hdigit : ∀ digit < 10, ',' ≠ Nat.digitChar digit := by decide
  induction h with
  | digit h => exact fun hmem => hdigit _ h (List.mem_singleton.1 hmem)
  | concat _ h ih =>
    intro hmem
    rcases List.mem_append.1 hmem with hfront | hlast
    · exact ih hfront
    · exact hdigit _ h (List.mem_singleton.1 hlast)

namespace RepeatCount

/-! ## Texts of counts -/

/-- A count is written as a number, or as two numbers with a comma between them. -/
inductive Written : List Char → RepeatCount → Prop
  /-- A fixed number of instances. -/
  | exactly {text : List Char} {n : Nat} (h : IsDecimal text n) : Written text (.exactly n)
  /-- A lower and an upper bound. -/
  | between {first second : List Char} {low high : Nat} (hlow : IsDecimal first low)
      (hhigh : IsDecimal second high) : Written (first ++ ',' :: second) (.between low high)

/-- A bound is accepted exactly if it is a decimal number that fits the machine. -/
lemma bound_eq_ok_iff {text : List Char} {n : Nat} :
    bound text = .ok n ↔ IsDecimal text n ∧ n < sizeLimit := by
  rw [bound, ← decimal?_iff_isDecimal]
  cases decimal? text with
  | none => simp
  | some m =>
    by_cases hm : m < sizeLimit
    · simp only [if_pos hm, Except.ok.injEq, Option.some.injEq]
      exact ⟨fun h => ⟨h, h ▸ hm⟩, fun h => h.1⟩
    · simp only [if_neg hm, Option.some.injEq]
      exact ⟨nofun, fun ⟨h, hn⟩ => absurd (h ▸ hn) hm⟩

/-- A text without a comma is a single bound. -/
lemma ofBounds_of_comma_notMem {text : List Char} (h : ',' ∉ text) :
    ofBounds text = (bound text).map exactly := by
  have hfirst : text.takeWhile (· != ',') = text :=
    List.takeWhile_eq_self_iff.2 fun c hc => by simpa using ne_of_mem_of_not_mem hc h
  rw [ofBounds, hfirst, List.drop_length]

/-- The first comma of a text stands between its bounds. -/
lemma ofBounds_append {first : List Char} (h : ',' ∉ first) (second : List Char) :
    ofBounds (first ++ ',' :: second) = do
      let low ← bound first
      let high ← bound second
      return between low high := by
  have hfirst : (first ++ ',' :: second).takeWhile (· != ',') = first := by
    rw [List.takeWhile_append_of_pos fun c hc => by simpa using ne_of_mem_of_not_mem hc h]
    simp
  rw [ofBounds, hfirst, List.drop_left]

/-- A text reads as bounds if it is written as a count with numbers that fit into a word.

**Proof sketch.** The first comma separates the bounds. A comma behind it would stand in the upper
bound, and there is none in a row of digits. -/
lemma ofBounds_eq_ok_iff {text : List Char} {count : RepeatCount} :
    ofBounds text = .ok count ↔
      Written text count ∧ count.low < sizeLimit ∧ count.high < sizeLimit := by
  constructor
  · intro h
    by_cases hcomma : ',' ∈ text
    · obtain ⟨first, second, rfl, hfirst⟩ := List.eq_append_cons_of_mem hcomma
      rw [ofBounds_append hfirst] at h
      cases hlow : bound first with
      | error cause =>
        rw [hlow] at h
        cases h
      | ok low =>
        cases hhigh : bound second with
        | error cause =>
          rw [hlow, hhigh] at h
          cases h
        | ok high =>
          rw [hlow, hhigh] at h
          cases h
          obtain ⟨hfirst, hlowLimit⟩ := bound_eq_ok_iff.1 hlow
          obtain ⟨hsecond, hhighLimit⟩ := bound_eq_ok_iff.1 hhigh
          exact ⟨.between hfirst hsecond, hlowLimit, hhighLimit⟩
    · rw [ofBounds_of_comma_notMem hcomma] at h
      cases hn : bound text with
      | error cause =>
        rw [hn] at h
        cases h
      | ok n =>
        rw [hn] at h
        cases h
        obtain ⟨htext, hlimit⟩ := bound_eq_ok_iff.1 hn
        exact ⟨.exactly htext, hlimit, hlimit⟩
  · rintro ⟨hwritten, hlow, hhigh⟩
    cases hwritten with
    | exactly h => rw [ofBounds_of_comma_notMem h.comma_notMem, bound_eq_ok_iff.2 ⟨h, hlow⟩]; rfl
    | between hfirst hsecond =>
      rw [ofBounds_append hfirst.comma_notMem, bound_eq_ok_iff.2 ⟨hfirst, hlow⟩,
        bound_eq_ok_iff.2 ⟨hsecond, hhigh⟩]
      rfl

/-- A text reads as a count if it is written as one that makes sense. -/
lemma ofText_eq_ok_iff {text : List Char} {count : RepeatCount} :
    ofText text = .ok count ↔ Written text count ∧ count.Valid := by
  constructor
  · intro h
    exact ⟨(ofBounds_eq_ok_iff.1 (ofBounds_of_ofText h)).1, valid_ofText h⟩
  · rintro ⟨hwritten, hlow, hle, hhigh⟩
    have hlimit : maxRepeat < sizeLimit := by decide
    have hbounds := ofBounds_eq_ok_iff.2 ⟨hwritten, by omega, by omega⟩
    rw [ofText, hbounds]
    simp only [bind, Except.bind]
    rw [if_neg (by omega), if_neg (by omega), if_neg (by omega)]
    rfl

/-! ## Draws -/

/-- Drawing for a count that makes sense yields a number between its bounds. -/
lemma Valid.exists_draw {count : RepeatCount} (h : count.Valid) (stream : WordStream)
    (progress : Progress) :
    ∃ n progress', count.draw stream progress = .ok n progress' ∧
      count.low ≤ n ∧ n ≤ count.high := by
  have hends :=
    keeps_draw_bounds (I := fun _ => True) (F := fun _ => False) stream h progress trivial
  cases hdraw : count.draw stream progress with
  | ok n progress' => exact ⟨n, progress', rfl, (Run.ends_of_eq_ok hends hdraw).2⟩
  | error fault progress' => exact (Run.ends_of_eq_error hends hdraw).elim

/-- Each number between the bounds of a count is drawn from some stream. -/
lemma Valid.exists_stream {count : RepeatCount} (h : count.Valid) {n : Nat} (hlow : count.low ≤ n)
    (hhigh : n ≤ count.high) (progress : Progress) :
    ∃ stream progress', count.draw stream progress = .ok n progress' := by
  cases count with
  | exactly m =>
    obtain rfl : n = m := Nat.le_antisymm hhigh hlow
    exact ⟨fun _ => 0, progress, rfl⟩
  | between low high =>
    have hsize : high - low + 1 < sizeLimit := by
      have hhigh : high ≤ maxRepeat := h.high_le
      have hlimit : maxRepeat + 1 < sizeLimit := by decide
      omega
    have hplace : n - low < high - low + 1 := by
      have hle : n ≤ high := hhigh
      have hge : low ≤ n := hlow
      omega
    obtain ⟨stream, hstream⟩ := exists_uniform_eq (le_chunkSize hsize) hplace progress.position
    have hn : low + (uniform stream (high - low + 1) progress.position).1 = n := by
      rw [hstream]
      exact Nat.add_sub_cancel' hlow
    exact ⟨stream, { progress with position := (uniform stream (high - low + 1)
      progress.position).2 }, congrArg (EStateM.Result.ok · _) hn⟩

/-- **Repeat counts are read exactly as written.** A text is accepted if it is a row of digits, or
two of them with a comma between them, and the numbers are in order, not zero and not above the
largest count. Every other text is rejected. What is drawn for an accepted count lies between its
bounds, and each number between them is drawn from some stream. -/
theorem ofText_accepts_written (text : List Char) :
    (∀ count, ofText text = .ok count ↔
      Written text count ∧ 1 ≤ count.low ∧ count.low ≤ count.high ∧ count.high ≤ 2 ^ 28) ∧
    ((∃ cause, ofText text = .error cause) ↔
      ∀ count, Written text count →
        ¬(1 ≤ count.low ∧ count.low ≤ count.high ∧ count.high ≤ 2 ^ 28)) ∧
    ∀ count, ofText text = .ok count → ∀ progress,
      (∀ stream, ∃ n progress', count.draw stream progress = .ok n progress' ∧
        count.low ≤ n ∧ n ≤ count.high) ∧
      ∀ n, count.low ≤ n → n ≤ count.high →
        ∃ stream progress', count.draw stream progress = .ok n progress' := by
  have haccepts : ∀ count, ofText text = .ok count ↔
      Written text count ∧ 1 ≤ count.low ∧ count.low ≤ count.high ∧ count.high ≤ 2 ^ 28 := by
    intro count
    rw [ofText_eq_ok_iff, and_congr_right_iff]
    exact fun _ => ⟨fun h => ⟨h.low_pos, h.low_le, h.high_le⟩, fun ⟨hpos, hle, hhigh⟩ =>
      ⟨hpos, hle, hhigh⟩⟩
  refine ⟨haccepts, ?_, ?_⟩
  · constructor
    · rintro ⟨cause, herror⟩ count hwritten hbounds
      rw [(haccepts count).2 ⟨hwritten, hbounds⟩] at herror
      cases herror
    · intro hnone
      cases htext : ofText text with
      | error cause => exact ⟨cause, rfl⟩
      | ok count =>
        obtain ⟨hwritten, hbounds⟩ := (haccepts count).1 htext
        exact absurd hbounds (hnone count hwritten)
  · intro count htext progress
    have hvalid := valid_ofText htext
    exact ⟨fun stream => hvalid.exists_draw stream progress,
      fun n hlow hhigh => hvalid.exists_stream hlow hhigh progress⟩

/-- Zeros in front do not matter, and a second comma is no digit of the upper bound. -/
example : ofText "007,12".toList = .ok (.between 7 12) ∧
    ofText "1,2,3".toList = .error (.invalidNumber "2,3") := by
  decide

end RepeatCount

end PatternSampler
