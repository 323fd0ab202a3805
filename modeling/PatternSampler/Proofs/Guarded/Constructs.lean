import PatternSampler.Proofs.Guarded.Meets

set_option autoImplicit false

/-!
# Guarded constructs do what they should

Each construct is taken apart by the rules for guarded actions. A token with an inner part of
`length` characters leaves room for as many groups, so the counter stays below the number of
characters in front of the next token.

## Main definitions

* `Guarded.PartMeets` — a part is evaluated as it should be.
* `Guarded.branchesFrom` — the branches with their numbers.
* `Guarded.LastMeets` — the construct generated last does what it should.

## Main results

* `Guarded.meets_alternate` — one of at least two branches.
* `Guarded.meets_prepare` — the construct of a token.
* `Guarded.meets_advance` — a token.
-/

namespace PatternSampler

namespace Guarded

open Run

/-! ## Mistakes that name no construct -/

section Unnamed

variable {s : Slice} (span : Span)

/-- A number that cannot be read names no construct. -/
lemma named_numberOf {α : Type} (read : List Char → Option α) (text : String) :
    (numberOf read span text).Keeps (fun _ => True) (fun _ => True) (·.NamedIn s) := by
  unfold numberOf
  split
  · exact keeps_pure trivial
  · exact keeps_throw trivial

/-- A number of words that is not allowed names no construct. -/
lemma named_wordCountOf (text : String) :
    (wordCountOf span text).Keeps (fun _ => True) (fun _ => True) (·.NamedIn s) :=
  (named_numberOf span unsigned? text).bind fun _ _ =>
    keeps_ite (fun _ => keeps_throw trivial) fun _ => keeps_pure trivial

/-- Years that are not allowed name no construct. -/
lemma named_daysOf (first last : Int) :
    (daysOf span first last).Keeps (fun _ => True) (fun _ => True) (·.NamedIn s) :=
  keeps_ite (fun _ => keeps_throw trivial) fun _ =>
    keeps_ite (fun _ => keeps_throw trivial) fun _ => keeps_pure trivial

/-- A fill that is no single character names no construct. -/
lemma named_fillOf (text : String) :
    (fillOf span text).Keeps (fun _ => True) (fun _ => True) (·.NamedIn s) := by
  unfold fillOf
  split
  · exact keeps_pure trivial
  · exact keeps_throw trivial

/-- A day outside the calendar names no construct. -/
lemma named_sampleDay (stream : WordStream) (first : Int) (days : Nat) (separator : String) :
    (sampleDay stream first days separator).Keeps (fun _ => True) (fun _ => True)
      (·.NamedIn s) :=
  (keeps_choose stream _).bind fun _ _ =>
    keeps_ite (fun _ => keeps_throw trivial) fun _ => keeps_pure trivial

variable {span}

/-- A transform that fails is named if its place is right. -/
lemma named_transformed {t : Transform}
    (h : ∀ cause, (Fault.within (.transform t cause) span).NamedIn s) (sample : Sample) :
    (sample.transformed t span).Keeps (fun _ => True) (fun _ => True) (·.NamedIn s) := by
  unfold Sample.transformed
  split
  · exact keeps_pure trivial
  · exact keeps_throw (h _)

/-- A separator can be put between any characters. -/
lemma named_transformed_expand (separator : String) (sample : Sample) :
    (sample.transformed (.expand separator) span).Keeps (fun _ => True) (fun _ => True)
      (·.NamedIn s) := by
  rw [Sample.transformed, Transform.apply]
  exact keeps_pure trivial

end Unnamed

section Parts

variable {pattern : List Char} {level : Level pattern} {low high : Nat}
  {stream : WordStream} {eval : Slice → Guarded (List Sample)} {weval : Slice → Walk (List Sample)}

/-! ## Parts -/

/-- A part is evaluated as it should be, wherever there is room for its groups. -/
def PartMeets (level : Level pattern) (eval : Slice → Guarded (List Sample))
    (weval : Slice → Walk (List Sample)) (part : Slice) : Prop :=
  ∀ low high, low + part.length ≤ high → high < numberLimit →
    Meets level low high (eval part) (weval part) Eq

/-- The sample of a part is what it should be. -/
lemma meets_sample {part : Slice} (h : PartMeets level eval weval part)
    (hroom : low + part.length ≤ high) (hlimit : high < numberLimit) :
    Meets level low high (sample eval part) (Walk.sample weval part) Eq :=
  (h low high hroom hlimit).bind_eq fun _ => meets_pure rfl (Nat.le_refl _)

/-- The text of a fixed argument is what it should be. -/
lemma meets_literal {part : Slice} (role : LiteralArgument) (h : PartMeets level eval weval part)
    (hroom : low + part.length ≤ high) (hlimit : high < numberLimit) :
    Meets level low high (literal eval role part) (Walk.literal weval role part) Eq := by
  refine (meets_sample h hroom hlimit).bind_eq fun s => ?_
  cases s.entropy.isPositive
  · exact meets_pure rfl (Nat.le_refl _)
  · exact meets_fail trivial

/-- The length of a part that may be missing. -/
def optionalLength (part : Option Slice) : Nat := (part.map Slice.length).getD 0

/-- The text of a fixed argument that may be missing is what it should be. -/
lemma meets_literalOr (role : LiteralArgument) (default : String) {part : Option Slice}
    (h : ∀ p ∈ part, PartMeets level eval weval p) (hroom : low + optionalLength part ≤ high)
    (hlimit : high < numberLimit) :
    Meets level low high (literalOr eval role default part)
      (Walk.literalOr weval role default part) Eq := by
  cases part with
  | none => exact meets_pure rfl hroom
  | some p => exact meets_literal role (h p rfl) hroom hlimit

/-- Cutting at separators. A slice that is not balanced is reported by both sides. -/
lemma meets_parts {γ δ : Type} {R : γ → δ → Prop} {separator : Char} {s : Slice}
    {f : List Slice → Guarded γ} {y : Walk δ} (hs : s.IsPart (.whole level.text))
    (herror : ∀ fault, splitParts separator s = .error fault → y = throw fault)
    (hok : ∀ slices, splitParts separator s = .ok slices → Meets level low high (f slices) y R) :
    Meets level low high (parts separator s >>= f) y R := by
  rw [parts_eq]
  cases hsplit : splitParts separator s with
  | error fault =>
    rw [herror fault hsplit]
    exact meets_fail ((namedIn_of_splitParts hsplit).mono hs)
  | ok slices => exact hok slices hsplit

/-! ## Branches -/

/-- The branches with the numbers of their groups, of which the first one follows on `first`. -/
def branchesFrom (first : Nat) : List Slice → List Branch
  | [] => []
  | part :: parts =>
    ⟨part, first, countGroups part.text⟩ :: branchesFrom (first + countGroups part.text) parts

/-- The numbers of branches are those that the counter gives, as long as they fit. -/
lemma numbered_eq {first : Nat} {parts : List Slice} (h : first + roomOf parts < numberLimit) :
    numbered first parts = pure (branchesFrom first parts) := by
  induction parts generalizing first with
  | nil => rfl
  | cons part parts ih =>
    have hcount := countGroups_le part.text
    simp only [roomOf_cons, Slice.length] at h
    rw [numbered, number_bind (by omega), number_bind (by omega), ih (by omega)]
    rfl

/-- The branches have the groups of their parts. -/
lemma map_count_branchesFrom (first : Nat) (parts : List Slice) :
    (branchesFrom first parts).map Branch.count = parts.map fun part => countGroups part.text := by
  induction parts generalizing first with
  | nil => rfl
  | cons part parts ih => rw [branchesFrom, List.map_cons, List.map_cons, ih]

/-- The groups of parts and the separators behind them have room in the parts. -/
lemma sum_countGroups_le (parts : List Slice) :
    (parts.map fun part => countGroups part.text).sum + parts.length ≤ roomOf parts := by
  induction parts with
  | nil => exact Nat.le_refl 0
  | cons part parts ih =>
    have hcount := countGroups_le part.text
    simp only [List.map_cons, List.sum_cons, List.length_cons, roomOf_cons, Slice.length]
    omega

/-- The branches that are not chosen are generated in copies of the context. -/
lemma meets_probeOthers {parts : List Slice} {first : Nat}
    (h : ∀ part ∈ parts, PartMeets level eval weval part) (hroom : first + roomOf parts ≤ high + 1)
    (hlimit : high < numberLimit) (choice place : Nat) :
    Meets level low low (probeOthers eval choice place (branchesFrom first parts))
      (Walk.probeParts weval choice place first parts) Eq := by
  induction parts generalizing first place with
  | nil => exact meets_pure rfl (Nat.le_refl _)
  | cons part parts ih =>
    obtain ⟨hpart, hparts⟩ := List.forall_mem_cons.1 h
    have hcount := countGroups_le part.text
    simp only [roomOf_cons, Slice.length] at hroom
    have hlater := @ih (first + countGroups part.text) hparts (by omega) (place + 1)
    rw [branchesFrom, probeOthers, Walk.probeParts]
    split
    · exact hlater
    · have hprobed := hpart first high (by simp only [Slice.length]; omega) hlimit
      exact (meets_probe hprobed).bind_eq fun samples => hlater.bind_eq fun entropies =>
        meets_pure rfl (Nat.le_refl _)

/-- The branch at a place, with the number of the group in front of it. -/
lemma exists_branch (weval : Slice → Walk (List Sample)) {parts : List Slice} (first : Nat)
    {choice : Nat} (h : choice < parts.length) :
    ∃ branch, (branchesFrom first parts)[choice]? = some branch ∧ branch.part ∈ parts ∧
      branch.first + branch.part.length + 1 ≤ first + roomOf parts ∧
      Walk.choosePart weval choice first parts = (do
        Walk.setOpened branch.first
        return .join (← weval branch.part)) := by
  induction parts generalizing first choice with
  | nil => exact absurd h (Nat.not_lt_zero _)
  | cons part parts ih =>
    have hcount := countGroups_le part.text
    simp only [roomOf_cons, Slice.length] at *
    cases choice with
    | zero => exact ⟨⟨part, first, _⟩, rfl, List.mem_cons_self, by dsimp only; omega, rfl⟩
    | succ choice =>
      obtain ⟨branch, hbranch, hmem, hroom, hchosen⟩ :=
        ih (first + countGroups part.text) (Nat.lt_of_succ_lt_succ h)
      exact ⟨branch, hbranch, List.mem_cons_of_mem _ hmem, by omega, hchosen⟩

/-- The texts of consecutive groups are made empty one after the other. -/
lemma clearBetween_eq (before count : Nat) (groups : GroupTable) :
    clearBetween (before + 1) (before + count) groups = groups.clear before count := by
  have hlength : before + count + 1 - (before + 1) = count := by omega
  rw [clearBetween, hlength]
  induction count generalizing before groups with
  | zero => rfl
  | succ count ih =>
    rw [List.range'_succ, List.foldl_cons, ih (before + 1) _ (by omega), GroupTable.clear]

/-- The numbers of the groups in other branches are numbers of groups. -/
lemma clearOthers_eq {parts : List Slice} {first : Nat}
    (h : first + roomOf parts < numberLimit) (choice place : Nat) :
    clearOthers choice place (branchesFrom first parts) = ofRun (modify fun p =>
      { p with groups := Walk.clearParts choice place first parts p.groups }) := by
  induction parts generalizing first place with
  | nil => rfl
  | cons part parts ih =>
    have hcount := countGroups_le part.text
    simp only [roomOf_cons, Slice.length] at h
    have hlater := @ih (first + countGroups part.text) (by omega) (place + 1)
    simp only [branchesFrom, clearOthers, Walk.clearParts, hlater]
    split
    · rfl
    · rw [number_bind (by omega), number_bind (by omega)]
      simp only [clearBetween_eq]
      rfl

/-- One of at least two branches. The branches together have room for all their groups. -/
lemma meets_alternate {first second : Slice} {others : List Slice}
    (h : ∀ part ∈ first :: second :: others, PartMeets level eval weval part)
    (hroom : low + roomOf (first :: second :: others) ≤ high + 1)
    (hlimit : high + 1 < numberLimit) :
    Meets level low high (alternate stream eval (first :: second :: others))
      (Walk.alternate stream weval first (second :: others)) Eq := by
  have hsum := sum_countGroups_le (first :: second :: others)
  have hlength : ¬(first :: second :: others).length < 2 := by simp
  have hpos : 0 < (first :: second :: others).length := Nat.succ_pos _
  rw [alternate, if_neg hlength]
  refine meets_opened.bind ?_
  rintro base _ ⟨rfl, hbase⟩
  rw [numbered_eq (by omega), pure_bind, uniform_bind stream hpos]
  refine (meets_ofRun (keeps_choose stream hpos) (Nat.le_refl _)).bind_eq fun choice => ?_
  have hbaseRoom : base + roomOf (first :: second :: others) ≤ high + 1 := by omega
  refine (meets_probeOthers h hbaseRoom (by omega) choice 0).bind_eq fun entropies => ?_
  obtain ⟨branch, hbranch, hmem, hbranchRoom, hchosen⟩ :=
    exists_branch weval base choice.isLt
  have heval := h branch.part hmem branch.first high (by omega) (by omega)
  rw [item_bind hbranch, hchosen, bind_assoc]
  refine (meets_setOpened (Nat.le_refl _)).bind_eq fun _ => ?_
  rw [bind_assoc]
  refine heval.bind_eq fun samples => ?_
  rw [pure_bind, clearOthers_eq (by omega)]
  refine (meets_ofRun (keeps_modify _) (Nat.le_refl _)).bind_eq fun _ => ?_
  rw [map_count_branchesFrom, number_bind (by omega), number_bind (by omega)]
  exact (meets_setOpened (by omega)).bind_eq fun _ => meets_pure rfl (Nat.le_refl _)

/-- The group with a number, around a body. -/
lemma meets_group {number : Nat} {body : Guarded Sample} {wbody : Walk Sample}
    (h : Meets level number high body wbody Eq) (hle : low ≤ high) :
    Meets level low high (group number body) (Walk.group number wbody) Eq := by
  refine meets_opened.bind ?_
  rintro resume _ ⟨rfl, hresume⟩
  refine (meets_setOpened (Nat.le_refl _)).bind_eq fun _ => h.bind_eq fun s => ?_
  refine meets_opened.bind ?_
  rintro n _ ⟨rfl, hn⟩
  refine (meets_setOpened (Nat.max_le.2 ⟨Nat.le_trans hresume hle, hn⟩)).bind_eq fun _ => ?_
  exact (meets_ofRun (keeps_record number s.text) (Nat.le_refl _)).bind_eq fun _ =>
    meets_pure rfl (Nat.le_refl _)

/-! ## Constructs -/

/-- The action for a construct does what it should from where the construct was read on. -/
def ActionMeets (level : Level pattern) (low high : Nat) (x : Guarded Sample) (y : Walk Sample) :
    Prop := Meets level low high x y Eq

/-- The years and the separator of a date are settled as they should be. -/
lemma meets_prepareDate {first last : Slice} {separator : Option Slice}
    (hfirst : PartMeets level eval weval first) (hlast : PartMeets level eval weval last)
    (hseparator : ∀ part ∈ separator, PartMeets level eval weval part)
    (hspan : first.start ≤ last.stop)
    (hroom : low + first.length + last.length + optionalLength separator ≤ high)
    (hlimit : high < numberLimit) :
    Meets level low high (prepareDate stream eval first last separator)
      (Walk.prepareDate stream weval first last separator) (ActionMeets level low high) := by
  have hle : low ≤ high := by omega
  refine (meets_literal .year hfirst (Nat.le_refl _) (by omega)).bind_eq fun firstText => ?_
  refine (meets_ofRun (named_numberOf _ _ _) (Nat.le_refl _)).bind_eq fun firstYear => ?_
  refine (meets_literal .year hlast (Nat.le_refl _) (by omega)).bind_eq fun lastText => ?_
  refine (meets_ofRun (named_numberOf _ _ _) (Nat.le_refl _)).bind_eq fun lastYear => ?_
  rw [difference_bind hspan, days_eq, ofRun_bind, bind_assoc]
  refine (meets_ofRun (named_daysOf _ _ _) (Nat.le_refl _)).bind_eq fun days => ?_
  simp only [ofRun_pure, pure_bind]
  refine (meets_literalOr .separator "-" hseparator hroom hlimit).bind_eq fun separator => ?_
  refine meets_pure ?_ (Nat.le_refl _)
  rw [day_eq]
  exact meets_ofRun (named_sampleDay stream _ _ _) hle

/-- The width and the fill of a justified part are settled as they should be. -/
lemma meets_prepareJustify (alignment : Alignment) {argument width : Slice} {fill : Option Slice}
    (span : Span) (hargument : PartMeets level eval weval argument)
    (hwidth : PartMeets level eval weval width)
    (hfill : ∀ part ∈ fill, PartMeets level eval weval part)
    (hroom : low + argument.length + width.length + optionalLength fill ≤ high)
    (hlimit : high < numberLimit) :
    Meets level low high (prepareJustify eval alignment argument width fill span)
      (Walk.prepareJustify weval alignment argument width fill span)
      (ActionMeets level low high) := by
  refine (meets_reserve (Nat.le_refl _) (by omega)).bind_eq fun _ => ?_
  refine (meets_literal .width hwidth (Nat.le_refl _) (by omega)).bind_eq fun text => ?_
  refine (meets_ofRun (named_numberOf _ _ _) (Nat.le_refl _)).bind_eq fun columns => ?_
  refine (meets_literalOr .fill " " hfill hroom hlimit).bind_eq fun text => ?_
  refine (meets_ofRun (named_fillOf _ _) (Nat.le_refl _)).bind_eq fun filling => ?_
  by_cases hlarge : maxRepeat < columns
  · simp only [if_pos hlarge]
    exact meets_fail trivial
  · simp only [if_neg hlarge]
    refine meets_pure ?_ (Nat.le_refl _)
    refine (meets_sample hargument (by omega) hlimit).bind_eq fun s => ?_
    rw [justified_eq]
    exact meets_pure rfl (Nat.le_refl _)

/-- The first part between separators does not start behind the end of another one. -/
lemma start_le_stop_of_splitParts {separator : Char} {s first second : Slice} {later : List Slice}
    (h : splitParts separator s = .ok (first :: second :: later)) : first.start ≤ second.stop := by
  have hsecond : second.IsPart s := isPart_of_mem_splitParts h (by simp)
  have hfirst : first.start = s.start := by
    unfold splitParts Slice.split at h
    split at h <;> cases h
    rename_i hsplit
    split at hsplit <;> cases hsplit
    rfl
  have hstop := second.start_le_stop
  have hstart := hsecond.start_le
  omega

/-- The call of a function. -/
lemma meets_prepareCall {f : Builtin} {arguments : Slice} (span : Span)
    (hinside : arguments.IsPart (.whole level.text))
    (h : ∀ part : Slice, part.IsPart arguments → PartMeets level eval weval part)
    (htransform : ∀ t, f = .encode t → ∀ cause,
      (Fault.within (.transform t cause) arguments.span).NamedIn (.whole level.text))
    (hroom : low + arguments.length + 1 ≤ high) (hlimit : high < numberLimit) :
    Meets level low high (prepareCall stream eval span f arguments)
      (Walk.prepareCall stream weval span f arguments) (ActionMeets level low high) := by
  have hle : low ≤ high := by omega
  have hall : Meets level low high (sample eval arguments) (Walk.sample weval arguments) Eq :=
    meets_sample (h arguments (.refl _)) (by omega) hlimit
  have hpart : ∀ {parts : List Slice}, splitParts ',' arguments = .ok parts →
      ∀ part ∈ parts, PartMeets level eval weval part := fun hsplit part hmem =>
    h part (isPart_of_mem_splitParts hsplit hmem)
  cases f with
  | encode t =>
    exact meets_pure (hall.bind_eq fun s =>
      meets_ofRun (named_transformed (htransform t rfl) s) (Nat.le_refl _)) hle
  | shuffle =>
    refine meets_pure (hall.bind_eq fun s => ?_) hle
    exact meets_ofRun ((keeps_shuffled stream s).imp fun _ _ => trivial) (Nat.le_refl _)
  | optional =>
    refine meets_pure (hall.bind_eq fun s => ?_) hle
    rw [orNothing_eq]
    exact meets_ofRun ((keeps_orNothing stream s).imp fun _ _ => trivial) (Nat.le_refl _)
  | byte case =>
    rw [prepareCall, Walk.prepareCall]
    split
    · refine meets_pure ?_ hle
      rw [byte_eq]
      exact meets_ofRun ((keeps_sampleByte stream case).imp fun _ _ => trivial) hle
    · exact meets_fail trivial
  | words =>
    have hwords (count : Nat) :
        ActionMeets level low high (words stream count) (Walk.lift (sampleWords stream count)) := by
      rw [words_eq]
      exact meets_ofRun ((keeps_sampleWords stream count).imp fun _ _ => trivial) hle
    rw [prepareCall, Walk.prepareCall]
    split
    · exact meets_pure (hwords 1) hle
    · refine (meets_literal .wordCount (h arguments (.refl _)) (Nat.le_refl _)
        (by omega)).bind_eq fun text => ?_
      exact (meets_ofRun (named_wordCountOf _ _) (Nat.le_refl _)).bind_eq fun count =>
        meets_pure (hwords count) (by omega)
  | expand =>
    refine meets_parts hinside (fun fault h => by rw [Walk.prepareCall, h]) fun parts hsplit => ?_
    have hlength := roomOf_splitParts hsplit
    rw [Walk.prepareCall, hsplit]
    rcases parts with _ | ⟨first, _ | ⟨second, _ | ⟨third, rest⟩⟩⟩
    case cons.cons.nil =>
      simp only [roomOf_cons, roomOf_nil] at hlength
      refine (meets_reserve (Nat.le_refl _) (by omega)).bind_eq fun _ => ?_
      refine (meets_literal .separator (hpart hsplit second (by simp)) (Nat.le_refl _)
        (by omega)).bind_eq fun separator => meets_pure ?_ (by omega)
      exact (meets_sample (hpart hsplit first (by simp)) (by omega) hlimit).bind_eq fun s =>
        meets_ofRun (named_transformed_expand separator s) (Nat.le_refl _)
    all_goals exact meets_fail trivial
  | date =>
    refine meets_parts hinside (fun fault h => by rw [Walk.prepareCall, h]) fun parts hsplit => ?_
    have hlength := roomOf_splitParts hsplit
    rw [Walk.prepareCall, hsplit]
    rcases parts with _ | ⟨first, _ | ⟨second, _ | ⟨third, _ | ⟨fourth, rest⟩⟩⟩⟩
    case cons.cons.nil =>
      simp only [roomOf_cons, roomOf_nil] at hlength
      exact meets_prepareDate (hpart hsplit first (by simp)) (hpart hsplit second (by simp))
        (by simp) (start_le_stop_of_splitParts hsplit) (by simp [optionalLength]; omega) hlimit
    case cons.cons.cons.nil =>
      simp only [roomOf_cons, roomOf_nil] at hlength
      exact meets_prepareDate (hpart hsplit first (by simp)) (hpart hsplit second (by simp))
        (by simpa using hpart hsplit third (by simp)) (start_le_stop_of_splitParts hsplit)
        (by simp [optionalLength]; omega) hlimit
    all_goals exact meets_fail trivial
  | justify alignment =>
    refine meets_parts hinside (fun fault h => by rw [Walk.prepareCall, h]) fun parts hsplit => ?_
    have hlength := roomOf_splitParts hsplit
    rw [Walk.prepareCall, hsplit]
    rcases parts with _ | ⟨first, _ | ⟨second, _ | ⟨third, _ | ⟨fourth, rest⟩⟩⟩⟩
    case cons.cons.nil =>
      simp only [roomOf_cons, roomOf_nil] at hlength
      exact meets_prepareJustify alignment span (hpart hsplit first (by simp))
        (hpart hsplit second (by simp)) (by simp) (by simp [optionalLength]; omega) hlimit
    case cons.cons.cons.nil =>
      simp only [roomOf_cons, roomOf_nil] at hlength
      exact meets_prepareJustify alignment span (hpart hsplit first (by simp))
        (hpart hsplit second (by simp)) (by simpa using hpart hsplit third (by simp))
        (by simp [optionalLength]; omega) hlimit
    all_goals exact meets_fail trivial

/-- The construct of a token at the front of a slice. -/
lemma meets_prepare {s rest : Slice} {t : Token} (hs : s.IsPart (.whole level.text))
    (hnext : Token.next s = .ok (some (t, rest)))
    (h : ∀ inner part : Slice, t.inner? = some inner → part.IsPart inner →
      PartMeets level eval weval part)
    (hroom : low + (rest.start - s.start) ≤ high) (hlimit : high < numberLimit) :
    Meets level low high (prepare stream eval ⟨s.start, rest.start - s.start⟩ t)
      (Walk.prepare stream weval ⟨s.start, rest.start - s.start⟩ t)
      (ActionMeets level low high) := by
  have hle : low ≤ high := by omega
  cases t with
  | character c => exact meets_pure (meets_pure rfl hle) hle
  | oneOf set =>
    refine meets_pure ?_ hle
    rw [member_eq]
    exact meets_ofRun ((keeps_charSet_sample stream set).imp fun _ _ => trivial) hle
  | reference digits =>
    refine (meets_get.mono (Nat.le_refl _) hle).bind ?_
    rintro ctx _ rfl
    cases (decimal? digits).bind ctx.ledger.progress.groups.text? with
    | some text => exact meets_pure (meets_pure rfl hle) (Nat.le_refl _)
    | none => exact meets_fail ((Fault.namedIn_reference hnext).mono hs)
  | repetition count => exact meets_fail trivial
  | group body =>
    obtain ⟨hbody, hfront, hback⟩ := Token.inner_isPart hnext rfl
    have hlength : body.stop = body.start + body.length := rfl
    refine (meets_openGroup (by omega)).bind ?_
    rintro number _ ⟨rfl, hnumber⟩
    refine meets_parts (hbody.trans hs) (fun fault h => by rw [h]) fun parts hsplit => ?_
    have hroomOf := roomOf_splitParts hsplit
    rw [hsplit]
    rcases parts with _ | ⟨first, _ | ⟨second, others⟩⟩
    · simp only [roomOf_nil] at hroomOf
      omega
    · refine meets_pure (meets_group ?_ hle) (by omega)
      exact meets_sample (h body body rfl (.refl _)) (by omega) hlimit
    · have halternate : Meets level number (number + body.length)
          (alternate stream eval (first :: second :: others))
          (Walk.alternate stream weval first (second :: others)) Eq :=
        meets_alternate
          (fun part hmem => h body part rfl (isPart_of_mem_splitParts hsplit hmem))
          (by omega) (by omega)
      exact meets_pure (meets_group (halternate.mono (Nat.le_refl _) (by omega)) hle) (by omega)
  | call f arguments =>
    obtain ⟨hinside, hfront, hback⟩ := Token.inner_isPart hnext rfl
    have hlength : arguments.stop = arguments.start + arguments.length := rfl
    refine meets_prepareCall _ (hinside.trans hs) (h arguments · rfl) ?_ (by omega) hlimit
    rintro t rfl cause
    exact (Fault.namedIn_transform hnext cause).mono hs

/-! ## Tokens -/

/-- The construct generated last does what it should from where it was read on. -/
structure LastMeets (level : Level pattern) (high : Nat) (last : Last) (wlast : Walk.Last) :
    Prop where
  base_eq : last.base = wlast.base
  product_eq : last.product = wlast.product
  base_le : wlast.base ≤ high
  action : Meets level wlast.base high last.action wlast.action Eq

/-- Where more groups may be opened, the construct generated last still does what it should. -/
lemma LastMeets.mono {last : Last} {wlast : Walk.Last} (h : LastMeets level low last wlast)
    (hle : low ≤ high) : LastMeets level high last wlast :=
  ⟨h.base_eq, h.product_eq, Nat.le_trans h.base_le hle, h.action.mono (Nat.le_refl _) hle⟩

/-- Further instances of the construct generated last. -/
lemma LastMeets.replay {last : Last} {wlast : Walk.Last} (h : LastMeets level high last wlast)
    (count : Nat) :
    Meets level high high (replay (rewound last.base last.action) count)
      (Walk.replay (Walk.rewound wlast.base wlast.action) count) Eq := by
  rw [h.base_eq]
  exact meets_replay (meets_rewound h.action (Nat.le_refl _)) count

/-- A number of instances is drawn as it should be. -/
lemma meets_draw {count : RepeatCount} (h : count.Valid) (hle : low ≤ high) :
    Meets level low high (draw stream count) (Walk.lift (count.draw stream)) Eq := by
  rw [draw_eq stream h]
  exact meets_ofRun (keeps_draw stream count) hle

/-- A count repeats on both sides what the construct generated last does. -/
lemma LastMeets.repeated {last : Last} {wlast : Walk.Last} {count : RepeatCount}
    (h : LastMeets level high last wlast) (hcount : count.Valid) :
    LastMeets level high (last.repeated stream count) (wlast.repeated stream count) where
  base_eq := h.base_eq
  product_eq := congrArg (· * count.high) h.product_eq
  base_le := h.base_le
  action := (meets_draw hcount h.base_le).bind_eq fun instances =>
    (h.replay instances).bind_eq fun _ => meets_pure rfl (Nat.le_refl _)

/-- A token at the front of a slice, behind the construct `last`. -/
lemma meets_advance {s rest : Slice} {t : Token} (hs : s.IsPart (.whole level.text))
    (hnext : Token.next s = .ok (some (t, rest))) {last : Option Last} {wlast : Option Walk.Last}
    (hlast : Option.Rel (LastMeets level low) last wlast)
    (h : ∀ inner part : Slice, t.inner? = some inner → part.IsPart inner →
      PartMeets level eval weval part)
    (hroom : low + (rest.start - s.start) ≤ high) (hlimit : high < numberLimit) :
    Meets level low high (advance stream eval last ⟨s.start, rest.start - s.start⟩ t)
      (Walk.advance stream weval wlast ⟨s.start, rest.start - s.start⟩ t)
      fun u v => LastMeets level high u.1 v.1 ∧ u.2 = v.2 := by
  have hle : low ≤ high := by omega
  by_cases ht : ∃ count, t = .repetition count
  · obtain ⟨count, rfl⟩ := ht
    have hcount := Token.valid_of_next hnext
    cases hlast with
    | none => exact meets_fail trivial
    | @some last wlast hlast =>
      rw [advance, Walk.advance, hlast.product_eq]
      split
      · exact meets_fail trivial
      · refine (meets_draw hcount (Nat.le_refl _)).bind_eq fun instances => ?_
        exact (hlast.replay (instances - 1)).bind_eq fun samples =>
          meets_pure ⟨(hlast.mono hle).repeated hcount, rfl⟩ hle
  · have hprepare : Meets level low high (do
          let base ← opened
          let action ← prepare stream eval ⟨s.start, rest.start - s.start⟩ t
          let s ← rewound base action
          return ((⟨action, base, 1⟩ : Last), s)) (do
          let base ← Walk.opened
          let action ← Walk.prepare stream weval ⟨s.start, rest.start - s.start⟩ t
          let s ← Walk.rewound base action
          return ((⟨action, base, 1⟩ : Walk.Last), s))
        fun u v => LastMeets level high u.1 v.1 ∧ u.2 = v.2 := by
      refine meets_opened.bind ?_
      rintro base _ ⟨rfl, hbase⟩
      refine (meets_prepare hs hnext h hroom hlimit).bind fun action waction haction => ?_
      have haction : Meets level base high action waction Eq :=
        Meets.mono haction hbase (Nat.le_refl _)
      exact (meets_rewound haction (Nat.le_refl _)).bind_eq fun s =>
        meets_pure ⟨⟨rfl, rfl, Nat.le_trans hbase hle, haction⟩, rfl⟩ (Nat.le_refl _)
    cases t with
    | repetition count => exact absurd ⟨count, rfl⟩ ht
    | character | oneOf | reference | group | call => exact hprepare

end Parts

end Guarded

end PatternSampler
