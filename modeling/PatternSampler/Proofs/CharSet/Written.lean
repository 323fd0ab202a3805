import PatternSampler.Proofs.CharSet.Members
import PatternSampler.Proofs.Reading.Append

set_option autoImplicit false

/-!
# Written sets

The items of a bracket expression can be written down one after the other. Wherever an item stands,
it is read as what it is, if its characters with a meaning of their own are behind backslashes.

## Main definitions

* `BracketItem` — an item of a bracket expression, with its text and its members.
* `bracketed` — the bracket expression of some items.
* `bracketedSet` — the set that is read from it.
* `bracketedMembers` — the characters that it is meant to denote.

## Main results

* `BracketItem.spelled` — an item is read as what it adds, whatever stands around it.
* `next_bracketed` — a bracket expression is read as its set, whatever follows it.
* `contains_bracketedSet` — the set has the members that it is meant to have.
-/

namespace PatternSampler

/-! ## Items -/

/-- An item of a bracket expression. -/
inductive BracketItem
  /-- A single character. -/
  | single (c : Char)
  /-- The characters from one to another, both included. -/
  | range (low high : Char) (h : low ≤ high)
  /-- A named set of the table. -/
  | named (name : String) (bounds : List (Char × Char)) (h : (name, bounds) ∈ CharSet.named)
  /-- The escape for digits. -/
  | digits
  /-- The escape for the characters of words. -/
  | wordCharacters

/-- A character in a bracket expression, behind a backslash if it had a meaning of its own there. -/
def inBrackets (c : Char) : List Char :=
  if c ∈ [']', '[', '\x7b', '$', '\\', '^', '-', ':'] then ['\\', c] else [c]

namespace BracketItem

/-- The text of an item. -/
def text : BracketItem → List Char
  | single c => inBrackets c
  | range low high _ => inBrackets low ++ '-' :: inBrackets high
  | named name _ _ => ':' :: (name.toList ++ [':'])
  | digits => ['\\', 'd']
  | wordCharacters => ['\\', 'w']

/-- The characters that an item denotes. -/
def members : BracketItem → Set Char
  | single c => {c}
  | range low high _ => Set.Icc low high
  | named _ bounds _ => {c | ∃ b ∈ bounds, c ∈ Set.Icc b.1 b.2}
  | digits => Set.Icc '0' '9'
  | wordCharacters => Set.Icc 'A' 'Z' ∪ Set.Icc 'a' 'z' ∪ Set.Icc '0' '9' ∪ {'_'}

/-- What has been read behind an item. -/
def addTo (d : Draft) : BracketItem → Draft
  | single c => d.push c
  | range low high _ => (d.push low).extend (CharRange.ofChars? low high).toList
  | named _ bounds _ => d.extend (CharSet.rangesOf bounds)
  | digits => d.extend CharSet.digitRanges
  | wordCharacters => d.extend CharSet.wordRanges

end BracketItem

/-- The bracket expression of some items. -/
def bracketed (negated : Bool) (items : List BracketItem) : List Char :=
  '[' :: ((if negated then ['^'] else []) ++ (items.flatMap BracketItem.text ++ [']']))

/-- What has been read in front of the first item. -/
def Draft.behindCaret (negated : Bool) : Draft := ⟨.empty, negated, none⟩

/-- The set that is read from the bracket expression of some items. -/
def bracketedSet (negated : Bool) (items : List BracketItem) : CharSet :=
  (items.foldl BracketItem.addTo (.behindCaret negated)).finish

/-- The characters that the bracket expression of some items is meant to denote: the members of the
items, or the other printable ASCII characters. -/
def bracketedMembers (negated : Bool) (items : List BracketItem) : Set Char :=
  if negated then Set.Icc ' ' '~' \ ⋃ item ∈ items, item.members else ⋃ item ∈ items, item.members

/-! ## Reading items -/

section Spelled

variable {d : Draft} {items : List Char} {set : CharSet} {c : Char}

/-- The characters with a meaning inside brackets are escaped by a backslash. -/
lemma spelled_escape_of_mem (h : c ∈ [']', '[', '\x7b', '$', '\\', '^', '-', ':']) :
    (Escape.character c).Spelled [c] := by
  have hcontrol : controlOf c = c ∧ c ≠ 'd' ∧ c ≠ 'w' ∧ c ≠ 'u' ∧ c ≠ 'U' := by
    fin_cases h <;> decide
  have hescape := Escape.Spelled.control hcontrol.2
  rwa [hcontrol.1] at hescape

/-- A single character is read as itself. -/
lemma spelled_inBrackets (h : (d.push c).Spelled items set) :
    d.Spelled (inBrackets c ++ items) set := by
  unfold inBrackets
  split
  · rename_i hc
    exact .escape (spelled_escape_of_mem hc) h
  · rename_i hc
    simp only [List.mem_cons, List.not_mem_nil, or_false, not_or] at hc
    exact .member (by simp [hc]) (.inl hc.2.2.2.2.2.1) h

/-- The end of a range is read behind its start. -/
lemma spelled_rangeEnd {low : Char} {range : CharRange} (hlow : d.rangeStart = some low)
    (hrange : CharRange.ofChars? low c = some range) (h : (d.extend [range]).Spelled items set) :
    d.Spelled ('-' :: (inBrackets c ++ items)) set := by
  unfold inBrackets
  split
  · rename_i hc
    exact .rangeEscape hlow (spelled_escape_of_mem hc) hrange h
  · rename_i hc
    simp only [List.mem_cons, List.not_mem_nil, or_false, not_or] at hc
    exact .range hlow (by simp [hc]) hrange h

/-- The names of the table are names. -/
lemma isName_of_mem_named : ∀ entry ∈ CharSet.named,
    entry.1.toList ≠ [] ∧ entry.1.toList.all Char.isAlphanum = true := by
  decide

/-- Each name of the table names its own set. -/
lemma lookup_of_mem_named : ∀ entry ∈ CharSet.named,
    CharSet.named.lookup entry.1 = some entry.2 := by
  intro entry h
  fin_cases h <;> rfl

/-- An item is read as what it adds, whatever stands around it. -/
theorem BracketItem.spelled (item : BracketItem) (h : (item.addTo d).Spelled items set) :
    d.Spelled (item.text ++ items) set := by
  cases item with
  | single c => exact spelled_inBrackets h
  | range low high hle =>
    obtain ⟨range, hrange⟩ := CharRange.exists_ofChars? hle
    rw [addTo, hrange] at h
    have hend := spelled_rangeEnd (d := d.push low) rfl hrange h
    rw [text, List.append_assoc, List.cons_append]
    exact spelled_inBrackets hend
  | named name bounds hentry =>
    obtain ⟨hne, hname⟩ := isName_of_mem_named _ hentry
    have hranges : CharSet.rangesOfName? (String.ofList name.toList) =
        some (CharSet.rangesOf bounds) := by
      rw [String.ofList_toList, CharSet.rangesOfName?, lookup_of_mem_named _ hentry,
        Option.map_some]
    simpa [text] using Draft.Spelled.name hne (List.all_eq_true.1 hname) hranges h
  | digits => exact .escape .digits h
  | wordCharacters => exact .escape .wordCharacters h

end Spelled

/-! ## Reading bracket expressions -/

/-- The items up to the closing bracket are read as what they add. -/
lemma spelled_items (d : Draft) (items : List BracketItem) :
    d.Spelled (items.flatMap BracketItem.text ++ [']'])
      (items.foldl BracketItem.addTo d).finish := by
  induction items generalizing d with
  | nil => exact .close d
  | cons item items ih =>
    rw [List.flatMap_cons, List.append_assoc]
    exact item.spelled (ih (item.addTo d))

/-- A bracket expression is read as its set, whatever follows it. -/
theorem next_bracketed (negated : Bool) (items : List BracketItem) (start : Nat)
    (rest : List Char) :
    Token.next ⟨start, bracketed negated items ++ rest⟩ =
      .ok (some (.oneOf (bracketedSet negated items),
        ⟨start + (bracketed negated items).length, rest⟩)) := by
  have hspelled : Draft.start.Spelled
      ((if negated then ['^'] else []) ++ (items.flatMap BracketItem.text ++ [']']))
      (bracketedSet negated items) := by
    cases negated with
    | false => exact spelled_items _ items
    | true => exact .caret rfl (spelled_items _ items)
  exact Token.next_of_spelled (.oneOf hspelled) ⟨rfl, rfl⟩ (by simp)

/-! ## Members -/

/-- The characters between some bounds. -/
lemma exists_mem_rangesOf {bounds : List (Char × Char)} {c : Char} :
    (∃ r ∈ CharSet.rangesOf bounds, r.contains c = true) ↔
      ∃ b ∈ bounds, c ∈ Set.Icc b.1 b.2 := by
  constructor
  · rintro ⟨r, hr, hc⟩
    obtain ⟨b, hb, hbounds⟩ := List.mem_filterMap.1 hr
    exact ⟨b, hb, (CharRange.contains_of_ofChars? hbounds).1 hc⟩
  · rintro ⟨b, hb, hc⟩
    obtain ⟨r, hr⟩ := CharRange.exists_ofChars? (hc.1.trans hc.2)
    exact ⟨r, List.mem_filterMap.2 ⟨b, hb, hr⟩, (CharRange.contains_of_ofChars? hr).2 hc⟩

/-- An item adds its members. -/
lemma contains_addTo (d : Draft) (item : BracketItem) (c : Char) :
    (item.addTo d).members.contains c = true ↔
      d.members.contains c = true ∨ c ∈ item.members := by
  cases item with
  | single c' =>
    rw [BracketItem.addTo, Draft.push, CharSet.contains_insert, CharRange.contains_singleton]
    rfl
  | range low high hle =>
    obtain ⟨r, hr⟩ := CharRange.exists_ofChars? hle
    rw [BracketItem.addTo, hr, Draft.extend, CharSet.contains_insertAll, Draft.push,
      CharSet.contains_insert, CharRange.contains_singleton, or_assoc]
    have hrange := CharRange.contains_of_ofChars? (c := c) hr
    -- the low end is added on its own in front of the range, which has it as well
    have hlow : c = low → r.contains c = true := by
      rintro rfl
      exact hrange.2 ⟨le_rfl, hle⟩
    simp only [Option.toList_some, List.mem_singleton, exists_eq_left]
    rw [or_iff_right_of_imp hlow, hrange]
    rfl
  | named name bounds hentry =>
    rw [BracketItem.addTo, Draft.extend, CharSet.contains_insertAll, exists_mem_rangesOf]
    rfl
  | digits =>
    rw [BracketItem.addTo, Draft.extend, CharSet.contains_insertAll, CharSet.digitRanges,
      exists_mem_rangesOf]
    simp [BracketItem.members]
  | wordCharacters =>
    rw [BracketItem.addTo, Draft.extend, CharSet.contains_insertAll, CharSet.wordRanges,
      exists_mem_rangesOf]
    have hunderscore : '_' ≤ c ∧ c ≤ '_' ↔ c = '_' := by
      rw [← Set.mem_Icc, Set.Icc_self, Set.mem_singleton_iff]
    simp only [BracketItem.members, List.exists_mem_cons_iff, List.not_mem_nil, false_and,
      exists_false, or_false, Set.mem_union, Set.mem_Icc, Set.mem_singleton_iff, hunderscore,
      or_assoc]

/-- Adding an item does not change whether the set is negated. -/
lemma negated_addTo (d : Draft) (item : BracketItem) : (item.addTo d).negated = d.negated := by
  cases item <;> rfl

/-- Items add their members. -/
lemma contains_foldl_addTo (d : Draft) (items : List BracketItem) (c : Char) :
    (items.foldl BracketItem.addTo d).members.contains c = true ↔
      d.members.contains c = true ∨ c ∈ ⋃ item ∈ items, item.members := by
  induction items generalizing d with
  | nil => simp
  | cons item items ih =>
    rw [List.foldl_cons, ih, contains_addTo, or_assoc]
    simp

/-- Adding several items does not change whether the set is negated. -/
lemma negated_foldl_addTo (d : Draft) (items : List BracketItem) :
    (items.foldl BracketItem.addTo d).negated = d.negated := by
  induction items generalizing d with
  | nil => rfl
  | cons item items ih => rw [List.foldl_cons, ih, negated_addTo]

/-- The set of a bracket expression has the members that it is meant to have. -/
theorem contains_bracketedSet {negated : Bool} {items : List BracketItem} {c : Char} :
    (bracketedSet negated items).contains c = true ↔ c ∈ bracketedMembers negated items := by
  have hempty : ¬(Draft.behindCaret negated).members.contains c = true := CharSet.contains_empty
  have hmembers := contains_foldl_addTo (.behindCaret negated) items c
  rw [or_iff_right hempty] at hmembers
  rw [bracketedSet, Draft.finish, negated_foldl_addTo, bracketedMembers]
  cases negated with
  | false => exact hmembers
  | true =>
    show CharSet.contains (CharSet.complement _) c = true ↔
      c ∈ Set.Icc ' ' '~' ∧ c ∉ ⋃ item ∈ items, item.members
    rw [CharSet.contains_complement, hmembers]
    rfl

end PatternSampler
