set_option autoImplicit false

/-!
# Texts of groups

While text is generated, the latest text of each group is kept for the references to it.

## Main definitions

* `GroupTable` — texts by group number.
* `GroupTable.text?`, `GroupTable.record` — reads and replaces the text of a group.
* `GroupTable.clear` — makes the texts of consecutive groups empty.

## Main results

* `GroupTable.text?_record_self`, `GroupTable.text?_record_of_ne`, `GroupTable.text?_clear` — the
  table behind a change.
-/

namespace PatternSampler

/-- The latest text of each group, by its number. -/
structure GroupTable where
  entries : List (Nat × String)
deriving DecidableEq, Repr, Inhabited

namespace GroupTable

/-- No group has a text. -/
def empty : GroupTable := ⟨[]⟩

/-- The entries with the text of a group replaced, or with a new entry behind the others. -/
def replace (number : Nat) (text : String) : List (Nat × String) → List (Nat × String)
  | [] => [(number, text)]
  | entry :: rest =>
    if entry.1 = number then (number, text) :: rest else entry :: replace number text rest

/-- The text of a group. -/
def text? (table : GroupTable) (number : Nat) : Option String := table.entries.lookup number

/-- Sets the text of a group. -/
def record (number : Nat) (text : String) (table : GroupTable) : GroupTable :=
  ⟨replace number text table.entries⟩

/-- Makes the texts of the `count` groups behind the group `before` empty. -/
def clear (before : Nat) : (count : Nat) → GroupTable → GroupTable
  | 0, table => table
  | count + 1, table => clear (before + 1) count (table.record (before + 1) "")

/-- In an empty table no group has a text. -/
@[simp] theorem text?_empty (number : Nat) : empty.text? number = none := rfl

/-- A group whose text is set has this text. -/
@[simp] theorem text?_record_self (number : Nat) (text : String) (table : GroupTable) :
    (table.record number text).text? number = some text := by
  obtain ⟨entries⟩ := table
  simp only [record, text?]
  induction entries with
  | nil => simp [replace]
  | cons entry rest ih =>
    obtain ⟨key, value⟩ := entry
    unfold replace
    split
    · exact List.lookup_cons_self
    · rename_i h
      have hkey : (number == key) = false := beq_eq_false_iff_ne.2 (Ne.symm h)
      rw [List.lookup_cons, hkey]
      exact ih

/-- Setting the text of a group leaves the texts of the others as they are. -/
theorem text?_record_of_ne {number other : Nat} (h : other ≠ number) (text : String)
    (table : GroupTable) : (table.record number text).text? other = table.text? other := by
  obtain ⟨entries⟩ := table
  have hne : (other == number) = false := by simpa using h
  simp only [record, text?]
  induction entries with
  | nil => rw [replace, List.lookup_cons, hne]
  | cons entry rest ih =>
    obtain ⟨key, value⟩ := entry
    unfold replace
    split
    · rename_i hkey
      simp only at hkey
      subst hkey
      rw [List.lookup_cons, List.lookup_cons, hne]
    · rw [List.lookup_cons, List.lookup_cons, ih]

/-- The groups that are made empty have empty texts, and the others keep theirs. -/
theorem text?_clear (before count other : Nat) (table : GroupTable) :
    (table.clear before count).text? other =
      if before < other ∧ other ≤ before + count then some "" else table.text? other := by
  induction count generalizing before table with
  | zero =>
    rw [if_neg (by omega)]
    rfl
  | succ count ih =>
    rw [clear, ih]
    by_cases h : before + 1 < other ∧ other ≤ before + 1 + count
    · rw [if_pos h, if_pos (by omega)]
    · rw [if_neg h]
      by_cases hother : other = before + 1
      · subst hother
        rw [if_pos (by omega), text?_record_self]
      · rw [text?_record_of_ne hother, if_neg (by omega)]

end GroupTable

end PatternSampler
