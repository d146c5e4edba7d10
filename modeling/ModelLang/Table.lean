/-!
# Tables

A table binds keys to values and keeps the order in which the keys were first bound.  Binding a
key again replaces its value in place.
-/

namespace ModelLang

/-- Values bound to keys, in the order in which the keys were first bound. -/
structure Table (κ ν : Type) where
  /-- The bindings, one for each key. -/
  entries : List (κ × ν) := []

namespace Table

variable {κ ν : Type} [DecidableEq κ]

/-- Bind a key in a list of bindings. -/
def bindEntry (key : κ) (value : ν) : List (κ × ν) → List (κ × ν)
  | [] => [(key, value)]
  | entry :: entries =>
      if entry.1 = key then (key, value) :: entries else entry :: bindEntry key value entries

/-- The value that a list of bindings gives to a key. -/
def findEntry? (key : κ) : List (κ × ν) → Option ν
  | [] => none
  | entry :: entries => if entry.1 = key then some entry.2 else findEntry? key entries

/-- Bind a key to a value. -/
def insert (table : Table κ ν) (key : κ) (value : ν) : Table κ ν :=
  ⟨bindEntry key value table.entries⟩

/-- The value bound to a key. -/
def find? (table : Table κ ν) (key : κ) : Option ν :=
  findEntry? key table.entries

omit [DecidableEq κ] in
/-- The number of keys. -/
def size (table : Table κ ν) : Nat :=
  table.entries.length

/-- A key reads as it was last bound, and binding one leaves the others alone. -/
theorem find?_insert (table : Table κ ν) (bound key : κ) (value : ν) :
    (table.insert bound value).find? key = if key = bound then some value else table.find? key := by
  obtain ⟨entries⟩ := table
  simp only [insert, find?]
  induction entries with
  | nil =>
      simp only [bindEntry, findEntry?]
      simp [eq_comm (a := bound)]
  | cons entry entries induction =>
      simp only [bindEntry]
      by_cases same : entry.1 = bound
      · simp only [same, if_true, findEntry?]
        by_cases h : key = bound
        · simp [h]
        · have other : ¬ bound = key := fun equal => h equal.symm
          simp [h, other]
      · simp only [same, if_false, findEntry?, induction]
        by_cases h : entry.1 = key
        · have other : key ≠ bound := fun equal => same (h.trans equal)
          simp [h, other]
        · simp [h]

@[simp]
theorem find?_insert_self (table : Table κ ν) (key : κ) (value : ν) :
    (table.insert key value).find? key = some value := by
  simp [find?_insert]

theorem find?_insert_ne (table : Table κ ν) {bound key : κ} (value : ν) (h : key ≠ bound) :
    (table.insert bound value).find? key = table.find? key := by
  simp [find?_insert, h]

/-- Binding a key to the value that it has changes nothing. -/
theorem insert_eq_self {table : Table κ ν} {key : κ} {value : ν}
    (h : table.find? key = some value) : table.insert key value = table := by
  obtain ⟨entries⟩ := table
  simp only [insert, find?, mk.injEq] at h ⊢
  induction entries with
  | nil => cases h
  | cons entry entries induction =>
      obtain ⟨bound, old⟩ := entry
      simp only [bindEntry, findEntry?] at h ⊢
      split at h
      · next same =>
          cases h
          rw [if_pos same, same]
      · next other => rw [if_neg other, induction h]

end Table

end ModelLang
