import Mathlib.Data.List.Induction
import ModelLang.Report

/-!
# What a report holds

A report that is filled from the start holds an initial part of the errors: all of them, or as many
as its limit allows.  It counts the others, so it is empty only if there were no errors at all.
-/

namespace ModelLang.Report

/-- The errors that fit into a report with a limit. -/
def fitting (limit : Nat) (errors : List Diagnostic) : List Diagnostic :=
  if limit = 0 then errors else errors.take limit

theorem fitting_eq_self {limit : Nat} {errors : List Diagnostic}
    (fits : limit = 0 ∨ errors.length ≤ limit) : fitting limit errors = errors := by
  rw [fitting]
  split
  case isTrue => rfl
  case isFalse limited => exact List.take_of_length_le (fits.resolve_left limited)

theorem length_fitting_le (limit : Nat) (errors : List Diagnostic) :
    (fitting limit errors).length ≤ errors.length := by
  rw [fitting]
  split
  case isTrue => exact Nat.le_refl _
  case isFalse => exact List.length_take_le' limit errors

/-- A report that holds what fits is full when its limit is reached. -/
theorem isFull_fitting (limit dropped : Nat) (errors : List Diagnostic) :
    isFull ⟨fitting limit errors, dropped, limit⟩ = true ↔ limit ≠ 0 ∧ limit ≤ errors.length := by
  by_cases unlimited : limit = 0
  · simp [isFull, unlimited]
  · have reached : limit ≤ min limit errors.length ↔ limit ≤ errors.length := by omega
    simp [isFull, fitting, unlimited, reached]

/-- A report holds the errors that fit and counts the others. -/
theorem addAll_withLimit (limit : Nat) (errors : List Diagnostic) :
    (withLimit limit).addAll errors =
      ⟨fitting limit errors, errors.length - (fitting limit errors).length, limit⟩ := by
  induction errors using List.reverseRecOn with
  | nil => simp [fitting, withLimit]
  | append_singleton errors error induction =>
      rw [addAll_append, induction, addAll_cons, addAll_nil, add]
      by_cases full : limit ≠ 0 ∧ limit ≤ errors.length
      · have kept : fitting limit (errors ++ [error]) = fitting limit errors := by
          simp [fitting, full.1, List.take_append_of_le_length full.2]
        have length : (fitting limit errors).length = limit := by
          simp [fitting, full.1, full.2]
        rw [if_pos ((isFull_fitting limit _ errors).mpr full), kept, length, List.length_append,
          List.length_singleton, Nat.sub_add_comm full.2]
      · have kept : fitting limit errors = errors := fitting_eq_self (by omega)
        have kept' : fitting limit (errors ++ [error]) = errors ++ [error] :=
          fitting_eq_self (by rw [List.length_append, List.length_singleton]; omega)
        rw [if_neg (mt (isFull_fitting limit _ errors).mp full), kept, kept', Nat.sub_self,
          Nat.sub_self]

/-- A report is empty when there was no error. -/
theorem isEmpty_addAll (limit : Nat) (errors : List Diagnostic) :
    ((withLimit limit).addAll errors).isEmpty = true ↔ errors = [] := by
  rw [addAll_withLimit, isEmpty, List.isEmpty_iff, fitting]
  split
  case isTrue => rfl
  case isFalse limited => rw [List.take_eq_nil_iff, or_iff_right limited]

end ModelLang.Report
