import Mathlib.Data.List.Basic
import ModelLang.Declaration
import ModelLang.Proofs.Order.Chain

/-!
# Strict dims

Strictness decides one thing: whether a dim of a name that is bound is let pass or reported.  In
neither case does it change the scope, so what is declared later meets the same scope.  Declaring
the same items strictly and not gives the same scope, and the same errors but for some mismatches
of types that are only found when dims are strict.
-/

namespace ModelLang

/-- Two declarations of one name do not unify. -/
def Diagnostic.isTypeMismatch : Diagnostic → Bool
  | typeMismatch .. => true
  | _ => false

/-- Some mismatches of types are left out, and nothing else is changed. -/
structure Diagnostic.Relaxes (lax strict : List Diagnostic) : Prop where
  sublist : lax.Sublist strict
  others : lax.filter (fun error => !error.isTypeMismatch) =
    strict.filter fun error => !error.isTypeMismatch

namespace Diagnostic.Relaxes

variable {lax strict : List Diagnostic}

theorem refl (errors : List Diagnostic) : Relaxes errors errors :=
  ⟨.refl errors, rfl⟩

theorem append (relaxes : Relaxes lax strict) (more : List Diagnostic) :
    Relaxes (lax ++ more) (strict ++ more) where
  sublist := relaxes.sublist.append (.refl more)
  others := by rw [List.filter_append, List.filter_append, relaxes.others]

/-- One more mismatch is left out. -/
theorem leave (relaxes : Relaxes lax strict) {error : Diagnostic}
    (mismatch : error.isTypeMismatch = true) : Relaxes lax (strict ++ [error]) where
  sublist := relaxes.sublist.trans (List.sublist_append_left strict [error])
  others := by simp [relaxes.others, mismatch]

end Diagnostic.Relaxes

open Diagnostic (Relaxes)

namespace Scope

/-- Equal extents are comparable. -/
theorem Unifies.lax {existing dim : Dim} (unify : Unifies true existing dim) :
    Unifies false existing dim := by
  have equal : existing.extent.compare dim.extent = .equal := Comparison.isEq_iff.mp unify
  simp [Unifies, equal, Comparison.isComparable]

/-- Strictness makes no difference to a declaration, or it reports a dim that is let pass
otherwise. -/
theorem declare_lax (scope : Scope) (item : Item) :
    scope.declare false item = scope.declare true item ∨
      scope.declare false item = .ok scope ∧
        ∃ error, scope.declare true item = .error error ∧ error.isTypeMismatch = true := by
  cases item with
  | dim dim =>
      simp only [declare, declareDim]
      cases scope.dim? dim.name with
      | none => exact .inl rfl
      | some existing =>
          by_cases strict : Unifies true existing dim
          · simp [strict, strict.lax]
          · by_cases lax : Unifies false existing dim
            · simp [strict, lax, Diagnostic.isTypeMismatch]
            · simp [strict, lax]
  | function | method => exact .inl rfl

end Scope

namespace Declared

theorem errors_count (outcome : Declared) (item : Item) :
    (outcome.count item).errors = outcome.errors := by
  cases item with
  | dim dim =>
      rw [count]
      split <;> rfl
  | function | method => rfl

/-- Two outcomes share the scope, and the first one has the errors of the second one but for some
mismatches of types. -/
structure Relaxed (lax strict : Declared) : Prop where
  scope_eq : lax.scope = strict.scope
  errors : Relaxes lax.errors strict.errors

variable {lax strict : Declared}

/-- One more declaration keeps the scope the same. -/
theorem Relaxed.add (relaxed : Relaxed lax strict) (item : Item) :
    Relaxed (lax.add false item) (strict.add true item) := by
  rw [Declared.add, Declared.add, relaxed.scope_eq]
  rcases strict.scope.declare_lax item with same | ⟨passes, error, reported, mismatch⟩
  · rw [same]
    cases strict.scope.declare true item with
    | ok scope => exact ⟨rfl, by simpa only [errors_count] using relaxed.errors⟩
    | error error => exact ⟨rfl, relaxed.errors.append [error]⟩
  · rw [passes, reported]
    exact ⟨rfl, by simpa only [errors_count] using relaxed.errors.leave mismatch⟩

end Declared

/-- Declaring items strictly and not gives one scope, and errors that differ in mismatches only. -/
theorem Scope.declareAll_relaxed (scope : Scope) (items : List Item) :
    (scope.declareAll false items).Relaxed (scope.declareAll true items) := by
  have start : Declared.Relaxed { scope } { scope } := ⟨rfl, .refl []⟩
  have run : Declared.Relaxed (items.foldl (Declared.add false) { scope })
      (items.foldl (Declared.add true) { scope }) :=
    List.foldl_rel start fun item _ _ _ relaxed => relaxed.add item
  exact ⟨run.scope_eq, run.errors⟩

/-- Strictness leaves the scope as it is. -/
theorem Scope.scope_declareAll (scope : Scope) (strict strict' : Bool) (items : List Item) :
    (scope.declareAll strict items).scope = (scope.declareAll strict' items).scope := by
  have same := (scope.declareAll_relaxed items).scope_eq
  cases strict <;> cases strict'
  · rfl
  · exact same
  · exact same.symm
  · rfl

end ModelLang
