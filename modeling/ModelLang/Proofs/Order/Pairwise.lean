import Mathlib.Data.List.Forall2
import ModelLang.Proofs.Order.Chain

/-!
# The order of sequences

The comparison of two sequences folds the comparisons of their items and may stop early.  What comes
out is the order of the product: below when all items are below, equal when all are equal, and
strictly below when all are below and one of them strictly.  The first two are tests on outcomes
that a product passes if and only if its components do.
-/

namespace ModelLang

/-- A relation between the items of two sequences may be weakened with regard to these items. -/
theorem forall₂_imp_of_mem {α : Type} {r s : α → α → Prop} {xs ys : List α}
    (related : List.Forall₂ r xs ys) (h : ∀ x ∈ xs, ∀ y ∈ ys, r x y → s x y) :
    List.Forall₂ s xs ys := by
  rw [List.forall₂_iff_zip] at related ⊢
  refine ⟨related.1, fun {x y} member => ?_⟩
  obtain ⟨left, right⟩ := List.of_mem_zip member
  exact h x left y right (related.2 member)

/-- What is made of two sequences position by position is made of their pairs. -/
theorem zipWith_eq_map_zip {α β γ : Type} (f : α → β → γ) (xs : List α) (ys : List β) :
    List.zipWith f xs ys = (xs.zip ys).map fun pair => f pair.1 pair.2 := by
  rw [List.map_zip_eq_zipWith]
  rfl

namespace Comparison

theorem isEq_conjoin (a b : Comparison) : (a.conjoin b).isEq = (a.isEq && b.isEq) := by
  cases a <;> cases b <;> rfl

theorem isLT_conjoin (a b : Comparison) :
    (a.conjoin b).isLT = (a.isLE && b.isLE && (a.isLT || b.isLT)) := by
  cases a <;> cases b <;> rfl

theorem isComparable_of_conjoin {a b : Comparison} (h : (a.conjoin b).isComparable = true) :
    a.isComparable = true ∧ b.isComparable = true := by
  cases a <;> cases b <;> simp_all [conjoin, isComparable]

/-- What a product has if and only if both its components have it, a product of any length has if
and only if all its components do. -/
theorem conjoinAll_test {components : List Comparison} {test : Comparison → Bool}
    (unit : test equal = true)
    (product : ∀ a b : Comparison, test (a.conjoin b) = (test a && test b)) :
    test (conjoinAll components) = true ↔ ∀ c ∈ components, test c = true := by
  induction components with
  | nil => simp [unit]
  | cons component rest induction =>
      rw [conjoinAll_cons, product, Bool.and_eq_true, induction, List.forall_mem_cons]

variable {α : Type} {compare : α → α → Comparison}

/-- A sequence passes such a test if and only if all its positions do. -/
theorem pairwise_test {test : Comparison → Bool} (unit : test equal = true)
    (zero : test incomparable = false)
    (product : ∀ a b : Comparison, test (a.conjoin b) = (test a && test b)) (xs ys : List α) :
    test (pairwise compare xs ys) = true ↔
      List.Forall₂ (fun x y => test (compare x y) = true) xs ys := by
  rw [pairwise, List.forall₂_iff_zip, zipWith_eq_map_zip]
  split
  case isTrue same =>
    rw [conjoinAll_test unit product, List.forall_mem_map]
    simp [same]
  case isFalse different => simp [zero, different]

theorem isLE_pairwise (xs ys : List α) :
    (pairwise compare xs ys).isLE = true ↔
      List.Forall₂ (fun x y => (compare x y).isLE = true) xs ys :=
  pairwise_test rfl rfl isLE_conjoin xs ys

theorem isEq_pairwise (xs ys : List α) :
    (pairwise compare xs ys).isEq = true ↔
      List.Forall₂ (fun x y => (compare x y).isEq = true) xs ys :=
  pairwise_test rfl rfl isEq_conjoin xs ys

/-- A sequence lies strictly below another one if all its items lie below, and one of them
strictly. -/
theorem isLT_pairwise (xs ys : List α) :
    (pairwise compare xs ys).isLT = true ↔
      List.Forall₂ (fun x y => (compare x y).isLE = true) xs ys ∧
        ∃ pair ∈ xs.zip ys, (compare pair.1 pair.2).isLT = true := by
  induction xs generalizing ys with
  | nil => cases ys <;> simp [isLT]
  | cons x xs induction =>
      cases ys with
      | nil => simp [isLT]
      | cons y ys =>
          have rest : (pairwise compare xs ys).isLE = true ↔ _ := isLE_pairwise xs ys
          rw [pairwise_cons_cons, isLT_conjoin, List.forall₂_cons, List.zip_cons_cons,
            List.exists_mem_cons_iff]
          simp only [Bool.and_eq_true, Bool.or_eq_true, induction ys, rest]
          tauto

/-- Sequences of images are compared by the images of their items. -/
theorem pairwise_map {β : Type} (f : β → α) (xs ys : List β) :
    pairwise compare (xs.map f) (ys.map f) = pairwise (fun x y => compare (f x) (f y)) xs ys := by
  simp only [pairwise, List.length_map, List.zipWith_map]

/-- Sequences that compare at all compare at every position. -/
theorem forall₂_of_isComparable {xs ys : List α}
    (h : (pairwise compare xs ys).isComparable = true) :
    List.Forall₂ (fun x y => (compare x y).isComparable = true) xs ys := by
  induction xs generalizing ys with
  | nil =>
      cases ys with
      | nil => exact .nil
      | cons => cases h
  | cons x xs induction =>
      cases ys with
      | nil => cases h
      | cons y ys =>
          rw [pairwise_cons_cons] at h
          obtain ⟨head, tail⟩ := isComparable_of_conjoin h
          exact .cons head (induction tail)

end Comparison

end ModelLang
