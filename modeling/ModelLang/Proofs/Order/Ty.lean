import ModelLang.Proofs.Order.Pairwise
import ModelLang.Ty

/-!
# The order of types

Assignability is antisymmetric and transitive on all types, those with a placeholder included: a
placeholder is comparable to nothing, so it never stands in a chain.  Two types compare only if
neither has a placeholder.  On the types without one the order is a partial order in the usual
sense, in which only a type itself is equal to it.
-/

namespace ModelLang
namespace Ty

/-- A property of types holds of all of them, if it passes from the components of a type to the
type. -/
theorem induct {P : Ty → Prop} (unknown : P unknown) (void : P void) (bool : P bool)
    (int : P int) (real : P real) (tuple : ∀ items, (∀ item ∈ items, P item) → P (tuple items))
    (function : ∀ params result, P params → P result → P (function params result)) (ty : Ty) :
    P ty := by
  match ty with
  | .unknown => exact unknown
  | .void => exact void
  | .bool => exact bool
  | .int => exact int
  | .real => exact real
  | .tuple items =>
      exact tuple items fun item _ => induct unknown void bool int real tuple function item
  | .function params result =>
      exact function params result (induct unknown void bool int real tuple function params)
        (induct unknown void bool int real tuple function result)

theorem compare_function (params params' result result' : Ty) :
    (function params result).compare (function params' result') =
      (params.compare params').conjoin (result.compare result') := by
  rw [compare]

theorem hasUnknown_tuple (items : List Ty) :
    (tuple items).hasUnknown = false ↔ ∀ item ∈ items, item.hasUnknown = false := by
  rw [hasUnknown, anyUnknown_eq_any, List.any_eq_false]
  simp

theorem hasUnknown_function (params result : Ty) :
    (function params result).hasUnknown = false ↔
      params.hasUnknown = false ∧ result.hasUnknown = false := by
  rw [hasUnknown, Bool.or_eq_false_iff]

/-- A type without a placeholder is equal to itself. -/
theorem compare_self {ty : Ty} (known : ty.hasUnknown = false) : ty.compare ty = .equal := by
  induction ty using induct with
  | unknown => simp [hasUnknown] at known
  | void | bool | int | real => rfl
  | tuple items items_self =>
      rw [compare_tuple]
      exact Comparison.pairwise_self items fun item member =>
        items_self item member ((hasUnknown_tuple items).mp known item member)
  | function params result params_self result_self =>
      obtain ⟨params_known, result_known⟩ := (hasUnknown_function params result).mp known
      rw [compare_function, params_self params_known, result_self result_known]
      rfl

/-- Exchanging two types exchanges the outcome of comparing them. -/
theorem compare_swap (a b : Ty) : b.compare a = (a.compare b).swap := by
  induction a using induct generalizing b with
  | unknown | void | bool | int | real => cases b <;> simp [compare, Comparison.swap]
  | tuple items items_swap =>
      cases b with
      | tuple items' =>
          rw [compare_tuple, compare_tuple]
          exact Comparison.pairwise_swap items items' fun x hx y _ => items_swap x hx y
      | _ => simp [compare, Comparison.swap]
  | function params result params_swap result_swap =>
      cases b with
      | function params' result' =>
          rw [compare_function, compare_function, Comparison.swap_conjoin, params_swap,
            result_swap]
      | _ => simp [compare, Comparison.swap]

/-- Assignability is transitive, and strict as soon as one link of a chain is. -/
theorem compare_chains (a b c : Ty) :
    Comparison.Chains (a.compare b) (b.compare c) (a.compare c) := by
  induction a using induct generalizing b c with
  | unknown => exact .of_not_first (by simp [compare, Comparison.isLE])
  | void | bool | int | real =>
      cases b <;> cases c <;>
        simp [compare, Comparison.Chains, Comparison.isLE, Comparison.conjoin]
  | tuple items items_chain =>
      cases b with
      | tuple items' =>
          cases c with
          | tuple items'' =>
              simp only [compare_tuple]
              exact Comparison.pairwise_chains items items' items''
                fun x hx y _ z _ => items_chain x hx y z
          | _ => exact .of_not_second (by simp [compare, Comparison.isLE])
      | _ => exact .of_not_first (by simp [compare, Comparison.isLE])
  | function params result params_chain result_chain =>
      cases b with
      | function params' result' =>
          cases c with
          | function params'' result'' =>
              simp only [compare_function]
              exact (params_chain params' params'').conjoin (result_chain result' result'')
          | _ => exact .of_not_second (by simp [compare, Comparison.isLE])
      | _ => exact .of_not_first (by simp [compare, Comparison.isLE])

/-- A tuple is assignable to another one if its components are. -/
theorem tuple_le_iff (xs ys : List Ty) : tuple xs ≤ tuple ys ↔ List.Forall₂ (· ≤ ·) xs ys := by
  change ((tuple xs).compare (tuple ys)).isLE = true ↔ _
  rw [compare_tuple]
  exact Comparison.isLE_pairwise xs ys

/-- A signature is assignable to another one if its parameters and its result are. -/
theorem function_le_iff (params params' result result' : Ty) :
    function params result ≤ function params' result' ↔ params ≤ params' ∧ result ≤ result' := by
  change ((function params result).compare (function params' result')).isLE = true ↔ _
  rw [compare_function, Comparison.isLE_conjoin, Bool.and_eq_true]
  rfl

theorem le_self {ty : Ty} (known : ty.hasUnknown = false) : ty ≤ ty := by
  change (ty.compare ty).isLE = true
  rw [compare_self known]
  rfl

/-- A type that is comparable to some type has no placeholder. -/
theorem known_of_isComparable {a b : Ty} (h : (a.compare b).isComparable = true) :
    a.hasUnknown = false := by
  induction a using induct generalizing b with
  | unknown => simp [compare, Comparison.isComparable] at h
  | void | bool | int | real => rfl
  | tuple items items_known =>
      cases b with
      | tuple items' =>
          rw [compare_tuple] at h
          have known : List.Forall₂ (fun item _ => item.hasUnknown = false ∧ True) items items' :=
            forall₂_imp_of_mem (Comparison.forall₂_of_isComparable h)
              fun item member _ _ comparable => ⟨items_known item member comparable, trivial⟩
          exact (hasUnknown_tuple items).mpr ((List.forall₂_and_left _ _).mp known).1
      | _ => simp [compare, Comparison.isComparable] at h
  | function params result params_known result_known =>
      cases b with
      | function params' result' =>
          rw [compare_function] at h
          obtain ⟨first, second⟩ := Comparison.isComparable_of_conjoin h
          exact (hasUnknown_function params result).mpr
            ⟨params_known first, result_known second⟩
      | _ => simp [compare, Comparison.isComparable] at h

/-- A type to which another one is assignable has no placeholder. -/
theorem known_of_le {a b : Ty} (h : a ≤ b) : b.hasUnknown = false := by
  apply known_of_isComparable (b := a)
  rw [compare_swap, Comparison.isComparable_swap]
  exact Comparison.isComparable_of_isLE h

/-- Types that are assignable to each other are equal. -/
theorem compare_eq_equal {a b : Ty} (h₁ : a ≤ b) (h₂ : b ≤ a) : a.compare b = .equal := by
  change (b.compare a).isLE = true at h₂
  rw [compare_swap] at h₂
  rcases Comparison.isLE_iff.mp h₁ with less | equal
  · simp [less, Comparison.swap, Comparison.isLE] at h₂
  · exact equal

theorem le_trans {a b c : Ty} (h₁ : a ≤ b) (h₂ : b ≤ c) : a ≤ c :=
  (compare_chains a b c).isLE h₁ h₂

/-! ## Placeholders at any depth -/

/-- A type occurs in itself, and in every type that has it in a component. -/
inductive OccursIn (part : Ty) : Ty → Prop
  | self : part.OccursIn part
  | item {item : Ty} {items : List Ty} :
      item ∈ items → part.OccursIn item → part.OccursIn (tuple items)
  | params {params result : Ty} : part.OccursIn params → part.OccursIn (function params result)
  | result {params result : Ty} : part.OccursIn result → part.OccursIn (function params result)

/-- The test for placeholders finds them at any depth. -/
theorem hasUnknown_iff {ty : Ty} : ty.hasUnknown = true ↔ unknown.OccursIn ty := by
  constructor
  · intro found
    induction ty using induct with
    | unknown => exact .self
    | void | bool | int | real => simp [hasUnknown] at found
    | tuple items items_found =>
        rw [hasUnknown, anyUnknown_eq_any, List.any_eq_true] at found
        obtain ⟨item, member, found⟩ := found
        exact .item member (items_found item member found)
    | function params result params_found result_found =>
        rw [hasUnknown, Bool.or_eq_true] at found
        rcases found with found | found
        · exact .params (params_found found)
        · exact .result (result_found found)
  · intro occurs
    induction occurs with
    | self => rfl
    | item member _ found =>
        rw [hasUnknown, anyUnknown_eq_any, List.any_eq_true]
        exact ⟨_, member, found⟩
    | params _ found => simp [hasUnknown, found]
    | result _ found => simp [hasUnknown, found]

theorem hasUnknown_eq_false_iff {ty : Ty} : ty.hasUnknown = false ↔ ¬ unknown.OccursIn ty := by
  rw [← hasUnknown_iff, Bool.not_eq_true]

/-- Only one and the same type compares as equal. -/
theorem eq_of_compare_eq {a b : Ty} (equal : a.compare b = .equal) : a = b := by
  induction a using induct generalizing b with
  | unknown => simp [compare] at equal
  | void | bool | int | real => cases b <;> simp_all [compare]
  | tuple items items_eq =>
      cases b with
      | tuple items' =>
          rw [compare_tuple, ← Comparison.isEq_iff, Comparison.isEq_pairwise] at equal
          have same : List.Forall₂ (· = ·) items items' :=
            forall₂_imp_of_mem equal fun item member item' _ equal =>
              items_eq item member (Comparison.isEq_iff.mp equal)
          rw [List.forall₂_eq_eq_eq] at same
          rw [same]
      | _ => simp [compare] at equal
  | function params result params_eq result_eq =>
      cases b with
      | function params' result' =>
          rw [compare_function, ← Comparison.isEq_iff, Comparison.isEq_conjoin,
            Bool.and_eq_true, Comparison.isEq_iff, Comparison.isEq_iff] at equal
          rw [params_eq equal.1, result_eq equal.2]
      | _ => simp [compare] at equal

/-- A type in which a placeholder occurs is comparable to no type, on either side. -/
theorem compare_eq_incomparable {a b : Ty} (occurs : unknown.OccursIn a ∨ unknown.OccursIn b) :
    a.compare b = .incomparable := by
  have apart {c d : Ty} (occurs : unknown.OccursIn c) : c.compare d = .incomparable := by
    rw [← hasUnknown_iff] at occurs
    by_contra comparable
    have known : c.hasUnknown = false := by
      apply known_of_isComparable (b := d)
      cases outcome : c.compare d <;> simp_all [Comparison.isComparable]
    simp [known] at occurs
  rcases occurs with left | right
  · exact apart left
  · rw [compare_swap, apart right]
    rfl

/-- Assignability is a partial order on the types without a placeholder, and a placeholder, at any
depth, keeps a type from being comparable to any type, itself included. -/
theorem compare_orders_known (a b c : Ty) :
    b.compare a = (a.compare b).swap ∧
      (a ≤ b → b ≤ c → a ≤ c) ∧
      (a.compare b = .equal ↔ a = b ∧ ¬ unknown.OccursIn a) ∧
      (unknown.OccursIn a ∨ unknown.OccursIn b → a.compare b = .incomparable) ∧
      (a.hasUnknown = true ↔ a.compare a ≠ .equal) := by
  refine ⟨compare_swap a b, le_trans, ?_, compare_eq_incomparable, ?_⟩
  · constructor
    · intro equal
      refine ⟨eq_of_compare_eq equal, fun occurs => ?_⟩
      rw [compare_eq_incomparable (.inl occurs)] at equal
      cases equal
    · rintro ⟨rfl, known⟩
      exact compare_self (hasUnknown_eq_false_iff.mpr known)
  · constructor
    · intro found
      rw [compare_eq_incomparable (.inl (hasUnknown_iff.mp found))]
      simp
    · intro apart
      by_contra known
      exact apart (compare_self (by simpa using known))

/-! ## Signatures from `(Int, Bool) -> Int` to `(Real, Bool) -> Real` -/

namespace Signatures

def narrow : Ty := function (tuple [int, bool]) int
def middle : Ty := function (tuple [real, bool]) int
def wide : Ty := function (tuple [real, bool]) real

/-- The first parameter and the result are narrower than those of `wide`, and the second parameter
has no type. -/
def pending : Ty := function (tuple [int, unknown]) int

theorem occursIn_pending : unknown.OccursIn pending :=
  .params (.item (List.mem_cons_of_mem _ List.mem_cons_self) .self)

end Signatures

open Signatures in
/-- The chain of signatures, and one whose placeholder stands behind a component that would be
strictly below. -/
theorem compare_orders_known_signatures :
    (narrow ≤ middle ∧ middle ≤ wide) ∧ narrow ≤ wide ∧ wide.compare narrow = .greater ∧
      wide.compare wide = .equal ∧ pending.compare wide = .incomparable ∧
      pending.compare pending ≠ .equal := by
  have first : narrow ≤ middle := by decide
  have second : middle ≤ wide := by decide
  have below : narrow.compare wide = .less := by decide
  obtain ⟨swap, trans, -, -, -⟩ := compare_orders_known narrow wide wide
  obtain ⟨-, -, equal_iff, -, -⟩ := compare_orders_known wide wide wide
  obtain ⟨-, -, -, incomparable, found⟩ := compare_orders_known pending wide wide
  refine ⟨⟨first, second⟩, (compare_orders_known narrow middle wide).2.1 first second, ?_, ?_,
    incomparable (.inl occursIn_pending), found.mp (by decide)⟩
  · rw [swap, below]
    rfl
  · exact equal_iff.mpr ⟨rfl, hasUnknown_eq_false_iff.mp (by decide)⟩

end Ty
end ModelLang
