import ModelLang.Comparison

/-!
# Chains of comparisons

Transitivity is stated on outcomes.  Two links of a chain and the comparison of its ends *chain*
when, with both links ordered upwards, the ends compare like the product of the links: the ends
are equal when both links are, and strictly ordered otherwise.  Products of chains are chains, so
a componentwise comparison inherits transitivity from its components.
-/

namespace ModelLang
namespace Comparison

/-- Transitivity on outcomes: with both links ordered upwards, the ends compare like their
product. -/
def Chains (first second ends : Comparison) : Prop :=
  first.isLE = true → second.isLE = true → ends = first.conjoin second

@[simp]
theorem isLE_conjoin (a b : Comparison) : (a.conjoin b).isLE = (a.isLE && b.isLE) := by
  cases a <;> cases b <;> rfl

@[simp]
theorem swap_equalIf (test : Bool) : (equalIf test).swap = equalIf test := by
  cases test <;> rfl

@[simp]
theorem isLE_equalIf (test : Bool) : (equalIf test).isLE = test := by
  cases test <;> rfl

theorem isEq_iff {c : Comparison} : c.isEq = true ↔ c = equal := by
  cases c <;> simp [isEq]

theorem isLT_iff {c : Comparison} : c.isLT = true ↔ c = less := by
  cases c <;> simp [isLT]

theorem isLE_iff {c : Comparison} : c.isLE = true ↔ c = less ∨ c = equal := by
  cases c <;> simp [isLE]

@[simp]
theorem isEq_swap (c : Comparison) : c.swap.isEq = c.isEq := by
  cases c <;> rfl

theorem isComparable_swap (c : Comparison) : c.swap.isComparable = c.isComparable := by
  cases c <;> rfl

theorem isComparable_of_isLE {c : Comparison} (h : c.isLE = true) : c.isComparable = true := by
  cases c <;> simp_all [isLE, isComparable]

/-! ## Chains -/

namespace Chains

/-- A chain whose first link is not ordered upwards promises nothing. -/
theorem of_not_first {first second ends : Comparison} (h : first.isLE = false) :
    Chains first second ends := by
  intro upwards
  simp [h] at upwards

theorem of_not_second {first second ends : Comparison} (h : second.isLE = false) :
    Chains first second ends := by
  intro _ upwards
  simp [h] at upwards

theorem equal_left (c : Comparison) : Chains equal c c := by
  intro _ _
  simp

theorem equal_right (c : Comparison) : Chains c equal c := by
  intro _ _
  simp

/-- Going up and coming back to the start means not having moved. -/
theorem swap_right (c : Comparison) : Chains c c.swap equal := by
  intro upwards back
  cases c <;> simp_all [isLE, swap, conjoin]

/-- The product of two chains is a chain. -/
theorem conjoin {a₁ b₁ c₁ a₂ b₂ c₂ : Comparison} (h₁ : Chains a₁ b₁ c₁)
    (h₂ : Chains a₂ b₂ c₂) : Chains (a₁.conjoin a₂) (b₁.conjoin b₂) (c₁.conjoin c₂) := by
  intro firsts seconds
  simp only [isLE_conjoin, Bool.and_eq_true] at firsts seconds
  calc
    c₁.conjoin c₂ = (a₁.conjoin b₁).conjoin (a₂.conjoin b₂) := by
      rw [h₁ firsts.1 seconds.1, h₂ firsts.2 seconds.2]
    _ = (a₁.conjoin a₂).conjoin (b₁.conjoin b₂) := by
      rw [conjoin_assoc, ← conjoin_assoc b₁, conjoin_comm b₁, conjoin_assoc, ← conjoin_assoc]

theorem equalIf {p q r : Bool} (h : p = true → q = true → r = true) :
    Chains (.equalIf p) (.equalIf q) (.equalIf r) := by
  intro first second
  simp only [isLE_equalIf] at first second
  simp [first, second, h first second, Comparison.equalIf]

variable {first second ends : Comparison}

theorem isLE (chain : Chains first second ends) (h₁ : first.isLE = true)
    (h₂ : second.isLE = true) : ends.isLE = true := by
  rw [chain h₁ h₂, isLE_conjoin, h₁, h₂]
  rfl

theorem isEq (chain : Chains first second ends) (h₁ : first.isEq = true)
    (h₂ : second.isEq = true) : ends.isEq = true := by
  obtain rfl := isEq_iff.mp h₁
  obtain rfl := isEq_iff.mp h₂
  rw [chain rfl rfl]
  rfl

theorem isLT_of_isLT_left (chain : Chains first second ends) (h₁ : first.isLT = true)
    (h₂ : second.isLE = true) : ends.isLT = true := by
  obtain rfl := isLT_iff.mp h₁
  rw [chain rfl h₂]
  rcases isLE_iff.mp h₂ with rfl | rfl <;> rfl

theorem isLT_of_isLT_right (chain : Chains first second ends) (h₁ : first.isLE = true)
    (h₂ : second.isLT = true) : ends.isLT = true := by
  obtain rfl := isLT_iff.mp h₂
  rw [chain h₁ rfl]
  rcases isLE_iff.mp h₁ with rfl | rfl <;> rfl

end Chains

/-! ## Products of any length -/

theorem conjoinFrom_eq_conjoin (product : Comparison) (components : List Comparison) :
    product.conjoinFrom components = product.conjoin (conjoinAll components) := by
  rw [conjoinAll, conjoinFrom_eq, conjoinFrom_eq]
  induction components generalizing product with
  | nil => simp
  | cons component rest induction =>
      simp only [List.foldl_cons, equal_conjoin]
      rw [induction (product.conjoin component), induction component, conjoin_assoc]

@[simp]
theorem conjoinAll_nil : conjoinAll [] = equal := rfl

/-- The product of a sequence is its head conjoined with the product of the rest. -/
theorem conjoinAll_cons (component : Comparison) (rest : List Comparison) :
    conjoinAll (component :: rest) = component.conjoin (conjoinAll rest) := by
  rw [← conjoinFrom_eq_conjoin, conjoinAll, conjoinFrom_eq, conjoinFrom_eq]
  simp

variable {α : Type} {compare : α → α → Comparison}

@[simp]
theorem pairwise_nil : pairwise compare [] [] = equal := rfl

@[simp]
theorem pairwise_nil_cons (y : α) (ys : List α) :
    pairwise compare [] (y :: ys) = incomparable := rfl

@[simp]
theorem pairwise_cons_nil (x : α) (xs : List α) :
    pairwise compare (x :: xs) [] = incomparable := rfl

/-- Nonempty sequences are compared by their heads and their tails. -/
theorem pairwise_cons_cons (x y : α) (xs ys : List α) :
    pairwise compare (x :: xs) (y :: ys) = (compare x y).conjoin (pairwise compare xs ys) := by
  simp only [pairwise, List.length_cons, Nat.add_right_cancel_iff, List.zipWith_cons_cons]
  split
  · exact conjoinAll_cons _ _
  · cases compare x y <;> rfl

@[simp]
theorem pairwise_singleton (x y : α) : pairwise compare [x] [y] = compare x y := by
  simp [pairwise_cons_cons]

/-- A sequence is equal to itself, if its items are. -/
theorem pairwise_self (xs : List α) (h : ∀ x ∈ xs, compare x x = equal) :
    pairwise compare xs xs = equal := by
  induction xs with
  | nil => rfl
  | cons x xs induction =>
      have tail : pairwise compare xs xs = equal := induction fun x hx => h x (by simp [hx])
      rw [pairwise_cons_cons, h x (by simp), tail]
      rfl

/-- Sequences are compared alike by two rules that agree on their items. -/
theorem pairwise_congr {compare' : α → α → Comparison} (xs ys : List α)
    (h : ∀ x ∈ xs, ∀ y ∈ ys, compare x y = compare' x y) :
    pairwise compare xs ys = pairwise compare' xs ys := by
  induction xs generalizing ys with
  | nil => cases ys <;> rfl
  | cons x xs induction =>
      cases ys with
      | nil => rfl
      | cons y ys =>
          have head : compare x y = compare' x y := h x (by simp) y (by simp)
          have tail : pairwise compare xs ys = pairwise compare' xs ys :=
            induction ys fun x hx y hy => h x (by simp [hx]) y (by simp [hy])
          rw [pairwise_cons_cons, pairwise_cons_cons, head, tail]

/-- Exchanging two sequences exchanges the outcome, if it does so at every pair of items. -/
theorem pairwise_swap (xs ys : List α)
    (h : ∀ x ∈ xs, ∀ y ∈ ys, compare y x = (compare x y).swap) :
    pairwise compare ys xs = (pairwise compare xs ys).swap := by
  induction xs generalizing ys with
  | nil => cases ys <;> rfl
  | cons x xs induction =>
      cases ys with
      | nil => rfl
      | cons y ys =>
          have head : compare y x = (compare x y).swap := h x (by simp) y (by simp)
          have tail : pairwise compare ys xs = (pairwise compare xs ys).swap :=
            induction ys fun x hx y hy => h x (by simp [hx]) y (by simp [hy])
          rw [pairwise_cons_cons, pairwise_cons_cons, swap_conjoin, head, tail]

/-- Sequences chain, if their items do. -/
theorem pairwise_chains (xs ys zs : List α)
    (h : ∀ x ∈ xs, ∀ y ∈ ys, ∀ z ∈ zs, Chains (compare x y) (compare y z) (compare x z)) :
    Chains (pairwise compare xs ys) (pairwise compare ys zs) (pairwise compare xs zs) := by
  induction xs generalizing ys zs with
  | nil =>
      cases ys with
      | nil => exact Chains.equal_left _
      | cons y ys => exact Chains.of_not_first rfl
  | cons x xs induction =>
      cases ys with
      | nil => exact Chains.of_not_first rfl
      | cons y ys =>
          cases zs with
          | nil => exact Chains.of_not_second rfl
          | cons z zs =>
              have heads := h x (by simp) y (by simp) z (by simp)
              have tails := induction ys zs fun x hx y hy z hz =>
                h x (by simp [hx]) y (by simp [hy]) z (by simp [hz])
              simp only [pairwise_cons_cons]
              exact heads.conjoin tails

end Comparison
end ModelLang
