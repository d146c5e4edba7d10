/-!
# Comparisons in a partial order

Two things compared in a partial order are less, equal, greater or incomparable.  The order of a
product is the conjunction of its components: equal components do not matter, strict components
must agree, and one incomparable component makes the product incomparable.  The central statement
is that the conjunction is a commutative monoid with `incomparable` as its zero, so a product may
be compared from left to right and abandoned as soon as the zero is reached.
-/

namespace ModelLang

/-- The outcome of comparing two elements of a partial order. -/
inductive Comparison where
  | less
  | equal
  | greater
  | incomparable
  deriving DecidableEq, Repr

namespace Comparison

/-- Strictly below. -/
def isLT : Comparison → Bool
  | less => true
  | _ => false

/-- Below or equal. -/
def isLE : Comparison → Bool
  | less | equal => true
  | _ => false

/-- Strictly above. -/
def isGT : Comparison → Bool
  | greater => true
  | _ => false

/-- Above or equal. -/
def isGE : Comparison → Bool
  | greater | equal => true
  | _ => false

/-- Equal in the order. -/
def isEq : Comparison → Bool
  | equal => true
  | _ => false

/-- Ordered in one of the two directions, or equal. -/
def isComparable : Comparison → Bool
  | incomparable => false
  | _ => true

/-- The outcome with the two sides exchanged. -/
def swap : Comparison → Comparison
  | less => greater
  | equal => equal
  | greater => less
  | incomparable => incomparable

/-- Equality when the test holds, and no relation otherwise. -/
def equalIf (test : Bool) : Comparison :=
  if test then equal else incomparable

/-- The outcome for a product of two components. -/
def conjoin : Comparison → Comparison → Comparison
  | equal, other => other
  | other, equal => other
  | less, less => less
  | greater, greater => greater
  | _, _ => incomparable

/-- Add components to a product already compared, stopping as soon as the product is
incomparable. -/
def conjoinFrom (product : Comparison) : List Comparison → Comparison
  | [] => product
  | component :: rest =>
      match product.conjoin component with
      | incomparable => incomparable
      | extended => extended.conjoinFrom rest

/-- How many components `conjoinFrom` looks at. -/
def inspectedFrom (product : Comparison) : List Comparison → Nat
  | [] => 0
  | component :: rest =>
      match product.conjoin component with
      | incomparable => 1
      | extended => extended.inspectedFrom rest + 1

/-- The outcome for a product of any number of components; the empty product is equal to itself. -/
def conjoinAll (components : List Comparison) : Comparison :=
  equal.conjoinFrom components

/-- How many components decide `conjoinAll`: all of them, or those up to the first incomparable
product. -/
def inspected (components : List Comparison) : Nat :=
  equal.inspectedFrom components

/-- Compare two sequences position by position; sequences of different lengths are incomparable. -/
def pairwise {α : Type} (compare : α → α → Comparison) (xs ys : List α) : Comparison :=
  if xs.length = ys.length then conjoinAll (List.zipWith compare xs ys) else incomparable

/-- How many positions `pairwise` compares: none when the lengths differ. -/
def pairwiseInspected {α : Type} (compare : α → α → Comparison) (xs ys : List α) : Nat :=
  if xs.length = ys.length then inspected (List.zipWith compare xs ys) else 0

@[simp]
theorem equal_conjoin (c : Comparison) : equal.conjoin c = c := by
  cases c <;> rfl

@[simp]
theorem conjoin_equal (c : Comparison) : c.conjoin equal = c := by
  cases c <;> rfl

@[simp]
theorem incomparable_conjoin (c : Comparison) : incomparable.conjoin c = incomparable := by
  cases c <;> rfl

theorem conjoin_comm (a b : Comparison) : a.conjoin b = b.conjoin a := by
  cases a <;> cases b <;> rfl

theorem conjoin_assoc (a b c : Comparison) :
    (a.conjoin b).conjoin c = a.conjoin (b.conjoin c) := by
  cases a <;> cases b <;> cases c <;> rfl

theorem swap_conjoin (a b : Comparison) : (a.conjoin b).swap = a.swap.conjoin b.swap := by
  cases a <;> cases b <;> rfl

/-- Stopping early does not change the outcome: the product of a sequence is its head conjoined
with the product of the rest. -/
theorem conjoinFrom_eq (product : Comparison) (components : List Comparison) :
    product.conjoinFrom components = components.foldl conjoin product := by
  induction components generalizing product with
  | nil => rfl
  | cons component rest induction =>
      have absorbed : ∀ cs : List Comparison, cs.foldl conjoin incomparable = incomparable := by
        intro cs
        induction cs with
        | nil => rfl
        | cons c cs tail => simpa using tail
      simp only [conjoinFrom, List.foldl_cons]
      cases extended : product.conjoin component with
      | incomparable => exact (absorbed rest).symm
      | less | equal | greater => exact induction _

end Comparison

end ModelLang
