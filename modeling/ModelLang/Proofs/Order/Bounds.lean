import Mathlib.Order.Bounds.Basic
import ModelLang.Proofs.Order.Ty

/-!
# Bounds of types

Assignability only ever widens integers to reals, at any depth.  Types with a common bound therefore
have one shape and differ in their numeric types at most, and taking the wider or the narrower one
wherever they differ gives the least upper and the greatest lower bound.  Exchanging the two numeric
types turns the order upside down, so only upper bounds need a construction.
-/

namespace ModelLang
namespace Ty

/-- What assignability of one type to another says of their components. -/
inductive Widens : Ty → Ty → Prop
  | void : Widens void void
  | bool : Widens bool bool
  | int : Widens int int
  | real : Widens real real
  | number : Widens int real
  | tuple {items items' : List Ty} :
      List.Forall₂ (· ≤ ·) items items' → Widens (tuple items) (tuple items')
  | function {params params' result result' : Ty} :
      params ≤ params' → result ≤ result' → Widens (function params result) (function params' result')

theorem widens_of_le {a b : Ty} (below : a ≤ b) : Widens a b := by
  cases a with
  | unknown => cases below
  | void =>
      cases b with
      | void => exact .void
      | _ => cases below
  | bool =>
      cases b with
      | bool => exact .bool
      | _ => cases below
  | int =>
      cases b with
      | int => exact .int
      | real => exact .number
      | _ => cases below
  | real =>
      cases b with
      | real => exact .real
      | _ => cases below
  | tuple items =>
      cases b with
      | tuple items' => exact .tuple ((tuple_le_iff items items').mp below)
      | _ => cases below
  | function params result =>
      cases b with
      | function params' result' =>
          obtain ⟨params_le, result_le⟩ := (function_le_iff params params' result result').mp below
          exact .function params_le result_le
      | _ => cases below

/-! ## Replacing the numeric types -/

mutual

/-- The type with others in place of its numeric types, at any depth. -/
def withNumbers (forInt forReal : Ty) : Ty → Ty
  | unknown => unknown
  | void => void
  | bool => bool
  | int => forInt
  | real => forReal
  | tuple items => tuple (itemsWithNumbers forInt forReal items)
  | function params result =>
      function (withNumbers forInt forReal params) (withNumbers forInt forReal result)

/-- The same for each of the types. -/
def itemsWithNumbers (forInt forReal : Ty) : List Ty → List Ty
  | [] => []
  | item :: items => withNumbers forInt forReal item :: itemsWithNumbers forInt forReal items

end

theorem withNumbers_tuple (forInt forReal : Ty) (items : List Ty) :
    withNumbers forInt forReal (tuple items) = tuple (items.map (withNumbers forInt forReal)) := by
  rw [withNumbers, tuple.injEq]
  induction items with
  | nil => rfl
  | cons item items induction => rw [itemsWithNumbers, induction, List.map_cons]

theorem withNumbers_function (forInt forReal params result : Ty) :
    withNumbers forInt forReal (function params result) =
      function (withNumbers forInt forReal params) (withNumbers forInt forReal result) := by
  rw [withNumbers]

theorem withNumbers_self (ty : Ty) : withNumbers int real ty = ty := by
  induction ty using induct with
  | unknown | void | bool | int | real => rfl
  | tuple items items_self =>
      rw [withNumbers_tuple, List.map_congr_left items_self, List.map_id']
  | function params result params_self result_self =>
      rw [withNumbers_function, params_self, result_self]

/-- Replacing the numeric types turns the order upside down, if it does so for these types. -/
theorem withNumbers_le {forInt forReal forInt' forReal' : Ty} (ints : forInt ≤ forInt')
    (reals : forReal ≤ forReal') (numbers : forReal ≤ forInt') {a b : Ty} (below : a ≤ b) :
    withNumbers forInt forReal b ≤ withNumbers forInt' forReal' a := by
  induction b using induct generalizing a with
  | unknown => cases widens_of_le below
  | void | bool =>
      cases widens_of_le below
      exact le_self rfl
  | int =>
      cases widens_of_le below
      exact ints
  | real =>
      cases widens_of_le below with
      | real => exact reals
      | number => exact numbers
  | tuple items items_le =>
      cases widens_of_le below with
      | tuple related =>
          rw [withNumbers_tuple, withNumbers_tuple, tuple_le_iff, List.forall₂_map_left_iff,
            List.forall₂_map_right_iff]
          exact (forall₂_imp_of_mem related fun _ _ item member item_le =>
            items_le item member item_le).flip
  | function params result params_le result_le =>
      cases widens_of_le below with
      | function params_below result_below =>
          rw [withNumbers_function, withNumbers_function, function_le_iff]
          exact ⟨params_le params_below, result_le result_below⟩

/-- The type with its numeric types exchanged. -/
def mirror (ty : Ty) : Ty :=
  withNumbers real int ty

/-- The type with integers in place of its reals. -/
def narrowest (ty : Ty) : Ty :=
  withNumbers int int ty

@[simp]
theorem mirror_mirror (ty : Ty) : ty.mirror.mirror = ty := by
  simp only [mirror]
  induction ty using induct with
  | unknown | void | bool | int | real => rfl
  | tuple items items_mirror =>
      rw [withNumbers_tuple, withNumbers_tuple, List.map_map, tuple.injEq]
      exact (List.map_congr_left items_mirror).trans (List.map_id items)
  | function params result params_mirror result_mirror =>
      rw [withNumbers_function, withNumbers_function, params_mirror, result_mirror]

theorem mirror_le_mirror_iff {a b : Ty} : a.mirror ≤ b.mirror ↔ b ≤ a := by
  have mirror_le {a b : Ty} (below : a ≤ b) : b.mirror ≤ a.mirror :=
    withNumbers_le (by decide) (by decide) (by decide) below
  refine ⟨fun below => ?_, mirror_le⟩
  rw [← mirror_mirror a, ← mirror_mirror b]
  exact mirror_le below

/-- All types below a type lie above the narrowest type of its shape. -/
theorem narrowest_le {a b : Ty} (below : a ≤ b) : b.narrowest ≤ a := by
  rw [← withNumbers_self a]
  exact withNumbers_le (by decide) (by decide) (by decide) below

/-! ## Joins -/

mutual

/-- The wider numeric type wherever two types of one shape differ; a placeholder stands where their
shapes differ. -/
def join : Ty → Ty → Ty
  | void, void => void
  | bool, bool => bool
  | int, int => int
  | int, real => real
  | real, int => real
  | real, real => real
  | tuple items, tuple items' =>
      if items.length = items'.length then tuple (joinItems items items') else unknown
  | function params result, function params' result' =>
      function (params.join params') (result.join result')
  | _, _ => unknown

/-- The joins of the types at the same positions. -/
def joinItems : List Ty → List Ty → List Ty
  | item :: items, item' :: items' => item.join item' :: joinItems items items'
  | _, _ => []

end

/-- The narrower numeric type wherever two types of one shape differ. -/
def meet (a b : Ty) : Ty :=
  (a.mirror.join b.mirror).mirror

theorem join_function (params params' result result' : Ty) :
    (function params result).join (function params' result') =
      function (params.join params') (result.join result') := by
  rw [join]

/-- Joins of items are below the bounds that they have in common. -/
theorem joinItems_le {items items' bounds : List Ty}
    (join_le : ∀ bound ∈ bounds, ∀ a b : Ty, a ≤ bound → b ≤ bound → a.join b ≤ bound)
    (left : List.Forall₂ (· ≤ ·) items bounds) (right : List.Forall₂ (· ≤ ·) items' bounds) :
    List.Forall₂ (· ≤ ·) (joinItems items items') bounds := by
  induction left generalizing items' with
  | nil => exact .nil
  | cons item_le _ induction =>
      cases right with
      | cons item_le' right =>
          rw [List.forall_mem_cons] at join_le
          exact .cons (join_le.1 _ _ item_le item_le') (induction join_le.2 right)

/-- A join is below every upper bound. -/
theorem join_le {a b bound : Ty} (left : a ≤ bound) (right : b ≤ bound) : a.join b ≤ bound := by
  induction bound using induct generalizing a b with
  | unknown => cases widens_of_le left
  | void | bool | int | real =>
      cases widens_of_le left <;> cases widens_of_le right <;> decide
  | tuple bounds items_join =>
      cases widens_of_le left with
      | @tuple items _ left =>
          cases widens_of_le right with
          | @tuple items' _ right =>
              have lengths : items.length = items'.length :=
                left.length_eq.trans right.length_eq.symm
              rw [join, if_pos lengths, tuple_le_iff]
              exact joinItems_le (fun bound member _ _ => items_join bound member) left right
  | function params result params_join result_join =>
      cases widens_of_le left with
      | function params_le result_le =>
          cases widens_of_le right with
          | function params_le' result_le' =>
              rw [join_function, function_le_iff]
              exact ⟨params_join params_le params_le', result_join result_le result_le'⟩

/-- Joins of items are above the items, if they have no placeholder. -/
theorem le_joinItems {items items' : List Ty} (lengths : items.length = items'.length)
    (le_join : ∀ item ∈ items, ∀ item' : Ty, (item.join item').hasUnknown = false →
      item ≤ item.join item' ∧ item' ≤ item.join item')
    (known : ∀ item ∈ joinItems items items', item.hasUnknown = false) :
    List.Forall₂ (· ≤ ·) items (joinItems items items') ∧
      List.Forall₂ (· ≤ ·) items' (joinItems items items') := by
  induction items generalizing items' with
  | nil =>
      obtain rfl := List.eq_nil_of_length_eq_zero lengths.symm
      exact ⟨.nil, .nil⟩
  | cons item items induction =>
      cases items' with
      | nil => cases lengths
      | cons item' items' =>
          rw [joinItems, List.forall_mem_cons] at known
          rw [List.forall_mem_cons] at le_join
          obtain ⟨left, right⟩ := le_join.1 item' known.1
          obtain ⟨lefts, rights⟩ := induction (Nat.succ.inj lengths) le_join.2 known.2
          exact ⟨.cons left lefts, .cons right rights⟩

/-- A join without a placeholder is above both types. -/
theorem le_join {a b : Ty} (known : (a.join b).hasUnknown = false) :
    a ≤ a.join b ∧ b ≤ a.join b := by
  induction a using induct generalizing b with
  | unknown => cases b <;> cases known
  | void | bool | int | real =>
      cases b <;> first | cases known; done | exact ⟨by decide, by decide⟩
  | tuple items items_join =>
      cases b with
      | tuple items' =>
          by_cases lengths : items.length = items'.length
          · rw [join, if_pos lengths, hasUnknown_tuple] at known
            rw [join, if_pos lengths, tuple_le_iff, tuple_le_iff]
            exact le_joinItems lengths (fun item member _ => items_join item member) known
          · rw [join, if_neg lengths] at known
            cases known
      | _ => cases known
  | function params result params_join result_join =>
      cases b with
      | function params' result' =>
          rw [join_function, hasUnknown_function] at known
          obtain ⟨params_le, params_le'⟩ := params_join known.1
          obtain ⟨result_le, result_le'⟩ := result_join known.2
          rw [join_function, function_le_iff, function_le_iff]
          exact ⟨⟨params_le, result_le⟩, params_le', result_le'⟩
      | _ => cases known

/-! ## Bounds -/

section Bounds

variable {a b bound : Ty}

theorem mem_upperBounds_pair : bound ∈ upperBounds {a, b} ↔ a ≤ bound ∧ b ≤ bound := by
  simp [upperBounds]

theorem mem_lowerBounds_pair : bound ∈ lowerBounds {a, b} ↔ bound ≤ a ∧ bound ≤ b := by
  simp [lowerBounds]

/-- What bounds two types from above bounds them from below, once the numeric types are
exchanged. -/
theorem mirror_mem_upperBounds :
    bound.mirror ∈ upperBounds {a.mirror, b.mirror} ↔ bound ∈ lowerBounds {a, b} := by
  rw [mem_upperBounds_pair, mem_lowerBounds_pair, mirror_le_mirror_iff, mirror_le_mirror_iff]

/-- Two types have an upper bound if and only if their join has no placeholder. -/
theorem bddAbove_iff_join : BddAbove {a, b} ↔ (a.join b).hasUnknown = false := by
  constructor
  · rintro ⟨bound, above⟩
    rw [mem_upperBounds_pair] at above
    exact known_of_isComparable (Comparison.isComparable_of_isLE (join_le above.1 above.2))
  · intro known
    exact ⟨a.join b, mem_upperBounds_pair.mpr (le_join known)⟩

theorem isLUB_join (bounded : BddAbove {a, b}) : IsLUB {a, b} (a.join b) := by
  refine ⟨mem_upperBounds_pair.mpr (le_join (bddAbove_iff_join.mp bounded)), ?_⟩
  intro bound above
  rw [mem_upperBounds_pair] at above
  exact join_le above.1 above.2

/-- Types with an upper bound lie above the narrowest type of its shape. -/
theorem bddBelow_of_bddAbove (bounded : BddAbove {a, b}) : BddBelow {a, b} := by
  obtain ⟨bound, above⟩ := bounded
  rw [mem_upperBounds_pair] at above
  exact ⟨bound.narrowest,
    mem_lowerBounds_pair.mpr ⟨narrowest_le above.1, narrowest_le above.2⟩⟩

theorem bddAbove_mirror_iff : BddAbove {a.mirror, b.mirror} ↔ BddBelow {a, b} := by
  constructor
  · rintro ⟨bound, above⟩
    rw [← mirror_mirror bound, mirror_mem_upperBounds] at above
    exact ⟨bound.mirror, above⟩
  · rintro ⟨bound, below⟩
    exact ⟨bound.mirror, mirror_mem_upperBounds.mpr below⟩

theorem isGLB_meet (bounded : BddBelow {a, b}) : IsGLB {a, b} (a.meet b) := by
  obtain ⟨above, least⟩ := isLUB_join (bddAbove_mirror_iff.mpr bounded)
  constructor
  · rw [← mirror_mem_upperBounds, meet, mirror_mirror]
    exact above
  · intro bound below
    rw [← mirror_le_mirror_iff, meet, mirror_mirror]
    exact least (mirror_mem_upperBounds.mpr below)

end Bounds

/-- Two types have a common upper bound if and only if they have a common lower bound, and then they
have a least upper and a greatest lower bound.  Types with a placeholder have no bounds. -/
theorem bounds_of_compatible (a b : Ty) :
    (BddAbove {a, b} ↔ BddBelow {a, b}) ∧
      (BddAbove {a, b} → IsLUB {a, b} (a.join b) ∧ IsGLB {a, b} (a.meet b)) := by
  refine ⟨⟨bddBelow_of_bddAbove, ?_⟩, ?_⟩
  · intro bounded
    have mirrored : BddBelow {a.mirror, b.mirror} :=
      bddBelow_of_bddAbove (bddAbove_mirror_iff.mpr bounded)
    rw [← bddAbove_mirror_iff, mirror_mirror, mirror_mirror] at mirrored
    exact mirrored
  · intro bounded
    exact ⟨isLUB_join bounded, isGLB_meet (bddBelow_of_bddAbove bounded)⟩

/-! ## Signatures that differ in two parameters -/

namespace MixedParameters

def intReal : Ty := function (tuple [int, real]) int
def realInt : Ty := function (tuple [real, int]) int
def wider : Ty := function (tuple [real, real]) int
def narrower : Ty := function (tuple [int, int]) int

end MixedParameters

open MixedParameters in
/-- Neither signature is assignable to the other; they have bounds, and a boolean and an integer, as
components of tuples, have none. -/
theorem bounds_of_compatible_mixedParameters :
    intReal.compare realInt = .incomparable ∧ BddAbove {intReal, realInt} ∧
      IsLUB {intReal, realInt} wider ∧ IsGLB {intReal, realInt} narrower ∧
      ¬ BddBelow {tuple [bool], tuple [int]} := by
  have above : intReal ≤ wider ∧ realInt ≤ wider := ⟨by decide, by decide⟩
  have bounded : BddAbove {intReal, realInt} := ⟨wider, mem_upperBounds_pair.mpr above⟩
  obtain ⟨least, greatest⟩ := (bounds_of_compatible intReal realInt).2 bounded
  refine ⟨by decide, bounded, least, greatest, fun below => ?_⟩
  have compatible := (bounds_of_compatible (tuple [bool]) (tuple [int])).1.mpr below
  cases bddAbove_iff_join.mp compatible

end Ty
end ModelLang
