import ModelLang.Comparison

/-!
# Semantic types

Types are ordered by assignability: an integer may stand where a real is expected, and tuples and
signatures are ordered as products of their components.  The placeholder `unknown` is comparable
to nothing, itself included, so the order is reflexive exactly on the types without a placeholder.
-/

namespace ModelLang

/-- The type of an expression. -/
inductive Ty where
  /-- Placeholder of a node whose type is not known. -/
  | unknown
  /-- Type of an empty body. -/
  | void
  | bool
  /-- Integers; assignable to `real`. -/
  | int
  | real
  /-- Ordered product, for instance of a list of arguments. -/
  | tuple (items : List Ty)
  /-- A signature: the product of the parameters and the type of the result. -/
  | function (params result : Ty)
  deriving Inhabited

namespace Ty

/-- The scalar type written with this name; a name is capitalised or all in lower case. -/
def builtin? : String → Option Ty
  | "Void" | "void" => some void
  | "Bool" | "bool" => some bool
  | "Int" | "int" => some int
  | "Real" | "real" => some real
  | _ => none

mutual

/-- A placeholder occurs in the type, at any depth. -/
def hasUnknown : Ty → Bool
  | unknown => true
  | tuple items => anyUnknown items
  | function params result => params.hasUnknown || result.hasUnknown
  | _ => false

/-- A placeholder occurs in one of the types. -/
def anyUnknown : List Ty → Bool
  | [] => false
  | item :: items => item.hasUnknown || anyUnknown items

end

mutual

/-- Assignability of one type to another. -/
def compare : Ty → Ty → Comparison
  | void, void => .equal
  | bool, bool => .equal
  | int, int => .equal
  | int, real => .less
  | real, int => .greater
  | real, real => .equal
  | tuple items, tuple items' =>
      if items.length = items'.length then conjoinItems .equal items items' else .incomparable
  | function params result, function params' result' =>
      (params.compare params').conjoin (result.compare result')
  | _, _ => .incomparable

/-- Add the types at the same positions to a product already compared.  Types after the first
incomparable product are not looked at. -/
def conjoinItems (product : Comparison) : List Ty → List Ty → Comparison
  | item :: items, item' :: items' =>
      match product.conjoin (item.compare item') with
      | .incomparable => .incomparable
      | extended => conjoinItems extended items items'
  | _, _ => product

end

mutual

/-- The type as it is shown in messages and listings. -/
def text : Ty → String
  | unknown => "?"
  | void => "Void"
  | bool => "Bool"
  | int => "Int"
  | real => "Real"
  | tuple items => "(" ++ String.intercalate ", " (itemTexts items) ++ ")"
  | function params result => params.text ++ " -> " ++ result.text

/-- The texts of the types, in order. -/
def itemTexts : List Ty → List String
  | [] => []
  | item :: items => item.text :: itemTexts items

end

/-- One type is assignable to another. -/
instance : LE Ty := ⟨fun a b => (a.compare b).isLE = true⟩

/-- One type is assignable to another, and not the other way round. -/
instance : LT Ty := ⟨fun a b => (a.compare b).isLT = true⟩

instance (a b : Ty) : Decidable (a ≤ b) :=
  inferInstanceAs (Decidable ((a.compare b).isLE = true))

instance (a b : Ty) : Decidable (a < b) :=
  inferInstanceAs (Decidable ((a.compare b).isLT = true))

/-- Types at the same positions are conjoined like any other components. -/
theorem conjoinItems_eq (product : Comparison) (xs ys : List Ty) :
    conjoinItems product xs ys = product.conjoinFrom (List.zipWith compare xs ys) := by
  induction xs generalizing product ys with
  | nil => cases ys <;> rfl
  | cons x xs induction =>
      cases ys with
      | nil => rfl
      | cons y ys =>
          rw [conjoinItems, List.zipWith_cons_cons, Comparison.conjoinFrom]
          cases product.conjoin (x.compare y) with
          | incomparable => rfl
          | less | equal | greater => exact induction _ ys

/-- Tuples are ordered position by position. -/
theorem compare_tuple (xs ys : List Ty) :
    (tuple xs).compare (tuple ys) = Comparison.pairwise compare xs ys := by
  rw [compare, conjoinItems_eq]
  rfl

theorem anyUnknown_eq_any (items : List Ty) : anyUnknown items = items.any hasUnknown := by
  induction items with
  | nil => rfl
  | cons item items induction => simp [anyUnknown, induction]

end Ty

end ModelLang
