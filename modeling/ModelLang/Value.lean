import ModelLang.Binary64
import ModelLang.Ty

/-!
# Values of literals

A literal holds an integer, a real or a boolean.  Values of different types are never equal, so
`3` and `3.0` are two values, and they are written differently.
-/

namespace ModelLang

/-- The value of a literal. -/
inductive Value where
  | int (value : Int)
  | real (value : Binary64)
  | bool (value : Bool)
  deriving DecidableEq, Repr

namespace Value

/-- The type of a value. -/
def ty : Value → Ty
  | int _ => .int
  | real _ => .real
  | bool _ => .bool

/-- Equality of typed values; reals are equal as numbers. -/
def same : Value → Value → Bool
  | int x, int y => x == y
  | real x, real y => x.same y
  | bool x, bool y => x == y
  | _, _ => false

/-- The value as it is written. -/
def text : Value → String
  | int value => toString value
  | real value => value.text
  | bool true => "true"
  | bool false => "false"

@[simp]
theorem same_refl (value : Value) : value.same value = true := by
  cases value <;> simp [same]

theorem same_comm (x y : Value) : x.same y = y.same x := by
  cases x <;> cases y <;> simp [same, Binary64.same_comm, BEq.comm]

theorem same_trans {x y z : Value} (h₁ : x.same y = true) (h₂ : y.same z = true) :
    x.same z = true := by
  cases x <;> cases y <;> cases z <;> simp_all [same]
  exact Binary64.same_trans h₁ h₂

/-- Equal values have one type. -/
theorem ty_eq_of_same {x y : Value} (h : x.same y = true) : x.ty = y.ty := by
  cases x <;> cases y <;> simp_all [same, ty]

end Value

end ModelLang
