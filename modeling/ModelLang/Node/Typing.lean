import ModelLang.Node.Basic

/-!
# The type of a node

Types are computed from what a node carries: a literal has the type of its value, a reference the
type it was resolved to, a list the product of its items, a block the type of its last item, and a
signature the type of its parameters and body.  A dim indexes with integers, whatever its extent.
-/

namespace ModelLang

/-- The declared type of a parameter. -/
def Param.ty (param : Param) : Ty :=
  param.typeRef.ty

namespace Node

mutual

/-- The type of a node. -/
def ty : Node → Ty
  | literal node => node.value.ty
  | typeRef node => node.ty
  | param node => node.ty
  | reference node => node.ty
  | list ⟨_, items, _⟩ => .tuple (itemTypes items)
  | block ⟨_, items, _⟩ => lastType .void items
  | dim _ => .int
  | function ⟨_, _, params, body, _⟩ => .function params.ty body.ty
  | method ⟨_, _, params, body, _⟩ => .function params.ty body.ty

/-- The types of the nodes, in order. -/
def itemTypes : List Node → List Ty
  | [] => []
  | item :: items => item.ty :: itemTypes items

/-- The type of the last node, or `fallback` when there is none. -/
def lastType (fallback : Ty) : List Node → Ty
  | [] => fallback
  | [item] => item.ty
  | _ :: items => lastType fallback items

end

theorem itemTypes_eq_map (items : List Node) : itemTypes items = items.map ty := by
  induction items with
  | nil => rfl
  | cons item items induction => simp [itemTypes, induction]

theorem lastType_eq_getLast? (fallback : Ty) (items : List Node) :
    lastType fallback items = (items.getLast?.map ty).getD fallback := by
  induction items with
  | nil => rfl
  | cons item items induction =>
      cases items with
      | nil => rfl
      | cons next items => simpa [lastType] using induction

/-- A list has the product of the types of its items. -/
theorem ty_list (node : Sequence) : (list node).ty = .tuple (node.items.map ty) := by
  rw [← itemTypes_eq_map]
  rfl

/-- A block has the type of its last item. -/
theorem ty_block (node : Sequence) :
    (block node).ty = (node.items.getLast?.map ty).getD .void := by
  rw [← lastType_eq_getLast?]
  rfl

/-- A signature has the type of its parameters and its body. -/
theorem ty_signature {c : Callable} (signature : Signature c) :
    signature.node.ty = .function signature.params.ty signature.body.ty := by
  cases c <;> rfl

end Node

end ModelLang
