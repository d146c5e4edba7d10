import ModelLang.Node.Typing

/-!
# The order of nodes

Nodes of any kinds are compared by one rule.  A node is equal to itself.  Two leaves are compared
by what they stand for: a literal lies below the types its value belongs to, and written types,
parameters and resolved references are compared by type.  Two unresolved references are equal when
they have the same receiver, the same name and equal children; an unresolved reference is
incomparable to everything else.  Sequences, dims and signatures are products of their children,
and are comparable only to nodes of their own kind; names and spans play no part.
-/

namespace ModelLang

/-- What a leaf stands for in a comparison. -/
inductive Leaf where
  /-- A single value. -/
  | value (value : Value)
  /-- Any value of a type. -/
  | ofType (ty : Ty)

/-- A value lies below the types to which its own type is assignable; two values are equal or
incomparable. -/
def Leaf.compare : Leaf → Leaf → Comparison
  | value x, value y => .equalIf (x.same y)
  | value x, ofType ty => if x.ty ≤ ty then .less else .incomparable
  | ofType ty, value y => if y.ty ≤ ty then .greater else .incomparable
  | ofType ty, ofType ty' => ty.compare ty'

namespace Node

/-- What a node stands for as a leaf.  Unresolved references and the other kinds stand for
nothing. -/
def leaf? : Node → Option Leaf
  | literal node => some (.value node.value)
  | typeRef node => some (.ofType node.ty)
  | param node => some (.ofType node.ty)
  | reference node => if node.isResolved then some (.ofType node.ty) else none
  | _ => none

/-- Two nodes compared as leaves. -/
def compareLeaves (a b : Node) : Comparison :=
  match a.leaf?, b.leaf? with
  | some x, some y => x.compare y
  | _, _ => .incomparable

mutual

/-- The comparison of two nodes, where `same` tells which identities are one node. -/
def compareUnder (same : NodeId → NodeId → Bool) (a b : Node) : Comparison :=
  if same a.id b.id then .equal
  else
    match a, b with
    | reference ⟨_, receiver, name, brackets, parens, _, none, _⟩,
        reference ⟨_, receiver', name', brackets', parens', _, none, _⟩ =>
        .equalIf (receiver == receiver' && name == name' &&
          alikeChildUnder same brackets brackets' && alikeChildUnder same parens parens')
    | list ⟨_, items, _⟩, list ⟨_, items', _⟩ =>
        if items.length = items'.length then conjoinItemsUnder same .equal items items'
        else .incomparable
    | block ⟨_, items, _⟩, block ⟨_, items', _⟩ =>
        if items.length = items'.length then conjoinItemsUnder same .equal items items'
        else .incomparable
    | dim ⟨_, _, extent, _⟩, dim ⟨_, _, extent', _⟩ => compareUnder same extent extent'
    | function ⟨_, _, params, body, _⟩, function ⟨_, _, params', body', _⟩ =>
        (compareUnder same params params').conjoin (compareUnder same body body')
    | method ⟨_, _, params, body, _⟩, method ⟨_, _, params', body', _⟩ =>
        (compareUnder same params params').conjoin (compareUnder same body body')
    | a, b => compareLeaves a b

/-- Add the nodes at the same positions to a product already compared.  Nodes after the first
incomparable product are not looked at. -/
def conjoinItemsUnder (same : NodeId → NodeId → Bool) (product : Comparison) :
    List Node → List Node → Comparison
  | item :: items, item' :: items' =>
      match product.conjoin (compareUnder same item item') with
      | .incomparable => .incomparable
      | extended => conjoinItemsUnder same extended items items'
  | _, _ => product

/-- Both children are missing, or both are there and are equal. -/
def alikeChildUnder (same : NodeId → NodeId → Bool) : Option Node → Option Node → Bool
  | none, none => true
  | some child, some child' => (compareUnder same child child').isEq
  | _, _ => false

end

/-- The comparison of two nodes; one identity is one node. -/
def compare (a b : Node) : Comparison :=
  compareUnder (· == ·) a b

instance : LE Node := ⟨fun a b => (a.compare b).isLE = true⟩

instance : LT Node := ⟨fun a b => (a.compare b).isLT = true⟩

/-- Equality in the order, which is coarser than identity. -/
instance : HasEquiv Node := ⟨fun a b => (a.compare b).isEq = true⟩

instance (a b : Node) : Decidable (a ≤ b) :=
  inferInstanceAs (Decidable ((a.compare b).isLE = true))

instance (a b : Node) : Decidable (a < b) :=
  inferInstanceAs (Decidable ((a.compare b).isLT = true))

instance (a b : Node) : Decidable (a ≈ b) :=
  inferInstanceAs (Decidable ((a.compare b).isEq = true))

/-- Nodes at the same positions are conjoined like any other components. -/
theorem conjoinItemsUnder_eq (same : NodeId → NodeId → Bool) (product : Comparison)
    (xs ys : List Node) :
    conjoinItemsUnder same product xs ys =
      product.conjoinFrom (List.zipWith (compareUnder same) xs ys) := by
  induction xs generalizing product ys with
  | nil => cases ys <;> rfl
  | cons x xs induction =>
      cases ys with
      | nil => rfl
      | cons y ys =>
          rw [conjoinItemsUnder, List.zipWith_cons_cons, Comparison.conjoinFrom]
          cases product.conjoin (compareUnder same x y) with
          | incomparable => rfl
          | less | equal | greater => exact induction _ ys

/-- A node is equal to every node of its identity. -/
theorem compare_of_same {a b : Node} (h : a.same b = true) : a.compare b = .equal := by
  have identity : (a.id == b.id) = true := h
  unfold compare compareUnder
  exact if_pos identity

theorem compare_self (a : Node) : a.compare a = .equal :=
  compare_of_same (by simp [same])

end Node

end ModelLang
