import ModelLang.Proofs.Graph

/-!
# What a declaration contains

The names in the extent of a dim and in the body of a signature are looked up in the context of
that declaration.  The context reaches through sequences and through the brackets and parentheses
of use sites, and ends at a nested declaration, whose contents have a context of their own.
-/

namespace ModelLang

namespace Node

/-- The children that share the context of a node. -/
def locals : Node → List Node
  | reference node => node.brackets.toList ++ node.parens.toList
  | list node => node.items
  | block node => node.items
  | _ => []

/-- The extent of a dim, or the body of a signature. -/
def contents? : Node → Option Node
  | dim node => some node.extent
  | function node => some node.body
  | method node => some node.body
  | _ => none

/-- The parameters that a declaration binds in its contents. -/
def formals : Node → List Param
  | function node => node.formals
  | method node => node.formals
  | _ => []

/-- One node leads to another inside one context. -/
inductive Reaches : Node → Node → Prop
  | self (node : Node) : node.Reaches node
  | step {node child inner : Node} :
      child ∈ node.locals → child.Reaches inner → node.Reaches inner

/-- The node at a path of indices, inside one context. -/
def local? : Node → List Nat → Option Node
  | node, [] => some node
  | node, index :: path => node.locals[index]?.bind (local? · path)

/-- A node has its context from a declaration. -/
def Encloses (declaration inner : Node) : Prop :=
  ∃ contents, declaration.contents? = some contents ∧ contents.Reaches inner

theorem mem_children_of_contents? {node contents : Node} (h : node.contents? = some contents) :
    contents ∈ node.children := by
  cases node <;> simp_all [contents?, children]

theorem mem_children_of_mem_locals {node child : Node} (h : child ∈ node.locals) :
    child ∈ node.children := by
  cases node <;> simp_all [locals, children]

@[simp]
theorem contents?_signature {c : Callable} (signature : Signature c) :
    signature.node.contents? = some signature.body := by
  cases c <;> rfl

@[simp]
theorem formals_signature {c : Callable} (signature : Signature c) :
    signature.node.formals = signature.formals := by
  cases c <;> rfl

/-- A node whose children have other contexts leads only to itself. -/
theorem Reaches.eq_of_locals_eq_nil {node inner : Node} (reaches : node.Reaches inner)
    (alone : node.locals = []) : inner = node := by
  cases reaches with
  | self => rfl
  | step here _ => simp [alone] at here

/-- What stands in the contents of a declaration is a child of a node of the graph. -/
theorem Encloses.exists_parent {graph : Graph} {declaration inner : Node}
    (encloses : declaration.Encloses inner) (inside : declaration ∈ graph) :
    ∃ parent ∈ graph, inner ∈ parent.children := by
  obtain ⟨contents, isContents, reaches⟩ := encloses
  have below := mem_children_of_contents? isContents
  clear isContents
  induction reaches generalizing declaration with
  | self => exact ⟨declaration, inside, below⟩
  | @step node child inner here _ induction =>
      exact induction (graph.mem_child inside below) (mem_children_of_mem_locals here)

theorem Encloses.mem_graph {graph : Graph} {declaration inner : Node}
    (encloses : declaration.Encloses inner) (inside : declaration ∈ graph) : inner ∈ graph := by
  obtain ⟨parent, member, below⟩ := encloses.exists_parent inside
  exact graph.mem_child member below

end Node

/-- The declarations that are met from some nodes: those nested in one that is met, and the targets
of its use sites. -/
inductive Linked (roots : List Node) : Node → Prop
  | root {node : Node} : node ∈ roots → Linked roots node
  | nested {outer inner : Node} : Linked roots outer → outer.Encloses inner → Linked roots inner
  | target {user : Node} {site : Reference} {target : Target} :
      Linked roots user → user.Encloses (.reference site) → site.target = some target →
        Linked roots target.node

end ModelLang
