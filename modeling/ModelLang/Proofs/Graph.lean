import Mathlib.Data.List.Nodup
import ModelLang.Node.Basic

/-!
# Graphs of nodes

A node is unfolded into a tree whose nodes bear identities, so a shared node occurs in it once for
each path that leads there.  A graph is a collection of nodes in which that unfolding is faithful:
it holds the children of its nodes, and one identity stands for one node.  Acyclicity needs no
condition of its own, since every node is a finite tree.
-/

namespace ModelLang

namespace Node

/-- A node is larger than its children. -/
theorem sizeOf_child_lt {node child : Node} (h : child ∈ node.children) :
    sizeOf child < sizeOf node := by
  cases node with
  | literal | typeRef => simp [children] at h
  | param node =>
      obtain ⟨id, name, typeRef, span⟩ := node
      simp only [children, List.mem_singleton] at h
      subst h
      simp
      omega
  | reference node =>
      obtain ⟨id, receiver, name, brackets, parens, ty, target, span⟩ := node
      simp only [children, List.mem_append, Option.mem_toList] at h
      rcases h with rfl | rfl <;> simp <;> omega
  | list node | block node =>
      obtain ⟨id, items, span⟩ := node
      have smaller : sizeOf child < sizeOf items := List.sizeOf_lt_of_mem h
      simp
      omega
  | dim node =>
      obtain ⟨id, name, extent, span⟩ := node
      simp only [children, List.mem_singleton] at h
      subst h
      simp
      omega
  | function node | method node =>
      obtain ⟨id, name, params, body, span⟩ := node
      simp only [children, List.mem_cons, List.not_mem_nil, or_false] at h
      rcases h with rfl | rfl <;> simp <;> omega

/-- A property of nodes holds of all of them, if it passes from the children of a node to the
node. -/
theorem induct {P : Node → Prop} (step : ∀ node, (∀ child ∈ node.children, P child) → P node)
    (node : Node) : P node :=
  step node fun child _ => induct step child
termination_by sizeOf node
decreasing_by exact sizeOf_child_lt ‹_›

end Node

/-- Nodes with sharing: a collection that holds the children of its nodes, and in which an identity
stands for one node. -/
structure Graph where
  /-- The nodes of the graph. -/
  Holds : Node → Prop
  holds_child : ∀ {node child : Node}, Holds node → child ∈ node.children → Holds child
  eq_of_id_eq : ∀ {a b : Node}, Holds a → Holds b → a.id = b.id → a = b

namespace Graph

instance : Membership Node Graph := ⟨Holds⟩

variable {graph : Graph}

theorem mem_child {node child : Node} (h : node ∈ graph) (below : child ∈ node.children) :
    child ∈ graph :=
  graph.holds_child h below

theorem eq_of_id {a b : Node} (ha : a ∈ graph) (hb : b ∈ graph) (h : a.id = b.id) : a = b :=
  graph.eq_of_id_eq ha hb h

/-- The graph of finitely many nodes with different identities. -/
def ofList (nodes : List Node) (closed : ∀ node ∈ nodes, ∀ child ∈ node.children, child ∈ nodes)
    (distinct : (nodes.map Node.id).Nodup) : Graph where
  Holds node := node ∈ nodes
  holds_child inside below := closed _ inside _ below
  eq_of_id_eq ha hb h := List.inj_on_of_nodup_map distinct ha hb h

end Graph

end ModelLang
