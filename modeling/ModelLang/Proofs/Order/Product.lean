import ModelLang.Proofs.Order.Node
import ModelLang.Proofs.Order.Pairwise

/-!
# Compound nodes are ordered as products

Two compound nodes of one kind compare as their children do, position by position, whether they are
one node, share children or share nothing.  Nothing but the children decides, so names and spans
play no part.  Nodes of different kinds are comparable only if both are leaves.
-/

namespace ModelLang

namespace Node

/-! ## The outline of a compound node -/

theorem outline_of_compound {node : Node} (compound : node.kind.isLeaf = false) :
    node.outline = .product node.kind node.children := by
  cases node with
  | literal | typeRef | param | reference => cases compound
  | list | block | dim | function | method => rfl

theorem outline_ne_product {node : Node} (leaf : node.kind.isLeaf = true) (kind : Kind)
    (parts : List Node) : node.outline ≠ .product kind parts := by
  cases node with
  | literal | typeRef | param => simp [outline]
  | reference node =>
      rw [outline]
      split <;> simp
  | list | block | dim | function | method => cases leaf

/-- A compound node is incomparable to a leaf. -/
theorem compareWith_leaf {a b : Node} (compound : a.kind.isLeaf = false)
    (leaf : b.kind.isLeaf = true) (rule : Node → Node → Comparison) :
    a.outline.compareWith rule b.outline = .incomparable := by
  rw [outline_of_compound compound]
  cases outlined : b.outline with
  | leaf | pending => rfl
  | product kind parts => exact absurd outlined (outline_ne_product leaf kind parts)

section Graph

variable (graph : Graph) {a b : Node} (ha : a ∈ graph) (hb : b ∈ graph)
include ha hb

/-- Compound nodes of one kind compare as their children do. -/
theorem compare_eq_pairwise (kinds : a.kind = b.kind) (compound : a.kind.isLeaf = false) :
    a.compare b = .pairwise compare a.children b.children := by
  by_cases same : a.id = b.id
  · obtain rfl : a = b := graph.eq_of_id ha hb same
    rw [compare_self, Comparison.pairwise_self]
    exact fun child _ => compare_self child
  · rw [compare_of_ne same, outline_of_compound compound, outline_of_compound (kinds ▸ compound),
      Outline.compareWith, if_pos kinds]

/-- A compound node lies below another one of its kind if its children lie below the other's. -/
theorem le_iff_children (kinds : a.kind = b.kind) (compound : a.kind.isLeaf = false) :
    a ≤ b ↔ List.Forall₂ (· ≤ ·) a.children b.children := by
  change (a.compare b).isLE = true ↔ _
  rw [compare_eq_pairwise graph ha hb kinds compound]
  exact Comparison.isLE_pairwise _ _

/-- Nodes that compare at all are of one kind, or both are leaves. -/
theorem kinds_of_comparable (comparable : a.compare b ≠ .incomparable) :
    a.kind = b.kind ∨ a.kind.isLeaf = true ∧ b.kind.isLeaf = true := by
  by_cases same : a.id = b.id
  · exact .inl (congrArg kind (graph.eq_of_id ha hb same))
  · cases leaf : a.kind.isLeaf with
    | false =>
        rw [compare_of_ne same] at comparable
        cases leaf' : b.kind.isLeaf with
        | false =>
            rw [outline_of_compound leaf, outline_of_compound leaf', Outline.compareWith]
              at comparable
            left
            by_contra apart
            exact comparable (if_neg apart)
        | true => exact absurd (compareWith_leaf leaf leaf' compare) comparable
    | true =>
        cases leaf' : b.kind.isLeaf with
        | false =>
            rw [compare_swap, compare_of_ne (Ne.symm same), compareWith_leaf leaf' leaf]
              at comparable
            exact absurd rfl comparable
        | true => exact .inr ⟨rfl, rfl⟩

/-- Compound nodes of one kind are below, equal or strictly below each other exactly as the product
of their children says: all children, as many on both sides, are below or equal, and for the strict
order one of them is strictly below.  Another node with the same children compares alike, whatever
its name and span.  Nodes of two kinds compare only if both kinds are leaves. -/
theorem compare_isProduct :
    (a.kind = b.kind → a.kind.isLeaf = false →
      (a ≤ b ↔ List.Forall₂ (· ≤ ·) a.children b.children) ∧
      (a ≈ b ↔ List.Forall₂ (· ≈ ·) a.children b.children) ∧
      (a < b ↔ List.Forall₂ (· ≤ ·) a.children b.children ∧
        ∃ pair ∈ a.children.zip b.children, pair.1 < pair.2) ∧
      ∀ c ∈ graph, c.kind = a.kind → c.children = a.children →
        c.compare b = a.compare b ∧ b.compare c = b.compare a) ∧
    (a.compare b ≠ .incomparable →
      a.kind = b.kind ∨ a.kind.isLeaf = true ∧ b.kind.isLeaf = true) := by
  refine ⟨fun kinds compound => ?_, kinds_of_comparable graph ha hb⟩
  have product := compare_eq_pairwise graph ha hb kinds compound
  refine ⟨le_iff_children graph ha hb kinds compound, ?_, ?_, ?_⟩
  · change (a.compare b).isEq = true ↔ _
    rw [product]
    exact Comparison.isEq_pairwise _ _
  · change (a.compare b).isLT = true ↔ _
    rw [product]
    exact Comparison.isLT_pairwise _ _
  · intro c hc kind children
    have alike : c.compare b = a.compare b := by
      rw [product, compare_eq_pairwise graph hc hb (kind.trans kinds) (kind ▸ compound), children]
    refine ⟨alike, ?_⟩
    rw [compare_swap c b, compare_swap a b, alike]

end Graph

/-! ## Functions with other names and one body -/

namespace SharedBody

open SharedLists hiding graph mem_graph

def body : Node := .block ⟨8, [pending, int], {}⟩
def narrow : Node := .function ⟨9, "f", low, body, { line := 1 }⟩
def wide : Node := .function ⟨10, "g", middle, body, { line := 2 }⟩
def renamed : Node := .function ⟨11, "h", low, body, { line := 3 }⟩

def graph : Graph :=
  .ofList [placeholder, pending, three, int, low, middle, body, narrow, wide, renamed]
    (by simp [placeholder, pending, three, int, low, middle, body, narrow, wide, renamed, children])
    (by decide)

theorem mem_graph : narrow ∈ graph ∧ wide ∈ graph ∧ renamed ∈ graph := by
  refine ⟨?_, ?_, ?_⟩ <;>
    change _ ∈ [placeholder, pending, three, int, low, middle, body, narrow, wide, renamed] <;> simp

end SharedBody

open SharedLists (low middle) in
open SharedBody in
/-- The parameters of one function lie strictly below those of the other, and both have one body,
in which a use site is unresolved; a function of another name compares like the one whose children
it has. -/
theorem compare_isProduct_sharedBody :
    (narrow ∈ graph ∧ wide ∈ graph ∧ renamed ∈ graph) ∧
      (narrow.kind = wide.kind ∧ narrow.kind.isLeaf = false) ∧
      narrow < wide ∧ ¬ narrow ≈ wide ∧ renamed.compare wide = .less ∧
      narrow.compare low = .incomparable := by
  obtain ⟨hn, hw, hr⟩ := mem_graph
  obtain ⟨product, -⟩ := compare_isProduct graph hn hw
  obtain ⟨-, equal_iff, below_iff, alike⟩ := product rfl rfl
  have below : low < middle := by decide
  have strict : narrow < wide := by
    refine below_iff.mpr ⟨?_, (low, middle), List.mem_cons_self, below⟩
    exact .cons (le_of_lt below) (.cons (le_self body) .nil)
  have apart : ¬ low ≈ middle := by decide
  refine ⟨mem_graph, ⟨rfl, rfl⟩, strict, ?_, ?_, ?_⟩
  · intro equal
    exact apart (List.forall₂_cons.mp (equal_iff.mp equal)).1
  · rw [(alike renamed hr rfl rfl).1]
    exact Comparison.isLT_iff.mp strict
  · have inside : low ∈ graph := graph.mem_child hn List.mem_cons_self
    by_contra comparable
    rcases (compare_isProduct graph hn inside).2 comparable with kinds | ⟨leaf, -⟩
    · cases kinds
    · cases leaf

end Node
end ModelLang
