import ModelLang.Node.Order
import ModelLang.Proofs.Graph
import ModelLang.Proofs.Order.Ty

/-!
# The order of nodes is a partial order

Apart from identity, a comparison only sees the *outline* of a node: a leaf with what it stands
for, an unresolved use site with its spelling, or a product of children of one kind.  Different
outlines are incomparable, so the laws of the order are proved once for each of the three, by
induction on the children, and the identity test is compatible with them because an identity
stands for one node.
-/

namespace ModelLang

namespace Leaf

/-- Exchanging two leaves exchanges the outcome of comparing them. -/
theorem compare_swap (x y : Leaf) : y.compare x = (x.compare y).swap := by
  cases x <;> cases y <;> simp only [compare]
  case value.value x y => rw [Comparison.swap_equalIf, Value.same_comm]
  case ofType.ofType s t => exact Ty.compare_swap s t
  all_goals split <;> rfl

theorem isLE_value_ofType {value : Value} {ty : Ty} :
    ((Leaf.value value).compare (.ofType ty)).isLE = true ↔ value.ty ≤ ty := by
  simp only [compare]
  split <;> simp_all [Comparison.isLE]

theorem isLE_ofType_value (ty : Ty) (value : Value) :
    ((Leaf.ofType ty).compare (.value value)).isLE = false := by
  simp only [compare]
  split <;> rfl

/-- Leaves in a chain: a value passes its types upwards along assignability, and no type lies below
a value. -/
theorem compare_chains (x y z : Leaf) :
    Comparison.Chains (x.compare y) (y.compare z) (x.compare z) := by
  cases x with
  | value x =>
      cases y with
      | value y =>
          cases z with
          | value z => exact .equalIf Value.same_trans
          | ofType t =>
              intro equal _
              have alike : x.same y = true := by
                simpa only [compare, Comparison.isLE_equalIf] using equal
              have values : (Leaf.value x).compare (.value y) = .equal := by
                simp [compare, Comparison.equalIf, alike]
              rw [values, Comparison.equal_conjoin]
              simp only [compare, Value.ty_eq_of_same alike]
      | ofType t =>
          cases z with
          | value z => exact .of_not_second (isLE_ofType_value t z)
          | ofType u =>
              intro below assignable
              have below : x.ty ≤ t := isLE_value_ofType.mp below
              have above : x.ty ≤ u := Ty.le_trans below assignable
              have product : Comparison.less.conjoin (t.compare u) = .less := by
                change (t.compare u).isLE = true at assignable
                rcases Comparison.isLE_iff.mp assignable with h | h <;> rw [h] <;> rfl
              simp only [compare, below, above, if_true]
              exact product.symm
  | ofType s =>
      cases y with
      | value y => exact .of_not_first (isLE_ofType_value s y)
      | ofType t =>
          cases z with
          | value z => exact .of_not_second (isLE_ofType_value t z)
          | ofType u => exact Ty.compare_chains s t u

end Leaf

/-- What a comparison sees of a node, apart from its identity. -/
inductive Outline where
  /-- A value or the values of a type. -/
  | leaf (leaf : Leaf)
  /-- An unresolved use site. -/
  | pending (receiver : Option String) (name : String) (brackets parens : Option Node)
  /-- A sequence, dim or signature as the product of its children. -/
  | product (kind : Kind) (parts : List Node)

namespace Outline

/-- The nodes of an outline. -/
def parts : Outline → List Node
  | leaf _ => []
  | pending _ _ brackets parens => brackets.toList ++ parens.toList
  | product _ parts => parts

/-- The comparison of two outlines, given the comparison of nodes below them. -/
def compareWith (compare : Node → Node → Comparison) : Outline → Outline → Comparison
  | leaf x, leaf y => x.compare y
  | pending receiver name brackets parens, pending receiver' name' brackets' parens' =>
      .equalIf (receiver == receiver' && name == name' &&
        sameBy compare brackets brackets' && sameBy compare parens parens')
  | product kind parts, product kind' parts' =>
      if kind = kind' then .pairwise compare parts parts' else .incomparable
  | _, _ => .incomparable
where
  /-- Both children are missing, or both are there and are equal. -/
  sameBy (compare : Node → Node → Comparison) : Option Node → Option Node → Bool
    | none, none => true
    | some child, some child' => (compare child child').isEq
    | _, _ => false

theorem mem_parts_brackets {receiver : Option String} {name : String}
    {brackets parens : Option Node} {child : Node} (h : child ∈ brackets) :
    child ∈ (pending receiver name brackets parens).parts :=
  List.mem_append_left _ (Option.mem_toList.mpr h)

theorem mem_parts_parens {receiver : Option String} {name : String}
    {brackets parens : Option Node} {child : Node} (h : child ∈ parens) :
    child ∈ (pending receiver name brackets parens).parts :=
  List.mem_append_right _ (Option.mem_toList.mpr h)

variable {compare : Node → Node → Comparison}

theorem sameBy_swap {child child' : Option Node}
    (h : ∀ x ∈ child, ∀ y ∈ child', compare y x = (compare x y).swap) :
    compareWith.sameBy compare child' child = compareWith.sameBy compare child child' := by
  cases child <;> cases child' <;> simp only [compareWith.sameBy]
  case some.some x y => rw [h x rfl y rfl, Comparison.isEq_swap]

theorem sameBy_trans {first second third : Option Node}
    (h : ∀ x ∈ first, ∀ y ∈ second, ∀ z ∈ third,
      Comparison.Chains (compare x y) (compare y z) (compare x z))
    (h₁ : compareWith.sameBy compare first second = true)
    (h₂ : compareWith.sameBy compare second third = true) :
    compareWith.sameBy compare first third = true := by
  cases first <;> cases second <;> cases third <;>
    simp only [compareWith.sameBy, Bool.false_eq_true] at h₁ h₂ ⊢
  case some.some.some x y z => exact (h x rfl y rfl z rfl).isEq h₁ h₂

/-- Exchanging two outlines exchanges the outcome, if it does so for the nodes below them. -/
theorem compareWith_swap (a b : Outline)
    (h : ∀ x ∈ a.parts, ∀ y ∈ b.parts, compare y x = (compare x y).swap) :
    b.compareWith compare a = (a.compareWith compare b).swap := by
  cases a with
  | leaf x =>
      cases b with
      | leaf y => exact Leaf.compare_swap x y
      | pending | product => rfl
  | pending receiver name brackets parens =>
      cases b with
      | pending receiver' name' brackets' parens' =>
          have brackets_swap : compareWith.sameBy compare brackets' brackets =
              compareWith.sameBy compare brackets brackets' :=
            sameBy_swap fun x hx y hy => h x (mem_parts_brackets hx) y (mem_parts_brackets hy)
          have parens_swap : compareWith.sameBy compare parens' parens =
              compareWith.sameBy compare parens parens' :=
            sameBy_swap fun x hx y hy => h x (mem_parts_parens hx) y (mem_parts_parens hy)
          simp only [compareWith, Comparison.swap_equalIf, brackets_swap, parens_swap]
          rw [BEq.comm (a := receiver), BEq.comm (a := name)]
      | leaf | product => rfl
  | product kind parts =>
      cases b with
      | product kind' parts' =>
          simp only [compareWith, eq_comm (a := kind')]
          split
          · exact Comparison.pairwise_swap parts parts' h
          · rfl
      | leaf | pending => rfl

/-- Outlines chain, if the nodes below them do. -/
theorem compareWith_chains (a b c : Outline)
    (h : ∀ x ∈ a.parts, ∀ y ∈ b.parts, ∀ z ∈ c.parts,
      Comparison.Chains (compare x y) (compare y z) (compare x z)) :
    Comparison.Chains (a.compareWith compare b) (b.compareWith compare c)
      (a.compareWith compare c) := by
  cases a with
  | leaf x =>
      cases b with
      | leaf y =>
          cases c with
          | leaf z => exact Leaf.compare_chains x y z
          | pending | product => exact .of_not_second rfl
      | pending | product => exact .of_not_first rfl
  | pending receiver name brackets parens =>
      cases b with
      | pending receiver' name' brackets' parens' =>
          cases c with
          | pending receiver'' name'' brackets'' parens'' =>
              apply Comparison.Chains.equalIf
              simp only [Bool.and_eq_true, beq_iff_eq]
              rintro ⟨⟨⟨rfl, rfl⟩, hb₁⟩, hp₁⟩ ⟨⟨⟨rfl, rfl⟩, hb₂⟩, hp₂⟩
              refine ⟨⟨⟨rfl, rfl⟩, sameBy_trans ?_ hb₁ hb₂⟩, sameBy_trans ?_ hp₁ hp₂⟩
              · intro x hx y hy z hz
                exact h x (mem_parts_brackets hx) y (mem_parts_brackets hy) z
                  (mem_parts_brackets hz)
              · intro x hx y hy z hz
                exact h x (mem_parts_parens hx) y (mem_parts_parens hy) z (mem_parts_parens hz)
          | leaf | product => exact .of_not_second rfl
      | leaf | product => exact .of_not_first rfl
  | product kind parts =>
      cases b with
      | product kind' parts' =>
          cases c with
          | product kind'' parts'' =>
              by_cases first : kind = kind'
              · by_cases second : kind' = kind''
                · subst first second
                  simp only [compareWith, if_true]
                  exact Comparison.pairwise_chains parts parts' parts'' h
                · exact .of_not_second (by simp [compareWith, second, Comparison.isLE])
              · exact .of_not_first (by simp [compareWith, first, Comparison.isLE])
          | leaf | pending => exact .of_not_second rfl
      | leaf | pending => exact .of_not_first rfl

end Outline

namespace Node

/-- The outline of a node. -/
def outline : Node → Outline
  | literal node => .leaf (.value node.value)
  | typeRef node => .leaf (.ofType node.ty)
  | param node => .leaf (.ofType node.ty)
  | reference node =>
      if node.isResolved then .leaf (.ofType node.ty)
      else .pending node.receiver node.name node.brackets node.parens
  | list node => .product .list node.items
  | block node => .product .block node.items
  | dim node => .product .dim [node.extent]
  | function node => .product .function [node.params, node.body]
  | method node => .product .method [node.params, node.body]

theorem alikeChildUnder_eq (same : NodeId → NodeId → Bool) (child child' : Option Node) :
    alikeChildUnder same child child' =
      Outline.compareWith.sameBy (compareUnder same) child child' := by
  cases child <;> cases child' <;> rfl

/-- Nodes of different identities are compared by their outlines. -/
theorem compareUnder_of_ne {same : NodeId → NodeId → Bool} {a b : Node}
    (different : same a.id b.id = false) :
    compareUnder same a b = a.outline.compareWith (compareUnder same) b.outline := by
  unfold compareUnder
  rw [if_neg (by simp [different])]
  clear different
  -- Nodes of two kinds that are not both leaves are incomparable on both sides.
  rcases a with a | a | a | ⟨_, _, _, _, _, _, _ | _, _⟩ | a | a | a | a | a <;>
    rcases b with b | b | b | ⟨_, _, _, _, _, _, _ | _, _⟩ | b | b | b | b | b <;>
    try rfl
  case reference.none.reference.none =>
      simp only [alikeChildUnder_eq]
      rfl
  case list.list | block.block =>
      simp only [conjoinItemsUnder_eq]
      rfl
  case dim.dim => exact (Comparison.pairwise_singleton _ _).symm
  case function.function | method.method =>
      simp [outline, Outline.compareWith, Comparison.pairwise_cons_cons]

theorem compareUnder_of_same {same : NodeId → NodeId → Bool} {a b : Node}
    (identity : same a.id b.id = true) : compareUnder same a b = .equal := by
  unfold compareUnder
  exact if_pos identity

/-- Nodes of different identities are compared by their outlines. -/
theorem compare_of_ne {a b : Node} (different : a.id ≠ b.id) :
    a.compare b = a.outline.compareWith compare b.outline :=
  compareUnder_of_ne (by simpa using different)

/-- The nodes of an outline are children of the node. -/
theorem mem_children_of_mem_parts {node part : Node} (h : part ∈ node.outline.parts) :
    part ∈ node.children := by
  cases node with
  | reference node =>
      simp only [outline] at h
      split at h
      · simp [Outline.parts] at h
      · exact h
  | literal | typeRef | param => simp [outline, Outline.parts] at h
  | list | block | dim | function | method => exact h

/-- Exchanging two nodes exchanges the outcome of comparing them. -/
theorem compareUnder_swap {same : NodeId → NodeId → Bool} (symm : ∀ i j, same i j = same j i)
    (a b : Node) : compareUnder same b a = (compareUnder same a b).swap := by
  induction a using induct generalizing b with
  | step a children_swap =>
      by_cases identity : same a.id b.id = true
      · rw [compareUnder_of_same identity, compareUnder_of_same ((symm _ _).trans identity)]
        rfl
      · have different : same a.id b.id = false := by simpa using identity
        rw [compareUnder_of_ne different, compareUnder_of_ne ((symm _ _).trans different)]
        exact Outline.compareWith_swap a.outline b.outline
          fun x hx y _ => children_swap x (mem_children_of_mem_parts hx) y

theorem compare_swap (a b : Node) : b.compare a = (a.compare b).swap :=
  compareUnder_swap (fun _ _ => BEq.comm) a b

theorem le_self (a : Node) : a ≤ a := by
  change (a.compare a).isLE = true
  rw [compare_self]
  rfl

theorem not_lt_self (a : Node) : ¬ a < a := by
  change ¬ (a.compare a).isLT = true
  rw [compare_self]
  simp [Comparison.isLT]

theorem equiv_self (a : Node) : a ≈ a := by
  change (a.compare a).isEq = true
  rw [compare_self]
  rfl

theorem equiv_symm {a b : Node} (h : a ≈ b) : b ≈ a := by
  change (b.compare a).isEq = true
  rw [compare_swap, Comparison.isEq_swap]
  exact h

theorem le_of_lt {a b : Node} (h : a < b) : a ≤ b :=
  Comparison.isLE_iff.mpr (.inl (Comparison.isLT_iff.mp h))

theorem le_of_equiv {a b : Node} (h : a ≈ b) : a ≤ b :=
  Comparison.isLE_iff.mpr (.inr (Comparison.isEq_iff.mp h))

theorem lt_of_le_of_not_equiv {a b : Node} (h : a ≤ b) (distinct : ¬ a ≈ b) : a < b := by
  rcases Comparison.isLE_iff.mp h with less | equal
  · exact Comparison.isLT_iff.mpr less
  · exact absurd (Comparison.isEq_iff.mpr equal) distinct

/-- Two nodes of which neither is below or equal to the other are incomparable. -/
theorem compare_eq_incomparable {a b : Node} (below : ¬ a < b) (above : ¬ b < a)
    (distinct : ¬ a ≈ b) : a.compare b = .incomparable := by
  change ¬ (b.compare a).isLT = true at above
  rw [compare_swap] at above
  change ¬ (a.compare b).isLT = true at below
  change ¬ (a.compare b).isEq = true at distinct
  cases outcome : a.compare b with
  | less => simp [outcome, Comparison.isLT] at below
  | equal => simp [outcome, Comparison.isEq] at distinct
  | greater => simp [outcome, Comparison.swap, Comparison.isLT] at above
  | incomparable => rfl

/-- Nodes of one graph chain: comparing by identity first is compatible with comparing by outline,
since one identity stands for one node. -/
theorem compare_chains (graph : Graph) {a b c : Node} (ha : a ∈ graph) (hb : b ∈ graph)
    (hc : c ∈ graph) : Comparison.Chains (a.compare b) (b.compare c) (a.compare c) := by
  induction a using induct generalizing b c with
  | step a children_chain =>
      by_cases first : a.id = b.id
      · obtain rfl : a = b := graph.eq_of_id ha hb first
        rw [compare_self]
        exact .equal_left _
      by_cases second : b.id = c.id
      · obtain rfl : b = c := graph.eq_of_id hb hc second
        rw [compare_self]
        exact .equal_right _
      by_cases ends : a.id = c.id
      · obtain rfl : a = c := graph.eq_of_id ha hc ends
        rw [compare_self, compare_swap a b]
        exact .swap_right _
      rw [compare_of_ne first, compare_of_ne second, compare_of_ne ends]
      apply Outline.compareWith_chains
      intro x hx y hy z hz
      have hx := mem_children_of_mem_parts hx
      have hy := mem_children_of_mem_parts hy
      have hz := mem_children_of_mem_parts hz
      exact children_chain x hx (graph.mem_child ha hx) (graph.mem_child hb hy)
        (graph.mem_child hc hz)

section Laws

variable (graph : Graph) {a b c : Node} (ha : a ∈ graph) (hb : b ∈ graph) (hc : c ∈ graph)
include ha hb hc

theorem le_trans (h₁ : a ≤ b) (h₂ : b ≤ c) : a ≤ c :=
  (compare_chains graph ha hb hc).isLE h₁ h₂

theorem equiv_trans (h₁ : a ≈ b) (h₂ : b ≈ c) : a ≈ c :=
  (compare_chains graph ha hb hc).isEq h₁ h₂

theorem lt_of_lt_of_le (h₁ : a < b) (h₂ : b ≤ c) : a < c :=
  (compare_chains graph ha hb hc).isLT_of_isLT_left h₁ h₂

theorem lt_of_le_of_lt (h₁ : a ≤ b) (h₂ : b < c) : a < c :=
  (compare_chains graph ha hb hc).isLT_of_isLT_right h₁ h₂

end Laws

/-- Nodes of one graph are partially ordered: a node is equal to itself, exchanging the sides of a
comparison exchanges its outcome, and the order, its equality and its strict part are
transitive. -/
theorem compare_isPartialOrder (graph : Graph) {a b c : Node} (ha : a ∈ graph) (hb : b ∈ graph)
    (hc : c ∈ graph) :
    a.compare a = .equal ∧ b.compare a = (a.compare b).swap ∧
      (a ≤ b → b ≤ c → a ≤ c) ∧ (a ≈ b → b ≈ c → a ≈ c) ∧
      (a < b → b ≤ c → a < c) ∧ (a ≤ b → b < c → a < c) :=
  ⟨compare_self a, compare_swap a b, le_trans graph ha hb hc, equiv_trans graph ha hb hc,
    lt_of_lt_of_le graph ha hb hc, lt_of_le_of_lt graph ha hb hc⟩

/-! ## Three lists that share a placeholder and an unresolved use site -/

namespace SharedLists

def placeholder : Node := .typeRef ⟨0, .unknown, {}⟩
def pending : Node := .reference ⟨1, none, "y", none, none, .unknown, none, {}⟩
def three : Node := .literal ⟨2, .int 3, {}⟩
def int : Node := .typeRef ⟨3, .int, {}⟩
def real : Node := .typeRef ⟨4, .real, {}⟩
def low : Node := .list ⟨5, [placeholder, pending, three], {}⟩
def middle : Node := .list ⟨6, [placeholder, pending, int], {}⟩
def high : Node := .list ⟨7, [placeholder, pending, real], {}⟩

def graph : Graph :=
  .ofList [placeholder, pending, three, int, real, low, middle, high]
    (by simp [placeholder, pending, three, int, real, low, middle, high, children]) (by decide)

theorem mem_graph : low ∈ graph ∧ middle ∈ graph ∧ high ∈ graph := by
  refine ⟨?_, ?_, ?_⟩ <;> change _ ∈ [placeholder, pending, three, int, real, low, middle, high] <;>
    simp

end SharedLists

open SharedLists in
/-- A literal below its type below a wider type, each beside the same two nodes of unknown type:
the placeholder and the unresolved use site do not break the chain. -/
theorem compare_isPartialOrder_sharedLists :
    (low ∈ graph ∧ middle ∈ graph ∧ high ∈ graph) ∧ (low < middle ∧ middle ≤ high) ∧
      low.compare low = .equal ∧ middle.compare low = .greater ∧ low < high := by
  obtain ⟨hl, hm, hh⟩ := mem_graph
  obtain ⟨itself, swap, -, -, strict, -⟩ := compare_isPartialOrder graph hl hm hh
  have below : low.compare middle = .less := by decide
  have wider : middle ≤ high := by decide
  refine ⟨mem_graph, ⟨?_, wider⟩, itself, ?_, strict ?_ wider⟩
  · exact Comparison.isLT_iff.mpr below
  · rw [swap, below]
    rfl
  · exact Comparison.isLT_iff.mpr below

end Node
end ModelLang
