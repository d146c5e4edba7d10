import ModelLang.Proofs.Renaming

/-!
# Copies of nodes

A comparison first asks whether its two nodes are one.  Without that test the rules of the order
compare nodes by their structure alone, and such a comparison cannot tell a node from a copy of
it.  The structural comparison is reflexive as soon as all types in a node are known.  On such
nodes the test is therefore only a shortcut, and it does not matter which of their children are
shared and which are copied.
-/

namespace ModelLang

namespace Leaf

/-- A leaf is equal to itself, unless it stands for a type with a placeholder. -/
theorem compare_self {leaf : Leaf} (known : ∀ ty, leaf = .ofType ty → ty.hasUnknown = false) :
    leaf.compare leaf = .equal := by
  cases leaf with
  | value value => simp [compare, Comparison.equalIf]
  | ofType ty => exact Ty.compare_self (known ty rfl)

end Leaf

namespace Outline

variable {compare compare' : Node → Node → Comparison}

/-- An outline is equal to itself, if the nodes below it are. -/
theorem compareWith_self (outline : Outline)
    (leaves : ∀ leaf, outline = .leaf leaf → leaf.compare leaf = .equal)
    (h : ∀ x ∈ outline.parts, compare x x = .equal) :
    outline.compareWith compare outline = .equal := by
  have self {child : Option Node} (h : ∀ x ∈ child, compare x x = .equal) :
      compareWith.sameBy compare child child = true := by
    cases child with
    | none => rfl
    | some child => exact Comparison.isEq_iff.mpr (h child rfl)
  cases outline with
  | leaf leaf => exact leaves leaf rfl
  | pending receiver name brackets parens =>
      have brackets_self := self fun x hx => h x (mem_parts_brackets hx)
      have parens_self := self fun x hx => h x (mem_parts_parens hx)
      simp [compareWith, brackets_self, parens_self, Comparison.equalIf]
  | product kind parts =>
      rw [compareWith, if_pos rfl]
      exact Comparison.pairwise_self parts h

/-- Outlines are compared alike by two rules that agree on the nodes below them. -/
theorem compareWith_congr (a b : Outline)
    (h : ∀ x ∈ a.parts, ∀ y ∈ b.parts, compare x y = compare' x y) :
    a.compareWith compare b = a.compareWith compare' b := by
  have agree {child child' : Option Node}
      (h : ∀ x ∈ child, ∀ y ∈ child', compare x y = compare' x y) :
      compareWith.sameBy compare child child' = compareWith.sameBy compare' child child' := by
    cases child <;> cases child' <;> simp only [compareWith.sameBy]
    case some.some x y => rw [h x rfl y rfl]
  cases a with
  | leaf => cases b <;> rfl
  | pending receiver name brackets parens =>
      cases b with
      | pending receiver' name' brackets' parens' =>
          have brackets_agree := agree fun x hx y hy =>
            h x (mem_parts_brackets hx) y (mem_parts_brackets hy)
          have parens_agree := agree fun x hx y hy =>
            h x (mem_parts_parens hx) y (mem_parts_parens hy)
          simp only [compareWith, brackets_agree, parens_agree]
      | leaf | product => rfl
  | product kind parts =>
      cases b with
      | product kind' parts' =>
          simp only [compareWith, Comparison.pairwise_congr parts parts' h]
      | leaf | pending => rfl

end Outline

namespace Node

/-- A node occurs in itself and in every node that it occurs below. -/
inductive OccursIn (part : Node) : Node → Prop
  | self : part.OccursIn part
  | child {child node : Node} : child ∈ node.children → part.OccursIn child → part.OccursIn node

/-- No placeholder is in the type of a written type, a parameter or a resolved use site that occurs
in the node. -/
def TypesKnown (node : Node) : Prop :=
  ∀ part : Node, part.OccursIn node → ∀ ty, part.leaf? = some (.ofType ty) → ty.hasUnknown = false

theorem typesKnown_iff {node : Node} :
    node.TypesKnown ↔
      (∀ ty, node.leaf? = some (.ofType ty) → ty.hasUnknown = false) ∧
        ∀ child ∈ node.children, child.TypesKnown := by
  constructor
  · intro known
    exact ⟨known node .self, fun child member part occurs => known part (.child member occurs)⟩
  · rintro ⟨itself, children⟩ part occurs
    cases occurs with
    | self => exact itself
    | child member occurs => exact children _ member part occurs

theorem TypesKnown.child {node child : Node} (known : node.TypesKnown)
    (member : child ∈ node.children) : child.TypesKnown :=
  (typesKnown_iff.mp known).2 child member

/-- The comparison by the rules of the order alone, in which no two nodes count as one. -/
def compareStructurally (a b : Node) : Comparison :=
  compareUnder (fun _ _ => false) a b

theorem compareStructurally_eq (a b : Node) :
    a.compareStructurally b = a.outline.compareWith compareStructurally b.outline :=
  compareUnder_of_ne rfl

theorem compareStructurally_swap (a b : Node) :
    b.compareStructurally a = (a.compareStructurally b).swap :=
  compareUnder_swap (fun _ _ => rfl) a b

theorem leaf?_eq_some_of_outline {node : Node} {leaf : Leaf} (h : node.outline = .leaf leaf) :
    node.leaf? = some leaf := by
  cases node with
  | literal | typeRef | param =>
      cases h
      rfl
  | reference node =>
      simp only [outline] at h
      split at h
      · next resolved =>
          cases h
          simp [leaf?, resolved]
      · cases h
  | list | block | dim | function | method => cases h

/-- Compared by its structure, a node is equal to itself if its types are known. -/
theorem compareStructurally_self {node : Node} (known : node.TypesKnown) :
    node.compareStructurally node = .equal := by
  induction node using induct with
  | step node children_self =>
      rw [compareStructurally_eq]
      apply Outline.compareWith_self
      · rintro leaf isLeaf
        apply Leaf.compare_self
        rintro ty rfl
        exact known node .self ty (leaf?_eq_some_of_outline isLeaf)
      · intro part member
        have below := mem_children_of_mem_parts member
        exact children_self part below (known.child below)

/-- Where the types of a node are known, asking whether two nodes are one does not matter to its
comparison with a node of the same graph. -/
theorem compare_eq_compareStructurally (graph : Graph) {a b : Node} (ha : a ∈ graph)
    (hb : b ∈ graph) (known : a.TypesKnown) : a.compare b = a.compareStructurally b := by
  induction a using induct generalizing b with
  | step a children_eq =>
      by_cases same : a.id = b.id
      · obtain rfl : a = b := graph.eq_of_id ha hb same
        rw [compare_self, compareStructurally_self known]
      · rw [compare_of_ne same, compareStructurally_eq]
        apply Outline.compareWith_congr
        intro x hx y hy
        have hx := mem_children_of_mem_parts hx
        have hy := mem_children_of_mem_parts hy
        exact children_eq x hx (graph.mem_child ha hx) (graph.mem_child hb hy) (known.child hx)

/-- A placeholder is equal to itself only because it is one node. -/
example :
    let placeholder : Node := .typeRef ⟨0, .unknown, {}⟩
    placeholder.compare placeholder = .equal ∧
      placeholder.compareStructurally placeholder = .incomparable := by
  decide

/-! ## Copies -/

/-- The two nodes differ in identities at most, so one is a copy of the other, whatever their
children share. -/
def Alike (a b : Node) : Prop :=
  a.rename (fun _ => 0) = b.rename (fun _ => 0)

section Rename

variable {f : NodeId → NodeId}

theorem children_rename (node : Node) :
    (node.rename f).children = node.children.map (rename f) := by
  cases node with
  | literal | typeRef | param | dim | function | method => rfl
  | list | block => simp [children, SequenceOf.rename]
  | reference node => simp [children, ReferenceOf.rename, Option.toList_map]

theorem leaf?_rename (node : Node) : (node.rename f).leaf? = node.leaf? := by
  cases node with
  | literal | typeRef | param | dim | function | method => rfl
  | list | block => simp [leaf?]
  | reference node =>
      obtain ⟨id, receiver, name, brackets, parens, ty, target, span⟩ := node
      cases target <;> simp [leaf?, ReferenceOf.rename, ReferenceOf.isResolved]

theorem typesKnown_rename (node : Node) : (node.rename f).TypesKnown ↔ node.TypesKnown := by
  induction node using induct with
  | step node children =>
      rw [typesKnown_iff, typesKnown_iff, leaf?_rename, children_rename, List.forall_mem_map]
      exact and_congr_right fun _ => forall₂_congr children

theorem compareStructurally_rename_left (a b : Node) :
    (a.rename f).compareStructurally b = a.compareStructurally b := by
  induction b using induct generalizing a with
  | step b children =>
      rw [compareStructurally_eq, compareStructurally_eq, outline_rename]
      exact Outline.compareWith_map _ _ fun x y member =>
        children y (mem_children_of_mem_parts member) x

theorem compareStructurally_rename (a b : Node) :
    (a.rename f).compareStructurally (b.rename f) = a.compareStructurally b := by
  rw [compareStructurally_rename_left, compareStructurally_swap, compareStructurally_rename_left,
    ← compareStructurally_swap]

end Rename

namespace Alike

variable {a a' b b' : Node}

theorem text_eq (h : a.Alike a') : a.text = a'.text := by
  rw [← text_rename (f := fun _ => 0), h, text_rename]

theorem span_eq (h : a.Alike a') : a.span = a'.span := by
  have span_rename (node : Node) : (node.rename fun _ => 0).span = node.span := by
    cases node <;> rfl
  rw [← span_rename, h, span_rename]

theorem typesKnown (h : a.Alike a') (known : a.TypesKnown) : a'.TypesKnown := by
  rw [← typesKnown_rename (f := fun _ => 0), ← h]
  exact (typesKnown_rename a).mpr known

/-- The structural comparison does not tell copies from each other. -/
theorem compareStructurally_eq (ha : a.Alike a') (hb : b.Alike b') :
    a.compareStructurally b = a'.compareStructurally b' := by
  rw [← compareStructurally_rename (f := fun _ => 0), ha, hb, compareStructurally_rename]

/-- Where types are known, copies compare like the nodes that they are copies of, whatever is shared
in either graph. -/
theorem compare_eq {graph graph' : Graph} (alike : a.Alike a') (alike' : b.Alike b')
    (ha : a ∈ graph) (hb : b ∈ graph) (ha' : a' ∈ graph') (hb' : b' ∈ graph')
    (known : a.TypesKnown) : a.compare b = a'.compare b' := by
  calc
    a.compare b = a.compareStructurally b := compare_eq_compareStructurally graph ha hb known
    _ = a'.compareStructurally b' := alike.compareStructurally_eq alike'
    _ = a'.compare b' :=
      (compare_eq_compareStructurally graph' ha' hb' (alike.typesKnown known)).symm

end Alike

end Node

end ModelLang
