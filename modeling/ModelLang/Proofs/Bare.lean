import ModelLang.Item
import ModelLang.Node.Text
import ModelLang.Proofs.Reach

/-!
# Nodes without their annotations

A use site is annotated with a type and a target, and annotating it rebuilds the nodes above it
under new identities.  The bare form of a node is what is left without this: the kinds, names,
values, spans and children, with the parameters of every signature as they are.  Nodes with one
bare form are written alike.
-/

namespace ModelLang

namespace Node

mutual

/-- A node without the annotations of its use sites, and without the identities of the nodes that
are rebuilt when a use site is annotated. -/
def bare : Node → Node
  | literal node => literal node
  | typeRef node => typeRef node
  | param node => param node
  | reference ⟨_, receiver, name, brackets, parens, _, _, span⟩ =>
      reference ⟨0, receiver, name, bareChild brackets, bareChild parens, .unknown, none, span⟩
  | list ⟨_, items, span⟩ => list ⟨0, bareItems items, span⟩
  | block ⟨_, items, span⟩ => block ⟨0, bareItems items, span⟩
  | dim ⟨_, name, extent, span⟩ => dim ⟨0, name, extent.bare, span⟩
  | function ⟨_, name, params, body, span⟩ => function ⟨0, name, params, body.bare, span⟩
  | method ⟨_, name, params, body, span⟩ => method ⟨0, name, params, body.bare, span⟩

/-- The items of a sequence without annotations. -/
def bareItems : List Node → List Node
  | [] => []
  | item :: items => item.bare :: bareItems items

/-- A child without annotations. -/
def bareChild : Option Node → Option Node
  | none => none
  | some child => some child.bare

end

theorem bareItems_eq_map (items : List Node) : bareItems items = items.map bare := by
  induction items with
  | nil => rfl
  | cons item items induction => simp [bareItems, induction]

theorem bareChild_eq_map (child : Option Node) : bareChild child = child.map bare := by
  cases child <;> rfl

end Node

/-- A use site without its annotations and those in its children. -/
def ReferenceOf.bare (site : Reference) : Reference :=
  { site with
    id := 0
    brackets := site.brackets.map Node.bare
    parens := site.parens.map Node.bare
    ty := .unknown
    target := none }

/-- A list or a block without the annotations in its items. -/
def SequenceOf.bare (sequence : Sequence) : Sequence :=
  { sequence with id := 0, items := sequence.items.map Node.bare }

/-- A dim without the annotations in its extent. -/
def DimOf.bare (dim : Dim) : Dim :=
  { dim with id := 0, extent := dim.extent.bare }

/-- A signature without the annotations in its body; it keeps its parameters. -/
def SignatureOf.bare {c : Callable} (signature : Signature c) : Signature c :=
  { signature with id := 0, body := signature.body.bare }

namespace Node

@[simp]
theorem bare_reference (node : Reference) : (reference node).bare = reference node.bare := by
  rw [ReferenceOf.bare, ← bareChild_eq_map, ← bareChild_eq_map]
  rfl

@[simp]
theorem bare_list (node : Sequence) : (list node).bare = list node.bare := by
  rw [SequenceOf.bare, ← bareItems_eq_map]
  rfl

@[simp]
theorem bare_block (node : Sequence) : (block node).bare = block node.bare := by
  rw [SequenceOf.bare, ← bareItems_eq_map]
  rfl

@[simp]
theorem bare_dim (node : Dim) : (dim node).bare = dim node.bare := rfl

@[simp]
theorem bare_signature {c : Callable} (signature : Signature c) :
    signature.node.bare = signature.bare.node := by
  cases c <;> rfl

/-- Annotations are not written. -/
theorem text_bare (node : Node) : node.bare.text = node.text := by
  induction node using Node.induct with
  | step node children =>
      cases node with
      | literal | typeRef | param => rfl
      | reference site =>
          have brackets : ∀ inner ∈ site.brackets, inner.bare.text = inner.text :=
            fun inner here => children inner (by simp_all [Node.children])
          have parens : ∀ inner ∈ site.parens, inner.bare.text = inner.text :=
            fun inner here => children inner (by simp_all [Node.children])
          rw [bare_reference, ReferenceOf.bare, text, text, enclosedText_map brackets,
            enclosedText_map parens]
      | list node =>
          have items : ∀ item ∈ node.items, item.bare.text = item.text := children
          rw [bare_list, SequenceOf.bare, text, text, itemTexts_map items]
      | block node =>
          have items : ∀ item ∈ node.items, item.bare.text = item.text := children
          rw [bare_block, SequenceOf.bare, text, text, itemTexts_map items]
      | dim node =>
          have extent := children _ (mem_children_of_contents? (rfl : _ = some node.extent))
          change "dim " ++ node.name ++ "[" ++ node.extent.bare.text ++ "]" = _
          rw [extent]
          rfl
      | function node =>
          have body := children _ (mem_children_of_contents? (rfl : _ = some node.body))
          change Callable.signatureText _ _ _ node.body.bare.text = _
          rw [body]
          rfl
      | method node =>
          have body := children _ (mem_children_of_contents? (rfl : _ = some node.body))
          change Callable.signatureText _ _ _ node.body.bare.text = _
          rw [body]
          rfl

end Node

/-- An item without the annotations of its declaration. -/
def Item.bare : Item → Item
  | dim declared => dim declared.bare
  | function declared => function declared.bare
  | method receiver declared => method receiver declared.bare

/-- Items with one bare form are written alike. -/
theorem Item.text_bare (item : Item) : item.bare.text = item.text := by
  have node_bare : item.bare.node = item.node.bare := by cases item <;> rfl
  have mark_bare : item.bare.receiverMark = item.receiverMark := by cases item <;> rfl
  rw [text, text, node_bare, mark_bare, Node.text_bare]

end ModelLang
