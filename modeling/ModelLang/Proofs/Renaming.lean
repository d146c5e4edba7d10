import ModelLang.Item
import ModelLang.OverloadSet
import ModelLang.Proofs.Order.Node

/-!
# Nodes under other identities

The nodes that a resolution makes bear different identities in different resolutions, so what it
makes of a node is told up to a renaming.  A renaming changes neither the type of a node nor its
text.  A renaming that keeps the identities of a graph apart from all others does not matter to a
comparison with a node of the graph, so a call selects the same overload for renamed arguments.
-/

namespace ModelLang

/-- A written type under another identity. -/
def TypeRef.rename (f : NodeId → NodeId) (typeRef : TypeRef) : TypeRef :=
  { typeRef with id := f typeRef.id }

/-- A parameter with other identities. -/
def Param.rename (f : NodeId → NodeId) (param : Param) : Param :=
  { param with id := f param.id, typeRef := param.typeRef.rename f }

namespace Node

mutual

/-- A node with other identities, also in the targets of its use sites. -/
def rename (f : NodeId → NodeId) : Node → Node
  | literal node => literal { node with id := f node.id }
  | typeRef node => typeRef (node.rename f)
  | param node => param (node.rename f)
  | reference ⟨id, receiver, name, brackets, parens, ty, target, span⟩ =>
      reference ⟨f id, receiver, name, renameChild f brackets, renameChild f parens, ty,
        renameTarget f target, span⟩
  | list ⟨id, items, span⟩ => list ⟨f id, renameItems f items, span⟩
  | block ⟨id, items, span⟩ => block ⟨f id, renameItems f items, span⟩
  | dim ⟨id, name, extent, span⟩ => dim ⟨f id, name, rename f extent, span⟩
  | function ⟨id, name, params, body, span⟩ =>
      function ⟨f id, name, rename f params, rename f body, span⟩
  | method ⟨id, name, params, body, span⟩ =>
      method ⟨f id, name, rename f params, rename f body, span⟩

/-- The items of a sequence with other identities. -/
def renameItems (f : NodeId → NodeId) : List Node → List Node
  | [] => []
  | item :: items => rename f item :: renameItems f items

/-- A child with other identities. -/
def renameChild (f : NodeId → NodeId) : Option Node → Option Node
  | none => none
  | some child => some (rename f child)

/-- A target with other identities. -/
def renameTarget (f : NodeId → NodeId) : Option Target → Option Target
  | none => none
  | some (.param target) => some (.param (target.rename f))
  | some (.dim ⟨id, name, extent, span⟩) => some (.dim ⟨f id, name, rename f extent, span⟩)
  | some (.function ⟨id, name, params, body, span⟩) =>
      some (.function ⟨f id, name, rename f params, rename f body, span⟩)
  | some (.method ⟨id, name, params, body, span⟩) =>
      some (.method ⟨f id, name, rename f params, rename f body, span⟩)

end

theorem renameItems_eq_map (f : NodeId → NodeId) (items : List Node) :
    renameItems f items = items.map (rename f) := by
  induction items with
  | nil => rfl
  | cons item items induction => simp [renameItems, induction]

theorem renameChild_eq_map (f : NodeId → NodeId) (child : Option Node) :
    renameChild f child = child.map (rename f) := by
  cases child <;> rfl

end Node

/-- A list or a block with other identities. -/
def SequenceOf.rename (f : NodeId → NodeId) (sequence : Sequence) : Sequence :=
  { sequence with id := f sequence.id, items := sequence.items.map (Node.rename f) }

/-- A dim with other identities. -/
def DimOf.rename (f : NodeId → NodeId) (dim : Dim) : Dim :=
  { dim with id := f dim.id, extent := dim.extent.rename f }

/-- A signature with other identities. -/
def SignatureOf.rename {c : Callable} (f : NodeId → NodeId) (signature : Signature c) :
    Signature c :=
  { signature with
    id := f signature.id
    params := signature.params.rename f
    body := signature.body.rename f }

/-- A target with other identities. -/
def TargetOf.rename (f : NodeId → NodeId) : Target → Target
  | param target => param (target.rename f)
  | dim target => dim (target.rename f)
  | function target => function (target.rename f)
  | method target => method (target.rename f)

/-- A use site with other identities. -/
def ReferenceOf.rename (f : NodeId → NodeId) (site : Reference) : Reference :=
  { site with
    id := f site.id
    brackets := site.brackets.map (Node.rename f)
    parens := site.parens.map (Node.rename f)
    target := site.target.map (TargetOf.rename f) }

namespace Node

variable {f : NodeId → NodeId}

theorem renameTarget_eq_map (target : Option Target) :
    renameTarget f target = target.map (TargetOf.rename f) := by
  rcases target with _ | target | target | target | target <;> rfl

@[simp]
theorem rename_reference (node : Reference) :
    (reference node).rename f = reference (node.rename f) := by
  rw [ReferenceOf.rename, ← renameChild_eq_map, ← renameChild_eq_map, ← renameTarget_eq_map]
  rfl

@[simp]
theorem rename_list (node : Sequence) : (list node).rename f = list (node.rename f) := by
  rw [SequenceOf.rename, ← renameItems_eq_map]
  rfl

@[simp]
theorem rename_block (node : Sequence) : (block node).rename f = block (node.rename f) := by
  rw [SequenceOf.rename, ← renameItems_eq_map]
  rfl

@[simp]
theorem rename_dim (node : Dim) : (dim node).rename f = dim (node.rename f) := rfl

@[simp]
theorem id_rename (node : Node) : (node.rename f).id = f node.id := by
  cases node <;> rfl

/-- Identities play no part in the type of a node. -/
theorem ty_rename (node : Node) : (node.rename f).ty = node.ty := by
  induction node using Node.induct with
  | step node children =>
      cases node with
      | literal | typeRef | param | dim => rfl
      | reference node =>
          rw [rename_reference]
          rfl
      | list node =>
          have types : (node.items.map (rename f)).map ty = node.items.map ty := by
            rw [List.map_map]
            exact List.map_congr_left children
          rw [rename_list, ty_list, ty_list, SequenceOf.rename, types]
      | block node =>
          have types : (node.items.map (rename f)).map ty = node.items.map ty := by
            rw [List.map_map]
            exact List.map_congr_left children
          rw [rename_block, ty_block, ty_block, SequenceOf.rename, ← List.getLast?_map, types,
            List.getLast?_map]
      | function node | method node =>
          have params : (node.params.rename f).ty = node.params.ty :=
            children _ (by simp [Node.children])
          have body : (node.body.rename f).ty = node.body.ty :=
            children _ (by simp [Node.children])
          change Ty.function (node.params.rename f).ty (node.body.rename f).ty = _
          rw [params, body]
          rfl

/-- Identities are not written. -/
theorem text_rename (node : Node) : (node.rename f).text = node.text := by
  induction node using Node.induct with
  | step node children =>
      cases node with
      | literal | typeRef | param => rfl
      | reference site =>
          have brackets : ∀ inner ∈ site.brackets, (inner.rename f).text = inner.text :=
            fun inner here => children inner (by simp_all [Node.children])
          have parens : ∀ inner ∈ site.parens, (inner.rename f).text = inner.text :=
            fun inner here => children inner (by simp_all [Node.children])
          rw [rename_reference, ReferenceOf.rename, text, text, enclosedText_map brackets,
            enclosedText_map parens]
      | list node =>
          have items : ∀ item ∈ node.items, (item.rename f).text = item.text := children
          rw [rename_list, SequenceOf.rename, text, text, itemTexts_map items]
      | block node =>
          have items : ∀ item ∈ node.items, (item.rename f).text = item.text := children
          rw [rename_block, SequenceOf.rename, text, text, itemTexts_map items]
      | dim node =>
          have extent : (node.extent.rename f).text = node.extent.text :=
            children _ (by simp [Node.children])
          change "dim " ++ node.name ++ "[" ++ (node.extent.rename f).text ++ "]" = _
          rw [extent]
          rfl
      | function node | method node =>
          have params : (node.params.rename f).text = node.params.text :=
            children _ (by simp [Node.children])
          have body : (node.body.rename f).text = node.body.text :=
            children _ (by simp [Node.children])
          change Callable.signatureText _ _ (node.params.rename f).text
            (node.body.rename f).text = _
          rw [params, body]
          rfl

end Node

/-! ## Comparisons -/

namespace Outline

/-- An outline with other nodes. -/
def map (g : Node → Node) : Outline → Outline
  | leaf x => leaf x
  | pending receiver name brackets parens =>
      pending receiver name (brackets.map g) (parens.map g)
  | product kind parts => product kind (parts.map g)

variable {compare : Node → Node → Comparison} {g : Node → Node}

theorem sameBy_map {child child' : Option Node}
    (h : ∀ x, ∀ y ∈ child', compare (g x) y = compare x y) :
    compareWith.sameBy compare (child.map g) child' = compareWith.sameBy compare child child' := by
  cases child <;> cases child' <;> simp only [Option.map, compareWith.sameBy]
  case some.some x y => rw [h x y rfl]

theorem zipWith_map {xs ys : List Node} (h : ∀ x, ∀ y ∈ ys, compare (g x) y = compare x y) :
    List.zipWith compare (xs.map g) ys = List.zipWith compare xs ys := by
  induction xs generalizing ys with
  | nil => rfl
  | cons x xs induction =>
      cases ys with
      | nil => rfl
      | cons y ys =>
          rw [List.map_cons, List.zipWith_cons_cons, List.zipWith_cons_cons, h x y (by simp),
            induction fun x y member => h x y (by simp [member])]

/-- Exchanging the nodes of an outline does not matter to an outline whose nodes compare alike with
the old and the new ones. -/
theorem compareWith_map (a b : Outline) (h : ∀ x, ∀ y ∈ b.parts, compare (g x) y = compare x y) :
    (a.map g).compareWith compare b = a.compareWith compare b := by
  cases a with
  | leaf => cases b <;> rfl
  | pending =>
      cases b with
      | pending =>
          rw [map, compareWith, compareWith, sameBy_map fun x y hy => h x y (mem_parts_brackets hy),
            sameBy_map fun x y hy => h x y (mem_parts_parens hy)]
      | leaf | product => rfl
  | product kind parts =>
      cases b with
      | product kind' parts' =>
          have parts_eq :
              List.zipWith compare (parts.map g) parts' = List.zipWith compare parts parts' :=
            zipWith_map h
          rw [map, compareWith, compareWith, Comparison.pairwise, Comparison.pairwise,
            List.length_map, parts_eq]
      | leaf | pending => rfl

end Outline

namespace Node

/-- A comparison sees the nodes of a renamed node renamed. -/
theorem outline_rename {f : NodeId → NodeId} (node : Node) :
    (node.rename f).outline = node.outline.map (rename f) := by
  cases node with
  | literal | typeRef | param | dim | function | method => rfl
  | list | block => simp [outline, Outline.map, SequenceOf.rename]
  | reference node =>
      obtain ⟨id, receiver, name, brackets, parens, ty, target, span⟩ := node
      cases target <;> simp [outline, Outline.map, ReferenceOf.rename, ReferenceOf.isResolved]

end Node

/-- A call selects the same from overloads of a graph, and fails with the same error, for arguments
that are written alike and compare alike with the nodes of the graph. -/
theorem OverloadSet.resolveAs_eq_of_compare {graph : Graph} {c : Callable}
    {overloads : OverloadSet (Signature c)}
    (inside : ∀ candidate ∈ overloads.candidates, candidate.node ∈ graph)
    {arguments arguments' : Node} (text_eq : arguments.text = arguments'.text)
    (compare_eq : ∀ params ∈ graph, arguments.compare params = arguments'.compare params)
    (label : String) (site : Span) :
    overloads.resolveAs label arguments site = overloads.resolveAs label arguments' site := by
  have applicable_eq : overloads.applicable arguments = overloads.applicable arguments' := by
    refine List.filter_congr fun candidate member => decide_eq_decide.mpr ?_
    have below : candidate.params ∈ graph :=
      graph.mem_child (inside candidate member)
        (by cases c <;> simp [SignatureOf.node, Node.children])
    change (arguments.compare _).isLE = true ↔ (arguments'.compare _).isLE = true
    rw [show Candidate.parameters candidate = candidate.params from rfl, compare_eq _ below]
  have choose_eq : overloads.choose arguments = overloads.choose arguments' := by
    rw [choose, choose, applicable_eq]
  rw [resolveAs, resolveAs, choose_eq, text_eq]

/-- A renaming gives the identities of a graph to no other nodes. -/
def Graph.KeepsApart (graph : Graph) (f : NodeId → NodeId) : Prop :=
  ∀ id, ∀ node ∈ graph, f id = node.id ↔ id = node.id

section Apart

variable {graph : Graph} {f : NodeId → NodeId} (apart : graph.KeepsApart f)

include apart

/-- Renaming a node does not matter to its comparison with a node of the graph. -/
theorem Node.compare_rename (a : Node) {b : Node} (inside : b ∈ graph) :
    (a.rename f).compare b = a.compare b := by
  induction b using Node.induct generalizing a with
  | step b children =>
      by_cases same : a.id = b.id
      · have renamed : (a.rename f).id = b.id := by rwa [id_rename, apart _ b inside]
        rw [compare_of_same (a := a.rename f) (by simpa [Node.same] using renamed),
          compare_of_same (a := a) (by simpa [Node.same] using same)]
      · have renamed : (a.rename f).id ≠ b.id := by rwa [id_rename, Ne, apart _ b inside]
        rw [compare_of_ne same, compare_of_ne renamed, outline_rename]
        refine Outline.compareWith_map _ _ fun x y member => ?_
        have below := mem_children_of_mem_parts member
        exact children y below x (graph.mem_child inside below)

/-- Nodes with one renamed form are one node of the graph or none of them is. -/
theorem Node.same_congr {a a' b : Node} (alike : a.rename f = a'.rename f) (inside : b ∈ graph) :
    a.same b = a'.same b := by
  have ids : f a.id = f a'.id := by simpa using congrArg Node.id alike
  rw [Node.same, Node.same, Bool.eq_iff_iff, beq_iff_eq, beq_iff_eq, ← apart _ b inside, ids,
    apart _ b inside]

/-- A call selects the same from overloads of the graph, and fails with the same error, whatever
the identities of its arguments are. -/
theorem OverloadSet.resolveAs_congr {c : Callable} {overloads : OverloadSet (Signature c)}
    (inside : ∀ candidate ∈ overloads.candidates, candidate.node ∈ graph)
    {arguments arguments' : Node}
    (alike : arguments.rename f = arguments'.rename f) (label : String) (site : Span) :
    overloads.resolveAs label arguments site = overloads.resolveAs label arguments' site := by
  have text_eq : arguments.text = arguments'.text := by
    rw [← Node.text_rename (f := f), alike, Node.text_rename]
  refine resolveAs_eq_of_compare inside text_eq (fun params below => ?_) label site
  rw [← Node.compare_rename apart arguments below, alike, Node.compare_rename apart _ below]

end Apart

/-- An item with other identities. -/
def Item.rename (f : NodeId → NodeId) : Item → Item
  | dim declared => dim (declared.rename f)
  | function declared => function (declared.rename f)
  | method receiver declared => method receiver (declared.rename f)

end ModelLang
