import ModelLang.Node.Basic

/-!
# Walks over nodes

A traversal gives one handler for each kind of node.  A handler receives the node together with
the walks over its children, in the order they are written, and decides which of them to run and
what to put in the node's place.  A walk starts when it is run, so a child that a handler leaves
out costs nothing, however often the nodes below it are shared.  The keeping traversal runs all
walks and returns the node itself; other traversals replace some of its handlers.  The target of a
reference is never walked.
-/

namespace ModelLang

/-- The walk over a child.  It starts when it is applied. -/
abbrev ChildWalk (m : Type → Type) := Unit → m Node

/-- One handler for each kind of node; the arguments after the node are the walks over its
children. -/
structure Traversal (m : Type → Type) where
  literal : Literal → m Node
  typeRef : TypeRef → m Node
  param : Param → ChildWalk m → m Node
  /-- The walks over the brackets and the parentheses. -/
  reference : Reference → Option (ChildWalk m) → Option (ChildWalk m) → m Node
  list : Sequence → List (ChildWalk m) → m Node
  block : Sequence → List (ChildWalk m) → m Node
  dim : Dim → ChildWalk m → m Node
  /-- The walks over the parameters and the body. -/
  function : Signature .function → ChildWalk m → ChildWalk m → m Node
  /-- The walks over the parameters and the body. -/
  method : Signature .method → ChildWalk m → ChildWalk m → m Node

namespace Traversal

variable {m : Type → Type} [Monad m]

/-- Run walks one after the other and collect the nodes they return. -/
def runAll : List (ChildWalk m) → m (List Node)
  | [] => pure []
  | walk :: walks => do
      let node ← walk ()
      let nodes ← runAll walks
      pure (node :: nodes)

/-- Run the walk over a child that may be missing. -/
def runChild : Option (ChildWalk m) → m (Option Node)
  | none => pure none
  | some walk => some <$> walk ()

/-- The traversal that walks all children and keeps every node. -/
def keeping : Traversal m where
  literal node := pure (.literal node)
  typeRef node := pure (.typeRef node)
  param node typeRef := do
    discard (typeRef ())
    pure (.param node)
  reference node brackets parens := do
    discard (runChild brackets)
    discard (runChild parens)
    pure (.reference node)
  list node items := do
    discard (runAll items)
    pure (.list node)
  block node items := do
    discard (runAll items)
    pure (.block node)
  dim node extent := do
    discard (extent ())
    pure (.dim node)
  function node params body := do
    discard (params ())
    discard (body ())
    pure (.function node)
  method node params body := do
    discard (params ())
    discard (body ())
    pure (.method node)

/-- The keeping traversal that also does `enter` at every node, before the children. -/
def entering (enter : Node → m Unit) : Traversal m where
  literal node := do
    enter (.literal node)
    keeping.literal node
  typeRef node := do
    enter (.typeRef node)
    keeping.typeRef node
  param node typeRef := do
    enter (.param node)
    keeping.param node typeRef
  reference node brackets parens := do
    enter (.reference node)
    keeping.reference node brackets parens
  list node items := do
    enter (.list node)
    keeping.list node items
  block node items := do
    enter (.block node)
    keeping.block node items
  dim node extent := do
    enter (.dim node)
    keeping.dim node extent
  function node params body := do
    enter (.function node)
    keeping.function node params body
  method node params body := do
    enter (.method node)
    keeping.method node params body

/-- The keeping traversal that also does `enter` at every literal. -/
def enteringLiterals (enter : Literal → m Unit) : Traversal m :=
  { keeping with
    literal := fun node => do
      enter node
      keeping.literal node }

omit [Monad m] in
mutual

/-- Walk a node with the handler of its kind. -/
def visit (traversal : Traversal m) : Node → m Node
  | .literal node => traversal.literal node
  | .typeRef node => traversal.typeRef node
  | .param node => traversal.param node fun _ => traversal.typeRef node.typeRef
  | .reference ⟨id, receiver, name, brackets, parens, ty, target, span⟩ =>
      traversal.reference ⟨id, receiver, name, brackets, parens, ty, target, span⟩
        (traversal.visitChild brackets) (traversal.visitChild parens)
  | .list ⟨id, items, span⟩ => traversal.list ⟨id, items, span⟩ (traversal.visitItems items)
  | .block ⟨id, items, span⟩ => traversal.block ⟨id, items, span⟩ (traversal.visitItems items)
  | .dim ⟨id, name, extent, span⟩ =>
      traversal.dim ⟨id, name, extent, span⟩ fun _ => traversal.visit extent
  | .function ⟨id, name, params, body, span⟩ =>
      traversal.function ⟨id, name, params, body, span⟩
        (fun _ => traversal.visit params) (fun _ => traversal.visit body)
  | .method ⟨id, name, params, body, span⟩ =>
      traversal.method ⟨id, name, params, body, span⟩
        (fun _ => traversal.visit params) (fun _ => traversal.visit body)

/-- The walks over the nodes of a sequence. -/
def visitItems (traversal : Traversal m) : List Node → List (ChildWalk m)
  | [] => []
  | item :: items => (fun _ => traversal.visit item) :: traversal.visitItems items

/-- The walk over a child that may be missing. -/
def visitChild (traversal : Traversal m) : Option Node → Option (ChildWalk m)
  | none => none
  | some child => some fun _ => traversal.visit child

end

omit [Monad m]

theorem visitItems_eq_map (traversal : Traversal m) (items : List Node) :
    traversal.visitItems items = items.map fun item _ => traversal.visit item := by
  induction items with
  | nil => rfl
  | cons item items induction => simp [visitItems, induction]

theorem visitChild_eq_map (traversal : Traversal m) (child : Option Node) :
    traversal.visitChild child = child.map fun child _ => traversal.visit child := by
  cases child <;> rfl

@[simp]
theorem visit_reference (traversal : Traversal m) (node : Reference) :
    traversal.visit (.reference node) =
      traversal.reference node (node.brackets.map fun child _ => traversal.visit child)
        (node.parens.map fun child _ => traversal.visit child) := by
  rw [← visitChild_eq_map, ← visitChild_eq_map]
  rfl

@[simp]
theorem visit_list (traversal : Traversal m) (node : Sequence) :
    traversal.visit (.list node) =
      traversal.list node (node.items.map fun item _ => traversal.visit item) := by
  rw [← visitItems_eq_map]
  rfl

@[simp]
theorem visit_block (traversal : Traversal m) (node : Sequence) :
    traversal.visit (.block node) =
      traversal.block node (node.items.map fun item _ => traversal.visit item) := by
  rw [← visitItems_eq_map]
  rfl

@[simp]
theorem visit_dim (traversal : Traversal m) (node : Dim) :
    traversal.visit (.dim node) =
      traversal.dim node fun _ => traversal.visit node.extent := rfl

@[simp]
theorem visit_function (traversal : Traversal m) (node : Signature .function) :
    traversal.visit (.function node) =
      traversal.function node (fun _ => traversal.visit node.params)
        (fun _ => traversal.visit node.body) := rfl

@[simp]
theorem visit_method (traversal : Traversal m) (node : Signature .method) :
    traversal.visit (.method node) =
      traversal.method node (fun _ => traversal.visit node.params)
        (fun _ => traversal.visit node.body) := rfl

end Traversal

end ModelLang
