import ModelLang.Node.Traversal
import ModelLang.Proofs.Occurrences

/-!
# Traversals in preorder

A traversal that only adds something at the nodes does so in preorder, whatever it adds: the walk
over a node is the walk over the list of the nodes below it, followed by the node itself.  Targets
are not children, so they are not walked.
-/

namespace ModelLang

/-- The literal that a node is, if it is one. -/
def Node.literal? : Node → Option Literal
  | literal node => some node
  | _ => none

namespace Traversal

section Walks

variable {m : Type → Type} [Monad m] [LawfulMonad m]

theorem discard_eq {α : Type} (x : m α) : discard x = (do let _ ← x; pure ()) := by
  simp [discard, map_const]

theorem discard_runAll (walk : Node → m Node) (items : List Node) :
    discard (runAll (items.map fun item _ => walk item)) =
      forM items fun item => discard (walk item) := by
  induction items with
  | nil => simp [discard_eq, runAll]
  | cons item items induction =>
      rw [List.forM_cons, ← induction]
      simp [discard_eq, runAll]

theorem discard_runChild (walk : Node → m Node) (child : Option Node) :
    discard (runChild (child.map fun child _ => walk child)) =
      forM child.toList fun child => discard (walk child) := by
  cases child <;> simp [discard_eq, runChild]

/-- The walk enters a node, then walks its children from the first to the last, and keeps the
node. -/
theorem visit_entering_eq_children (enter : Node → m Unit) (node : Node) :
    (entering enter).visit node = (do
      enter node
      forM node.children fun child => discard ((entering enter).visit child)
      pure node) := by
  cases node with
  | literal | typeRef => simp [visit, entering, keeping, Node.children]
  | param node => simp [visit, entering, keeping, Node.children, discard_eq]
  | reference node =>
      rw [visit_reference]
      simp [entering, keeping, Node.children, discard_runChild]
  | list node =>
      rw [visit_list]
      simp [entering, keeping, Node.children, discard_runAll]
  | block node =>
      rw [visit_block]
      simp [entering, keeping, Node.children, discard_runAll]
  | dim node =>
      rw [visit_dim]
      simp [entering, keeping, Node.children, discard_eq]
  | function node =>
      rw [visit_function]
      simp [entering, keeping, Node.children, discard_eq]
  | method node =>
      rw [visit_method]
      simp [entering, keeping, Node.children, discard_eq]

omit [LawfulMonad m] in
theorem forM_congr {α : Type} {f g : α → m Unit} {xs : List α} (h : ∀ x ∈ xs, f x = g x) :
    forM xs f = forM xs g := by
  induction xs with
  | nil => rfl
  | cons x xs induction =>
      rw [List.forM_cons, List.forM_cons, h x (by simp),
        induction fun x member => h x (by simp [member])]

theorem forM_flatMap {α β : Type} (f : α → List β) (act : β → m Unit) (xs : List α) :
    forM (xs.flatMap f) act = forM xs fun x => forM (f x) act := by
  induction xs with
  | nil => rfl
  | cons x xs induction => rw [List.flatMap_cons, List.forM_append, induction, List.forM_cons]

theorem forM_filterMap {α β : Type} (f : α → Option β) (act : β → m Unit) (xs : List α) :
    forM (xs.filterMap f) act = forM xs fun x => forM (f x).toList act := by
  induction xs with
  | nil => rfl
  | cons x xs induction =>
      rw [List.filterMap_cons, List.forM_cons, ← induction]
      cases f x <;> simp

/-- A traversal that adds something at every node goes through the nodes below the root in
preorder. -/
theorem visit_entering (enter : Node → m Unit) (node : Node) :
    (entering enter).visit node = (do
      forM node.preorder enter
      pure node) := by
  induction node using Node.induct with
  | step node children =>
      have walk : ∀ child ∈ node.children,
          discard ((entering enter).visit child) = forM child.preorder enter := by
        intro child below
        simp [discard_eq, children child below]
      rw [visit_entering_eq_children, node.preorder_eq, List.forM_cons, forM_flatMap,
        forM_congr walk, bind_assoc]

/-- Adding nothing keeps every node. -/
theorem keeping_eq_entering : (keeping : Traversal m) = entering fun _ => pure () := by
  simp [entering, keeping]

/-- What is done at the literals only is done at every node, with nothing to do at the others. -/
theorem enteringLiterals_eq_entering (enter : Literal → m Unit) :
    enteringLiterals enter = entering fun node => forM node.literal?.toList enter := by
  simp [enteringLiterals, entering, keeping, Node.literal?]

theorem visit_keeping (node : Node) : (keeping : Traversal m).visit node = pure node := by
  have idle : forM node.preorder (fun _ => (pure () : m Unit)) = pure () := by
    induction node.preorder with
    | nil => rfl
    | cons _ _ induction => simp [induction]
  rw [keeping_eq_entering, visit_entering, idle, pure_bind]

theorem visit_enteringLiterals (enter : Literal → m Unit) (node : Node) :
    (enteringLiterals enter).visit node = (do
      forM (node.preorder.filterMap Node.literal?) enter
      pure node) := by
  rw [enteringLiterals_eq_entering, visit_entering, forM_filterMap]

end Walks

/-- Take something down at the end of a record. -/
def record {α : Type} (x : α) : StateM (List α) Unit :=
  modify (· ++ [x])

theorem run_forM_record {α β : Type} (xs taken : List α) (result : β) :
    (do forM xs record; pure result : StateM (List α) β) taken = (result, taken ++ xs) := by
  induction xs generalizing taken with
  | nil =>
      rw [List.append_nil]
      rfl
  | cons x xs induction =>
      have rest : (do forM (x :: xs) record; pure result : StateM (List α) β) taken =
          (do forM xs record; pure result : StateM (List α) β) (taken ++ [x]) := rfl
      rw [rest, induction, List.append_assoc, List.singleton_append]

/-- A traversal that records every node it enters takes down every occurrence once: the record goes
through all paths that lead to a node, in lexicographic order.  One that records the literals takes
down those of that record.  Both return the node that they are given, and so does the traversal that
adds nothing. -/
theorem visit_records_preorder (node : Node) :
    (∀ path found, (path, found) ∈ node.occurrences ↔ node.at? path = some found) ∧
      (node.occurrences.Pairwise fun a b => List.Lex (· < ·) a.1 b.1) ∧
      (∀ taken, (entering record).visit node taken =
        (node, taken ++ node.occurrences.map Prod.snd)) ∧
      (∀ taken, (enteringLiterals record).visit node taken =
        (node, taken ++ (node.occurrences.map Prod.snd).filterMap Node.literal?)) ∧
      ∀ {σ : Type} (state : σ),
        (keeping : Traversal (StateM σ)).visit node state = (node, state) := by
  refine ⟨fun _ _ => Node.mem_occurrences_iff, node.occurrences_pairwise, fun taken => ?nodes,
    fun taken => ?literals, fun state => ?kept⟩
  case nodes => rw [visit_entering, run_forM_record, Node.preorder]
  case literals => rw [visit_enteringLiterals, run_forM_record, Node.preorder]
  case kept =>
    rw [visit_keeping]
    rfl

end Traversal

end ModelLang
