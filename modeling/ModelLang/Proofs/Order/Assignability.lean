import ModelLang.Proofs.Order.Copies
import ModelLang.Proofs.Order.Product

/-!
# The order of nodes implies assignability

A node that lies below another one may stand in its place, so its type should be assignable to the
type of the other.  But a comparison looks at all children and at identities, while a type is
computed from what matters to it: a block has the type of its last item, and a dim is an integer
whatever its extent.  The type of a compound node is monotone in the types of its children, and a
leaf of known type is compared by type.  A use site that is unresolved is compared by its spelling;
it carries no type, so it does not occur where the type of a node is known.
-/

namespace ModelLang

namespace Leaf

/-- The type of what a leaf stands for. -/
def ty : Leaf → Ty
  | value held => held.ty
  | ofType ty => ty

/-- A leaf lies below a type if its own type is assignable to it. -/
theorem isLE_ofType {leaf : Leaf} {ty : Ty} :
    (leaf.compare (.ofType ty)).isLE = true ↔ leaf.ty ≤ ty := by
  cases leaf with
  | value held => exact isLE_value_ofType
  | ofType s => exact Iff.rfl

theorem ty_le_of_isLE {x y : Leaf} (known : x.ty.hasUnknown = false)
    (below : (x.compare y).isLE = true) : x.ty ≤ y.ty := by
  cases y with
  | ofType t => exact isLE_ofType.mp below
  | value y =>
      cases x with
      | ofType s => simp [isLE_ofType_value] at below
      | value x =>
          have alike : x.same y = true := by
            simpa only [compare, Comparison.isLE_equalIf] using below
          have types : (value x).ty = (value y).ty := Value.ty_eq_of_same alike
          rw [← types]
          exact Ty.le_self known

end Leaf

namespace Node

theorem ty_of_outline {node : Node} {leaf : Leaf} (h : node.outline = .leaf leaf) :
    node.ty = leaf.ty := by
  cases node with
  | literal | typeRef | param =>
      cases h
      rfl
  | reference node =>
      rw [outline] at h
      split at h
      · cases h
        rfl
      · cases h
  | list | block | dim | function | method => cases h

/-! ## Types of compound nodes -/

/-- The type of the first node is assignable to the type of the second, if it is known. -/
def Assignable (a b : Node) : Prop :=
  a.ty.hasUnknown = false → a.ty ≤ b.ty

theorem lastType_le {items items' : List Node} (assignable : List.Forall₂ Assignable items items')
    (known : (lastType .void items).hasUnknown = false) :
    lastType .void items ≤ lastType .void items' := by
  induction assignable with
  | nil => exact Ty.le_self rfl
  | cons head tail induction =>
      cases tail with
      | nil => exact head known
      | cons next rest => exact induction known

theorem hasUnknown_ty_list (list : Sequence) :
    (Node.list list).ty.hasUnknown = false ↔ ∀ item ∈ list.items, item.ty.hasUnknown = false := by
  rw [ty_list, Ty.hasUnknown_tuple, List.forall_mem_map]

/-- The type of a list is assignable to that of another one if the types of its items are. -/
theorem ty_list_le_iff (list list' : Sequence) :
    (Node.list list).ty ≤ (Node.list list').ty ↔
      List.Forall₂ (fun item item' => item.ty ≤ item'.ty) list.items list'.items := by
  rw [ty_list, ty_list, Ty.tuple_le_iff, List.forall₂_map_left_iff, List.forall₂_map_right_iff]

theorem assignable_signature {c : Callable} {a b : Signature c}
    (children : List.Forall₂ Assignable [a.params, a.body] [b.params, b.body]) :
    Assignable a.node b.node := by
  intro known
  obtain ⟨params, rest⟩ := List.forall₂_cons.mp children
  have body : Assignable a.body b.body := (List.forall₂_cons.mp rest).1
  rw [ty_signature, Ty.hasUnknown_function] at known
  rw [ty_signature, ty_signature, Ty.function_le_iff]
  exact ⟨params known.1, body known.2⟩

/-- The type of a compound node is monotone in the types of its children. -/
theorem assignable_of_children {a b : Node} (kinds : a.kind = b.kind)
    (compound : a.kind.isLeaf = false) (children : List.Forall₂ Assignable a.children b.children) :
    Assignable a b := by
  cases a with
  | literal | typeRef | param | reference => cases compound
  | list a =>
      cases b with
      | list b =>
          intro known
          rw [hasUnknown_ty_list] at known
          rw [ty_list_le_iff]
          exact forall₂_imp_of_mem children fun item member _ _ assignable =>
            assignable (known item member)
      | _ => cases kinds
  | block a =>
      cases b with
      | block b => exact lastType_le children
      | _ => cases kinds
  | dim a =>
      cases b with
      | dim b => exact fun known => Ty.le_self known
      | _ => cases kinds
  | function a =>
      cases b with
      | function b => exact assignable_signature children
      | _ => cases kinds
  | method a =>
      cases b with
      | method b => exact assignable_signature children
      | _ => cases kinds

/-! ## Nodes in the order -/

/-- A use site in the node that carries no declaration carries no type either, as it is written or
as a resolution that fails leaves it. -/
def PendingUntyped (node : Node) : Prop :=
  ∀ site : Reference, (reference site).OccursIn node → site.target = none → site.ty = .unknown

theorem pendingUntyped_iff {node : Node} :
    node.PendingUntyped ↔
      (∀ site, node = reference site → site.target = none → site.ty = .unknown) ∧
        ∀ child ∈ node.children, child.PendingUntyped := by
  constructor
  · intro untyped
    refine ⟨?_, fun child member site occurs => untyped site (.child member occurs)⟩
    rintro site rfl
    exact untyped site .self
  · rintro ⟨itself, children⟩ site occurs
    cases occurs with
    | self => exact itself site rfl
    | child member occurs => exact children _ member site occurs

/-- A node that is no use site has the use sites of its children. -/
theorem pendingUntyped_of_children {node : Node} (kind : node.kind ≠ .reference)
    (children : ∀ child ∈ node.children, child.PendingUntyped) : node.PendingUntyped := by
  refine pendingUntyped_iff.mpr ⟨?_, children⟩
  rintro site rfl
  exact absurd rfl kind

theorem PendingUntyped.child {node child : Node} (untyped : node.PendingUntyped)
    (member : child ∈ node.children) : child.PendingUntyped :=
  (pendingUntyped_iff.mp untyped).2 child member

/-- A leaf of known type is compared by what it stands for. -/
theorem exists_outline_eq_leaf {node : Node} (leaf : node.kind.isLeaf = true)
    (untyped : node.PendingUntyped) (known : node.ty.hasUnknown = false) :
    ∃ leaf, node.outline = .leaf leaf := by
  cases node with
  | literal | typeRef | param => exact ⟨_, rfl⟩
  | reference site =>
      cases resolved : site.target with
      | none =>
          have unknown : (reference site).ty = .unknown := untyped site .self resolved
          rw [unknown] at known
          cases known
      | some target => exact ⟨_, if_pos (by simp [ReferenceOf.isResolved, resolved])⟩
  | list | block | dim | function | method => cases leaf

section Graph

variable (graph : Graph) {a b : Node} (ha : a ∈ graph) (hb : b ∈ graph)
include ha hb

/-- A node of known type below another one has a type that is assignable to the other's. -/
theorem assignable_of_le (untyped : a.PendingUntyped) (below : a ≤ b) : Assignable a b := by
  intro known
  induction a using induct generalizing b with
  | step a children_assignable =>
      by_cases same : a.id = b.id
      · obtain rfl : a = b := graph.eq_of_id ha hb same
        exact Ty.le_self known
      have comparable : a.compare b ≠ .incomparable := by
        intro apart
        change (a.compare b).isLE = true at below
        simp [apart, Comparison.isLE] at below
      cases leaf : a.kind.isLeaf with
      | false =>
          have kinds : a.kind = b.kind := by
            rcases kinds_of_comparable graph ha hb comparable with kinds | ⟨leaf', -⟩
            · exact kinds
            · simp [leaf] at leaf'
          have children := (le_iff_children graph ha hb kinds leaf).mp below
          refine assignable_of_children kinds leaf ?_ known
          exact forall₂_imp_of_mem children fun x hx y hy below known =>
            children_assignable x hx (graph.mem_child ha hx) (graph.mem_child hb hy)
              (untyped.child hx) below known
      | true =>
          obtain ⟨x, outlined⟩ := exists_outline_eq_leaf leaf untyped known
          change (a.compare b).isLE = true at below
          rw [compare_of_ne same, outlined] at below
          cases outlined' : b.outline with
          | leaf y =>
              rw [ty_of_outline outlined] at known ⊢
              rw [ty_of_outline outlined']
              rw [outlined'] at below
              exact Leaf.ty_le_of_isLE known below
          | pending | product =>
              rw [outlined'] at below
              cases below

/-- A node of known type lies below others only if its type is assignable to theirs, and it is equal
to others only if their types are equal. -/
theorem types_ordered (untyped : a.PendingUntyped) (untyped' : b.PendingUntyped)
    (known : a.ty.hasUnknown = false) :
    (a ≤ b → a.ty ≤ b.ty) ∧ (a ≈ b → a.ty.compare b.ty = .equal) := by
  refine ⟨fun below => assignable_of_le graph ha hb untyped below known, fun equal => ?_⟩
  have upwards : a.ty ≤ b.ty :=
    assignable_of_le graph ha hb untyped (le_of_equiv equal) known
  have back : b.ty ≤ a.ty :=
    assignable_of_le graph hb ha untyped' (le_of_equiv (equiv_symm equal)) (Ty.known_of_le upwards)
  exact Ty.compare_eq_equal upwards back

end Graph

/-! ## Functions whose bodies hold an unresolved use site -/

namespace PendingBodies

open SharedLists (pending three int real)

def again : Node := .reference ⟨8, none, "y", none, none, .unknown, none, { line := 1 }⟩
def pair (id : NodeId) (first second : Node) : Node := .list ⟨id, [first, second], {}⟩
def body (id : NodeId) (first last : Node) : Node := .block ⟨id, [first, last], {}⟩

/-- Of type `(Int, Int) -> Int`. -/
def narrow : Node := .function ⟨13, "f", pair 9 three int, body 10 pending three, {}⟩

/-- Equal to the one before, with another use site of the same spelling. -/
def copy : Node := .function ⟨14, "g", pair 9 three int, body 11 again three, {}⟩

/-- Of type `(Int, Real) -> Real`. -/
def wide : Node := .function ⟨15, "h", pair 16 int real, body 12 pending real, {}⟩

def graph : Graph :=
  .ofList [pending, three, int, real, again, pair 9 three int, pair 16 int real,
      body 10 pending three, body 11 again three, body 12 pending real, narrow, copy, wide]
    (by simp [pending, three, int, real, again, pair, body, narrow, copy, wide, children])
    (by decide)

theorem mem_graph : narrow ∈ graph ∧ copy ∈ graph ∧ wide ∈ graph := by
  refine ⟨?_, ?_, ?_⟩ <;>
    change _ ∈ [pending, three, int, real, again, pair 9 three int, pair 16 int real,
      body 10 pending three, body 11 again three, body 12 pending real, narrow, copy, wide] <;> simp

theorem pendingUntyped_leaves :
    pending.PendingUntyped ∧ again.PendingUntyped ∧ three.PendingUntyped ∧ int.PendingUntyped ∧
      real.PendingUntyped := by
  refine ⟨?_, ?_, ?_, ?_, ?_⟩
  · exact pendingUntyped_iff.mpr ⟨by rintro _ ⟨⟩ _; rfl, by simp [pending, children]⟩
  · exact pendingUntyped_iff.mpr ⟨by rintro _ ⟨⟩ _; rfl, by simp [again, children]⟩
  all_goals exact pendingUntyped_of_children (by decide) (by simp [three, int, real, children])

theorem pendingUntyped_couple {first second : Node} (h : first.PendingUntyped)
    (h' : second.PendingUntyped) (id : NodeId) :
    (pair id first second).PendingUntyped ∧ (body id first second).PendingUntyped := by
  constructor
  · exact pendingUntyped_of_children (by simp [pair, kind]) (by simp [pair, children, h, h'])
  · exact pendingUntyped_of_children (by simp [body, kind]) (by simp [body, children, h, h'])

theorem pendingUntyped :
    narrow.PendingUntyped ∧ copy.PendingUntyped ∧ wide.PendingUntyped := by
  obtain ⟨pending, again, three, int, real⟩ := pendingUntyped_leaves
  refine ⟨?_, ?_, ?_⟩ <;> refine pendingUntyped_of_children (by decide) ?_ <;>
    simp [narrow, copy, wide, children, pendingUntyped_couple, pending, again, three, int, real]

end PendingBodies

open PendingBodies in
/-- The functions are ordered and equal, and so are their types, although an item of their bodies
has no type. -/
theorem types_ordered_pendingBodies :
    (narrow ∈ graph ∧ copy ∈ graph ∧ wide ∈ graph) ∧
      (narrow.PendingUntyped ∧ copy.PendingUntyped ∧ wide.PendingUntyped) ∧
      narrow.ty.hasUnknown = false ∧ narrow ≤ wide ∧ narrow ≈ copy ∧
      narrow.ty ≤ wide.ty ∧ narrow.ty.compare copy.ty = .equal := by
  obtain ⟨hn, hc, hw⟩ := mem_graph
  obtain ⟨un, uc, uw⟩ := pendingUntyped
  have known : narrow.ty.hasUnknown = false := rfl
  have below : narrow ≤ wide := by decide
  have equal : narrow ≈ copy := by decide
  exact ⟨mem_graph, pendingUntyped, known, below, equal,
    (types_ordered graph hn hw un uw known).1 below,
    (types_ordered graph hn hc un uc known).2 equal⟩

end Node

end ModelLang
