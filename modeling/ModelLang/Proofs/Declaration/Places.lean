import Mathlib.Data.List.Find
import ModelLang.Proofs.Declaration.Filing

/-!
# The places of a scope

A dim belongs under its name, an overload under the name of its function, or under the receiver
and the name of its method.  An item repeats another one of its place when both are dims, or when
their parameters are equal; among items of a graph this is an equivalence.  Seen by places a
declaration has one rule for all kinds of items: the first item of the place that the new one
repeats decides what happens, and an item that repeats none goes after the others.
-/

namespace ModelLang

/-- Where a scope files an item. -/
inductive Place where
  | dim (name : String)
  | function (name : String)
  | method (receiver name : String)
  deriving DecidableEq

namespace Item

/-- The place of an item. -/
def place : Item → Place
  | dim declared => .dim declared.name
  | function declared => .function declared.name
  | method receiver declared => .method receiver declared.name

/-- What an overload is told apart by. -/
def params? : Item → Option Node
  | dim _ => none
  | function declared => some declared.params
  | method _ declared => some declared.params

/-- The items are dims of one name, or overloads of one place with equal parameters. -/
def Repeats (first again : Item) : Prop :=
  first.place = again.place ∧ ∀ params ∈ first.params?, ∀ params' ∈ again.params?, params ≈ params'

instance (first again : Item) : Decidable (first.Repeats again) :=
  inferInstanceAs (Decidable (_ ∧ _))

theorem Repeats.refl (item : Item) : item.Repeats item := by
  refine ⟨rfl, fun params found params' found' => ?_⟩
  obtain rfl : params = params' := Option.mem_unique found found'
  exact Node.equiv_self params

theorem Repeats.symm {first again : Item} (h : first.Repeats again) : again.Repeats first :=
  ⟨h.1.symm, fun params found params' found' => Node.equiv_symm (h.2 params' found' params found)⟩

@[simp]
theorem repeats_dim_iff {first again : Dim} :
    (dim first).Repeats (dim again) ↔ first.name = again.name := by
  simp [Repeats, place, params?]

@[simp]
theorem repeats_function_iff {first again : Signature .function} :
    (function first).Repeats (function again) ↔
      first.name = again.name ∧ first.params ≈ again.params := by
  simp [Repeats, place, params?]

@[simp]
theorem repeats_method_iff {receiver receiver' : String} {first again : Signature .method} :
    (method receiver first).Repeats (method receiver' again) ↔
      (receiver = receiver' ∧ first.name = again.name) ∧ first.params ≈ again.params := by
  simp [Repeats, place, params?]

/-- Items of one place are of one kind. -/
theorem params?_isSome_of_place_eq {first second : Item} (h : first.place = second.place) :
    first.params?.isSome = second.params?.isSome := by
  cases first <;> cases second <;> first | rfl | cases h

/-- A dim repeats every item of its place. -/
theorem repeats_iff_of_place_eq_dim {first again : Item} {name : String}
    (h : again.place = .dim name) : first.Repeats again ↔ first.place = .dim name := by
  cases again with
  | dim => rw [← h, Repeats, and_iff_left (by simp [params?])]
  | function | method => cases h

theorem mem_graph_of_mem_params? {graph : Graph} {item : Item} (inside : item.node ∈ graph)
    {params : Node} (h : params ∈ item.params?) : params ∈ graph := by
  refine graph.mem_child inside ?_
  cases item with
  | dim => cases h
  | function | method =>
      cases h
      exact List.mem_cons_self

theorem Repeats.trans {graph : Graph} {first second third : Item} (inside : first.node ∈ graph)
    (inside' : second.node ∈ graph) (inside'' : third.node ∈ graph) (h : first.Repeats second)
    (h' : second.Repeats third) : first.Repeats third := by
  refine ⟨h.1.trans h'.1, fun params found params'' found'' => ?_⟩
  have some : second.params?.isSome := by
    rw [params?_isSome_of_place_eq h'.1]
    exact Option.isSome_of_mem found''
  obtain ⟨params', found'⟩ := Option.isSome_iff_exists.mp some
  exact Node.equiv_trans graph (mem_graph_of_mem_params? inside found)
    (mem_graph_of_mem_params? inside' found') (mem_graph_of_mem_params? inside'' found'')
    (h.2 params found params' found') (h'.2 params' found' params'' found'')

/-- Two items that repeat the same one repeat each other. -/
theorem Repeats.of_common {graph : Graph} {first second third : Item}
    (inside : first.node ∈ graph) (inside' : second.node ∈ graph) (inside'' : third.node ∈ graph)
    (h : first.Repeats third) (h' : second.Repeats third) : first.Repeats second :=
  h.trans inside inside'' inside' h'.symm

/-- The error for an item that repeats another one.  An overload is always refused, and a dim when
it does not agree with the other one. -/
def complaint (strict : Bool) : Item → Item → Option Diagnostic
  | dim first, dim again =>
      if Scope.Unifies strict first again then none
      else some (.typeMismatch again.name first.extent.text again.extent.text again.span)
  | function first, function again => some (Scope.duplicate again first)
  | method _ first, method _ again => some (Scope.duplicate again first)
  | _, _ => none

theorem complaint_of_overload (strict : Bool) {first again : Item} (h : first.Repeats again)
    (overload : again.params?.isSome) :
    first.complaint strict again =
      some (.duplicateSignature again.name again.node.text first.node.text again.span
        first.span) := by
  cases again with
  | dim => cases overload
  | function => cases first <;> first | rfl | cases h.1
  | method => cases first <;> first | rfl | cases h.1

end Item

namespace Scope

/-- The items that are declared at a place. -/
def filed (scope : Scope) : Place → List Item
  | .dim name => (scope.dim? name).toList.map .dim
  | .function name => (scope.functionOverloads name).map .function
  | .method receiver name => (scope.methodOverloads receiver name).map (.method receiver)

/-- The scope with one more item at the end of its place. -/
def file (scope : Scope) : Item → Scope
  | .dim declared => scope.bindDim declared
  | .function declared => scope.appendFunction declared
  | .method receiver declared => scope.appendMethod receiver declared

/-- The first item in the scope that the item repeats. -/
def repeated? (scope : Scope) (item : Item) : Option Item :=
  (scope.filed item.place).find? (·.Repeats item)

section Consistent

variable {scope : Scope} (consistent : scope.Consistent)
include consistent

theorem Consistent.repeated?_dim (declared : Dim) :
    scope.repeated? (.dim declared) = (scope.dim? declared.name).map .dim := by
  rw [repeated?, Item.place, filed]
  cases found : scope.dim? declared.name with
  | none => rfl
  | some first =>
      have same : (Item.dim first).Repeats (.dim declared) :=
        Item.repeats_dim_iff.mpr (consistent.dim found)
      simp [same]

theorem Consistent.repeated?_function (declared : Signature .function) :
    scope.repeated? (.function declared) =
      ((scope.functionOverloads declared.name).find? (·.params ≈ declared.params)).map
        .function := by
  rw [repeated?, Item.place, filed, List.find?_map]
  congr 1
  refine List.find?_congr fun first member => decide_eq_decide.mpr ?_
  rw [Item.repeats_function_iff]
  exact and_iff_right ((consistent.lists_functionOverloads _).named first member)

theorem Consistent.repeated?_method (receiver : String) (declared : Signature .method) :
    scope.repeated? (.method receiver declared) =
      ((scope.methodOverloads receiver declared.name).find? (·.params ≈ declared.params)).map
        (.method receiver) := by
  rw [repeated?, Item.place, filed, List.find?_map]
  congr 1
  refine List.find?_congr fun first member => decide_eq_decide.mpr ?_
  rw [Item.repeats_method_iff]
  exact and_iff_right ⟨rfl, (consistent.lists_methodOverloads receiver _).named first member⟩

/-- The first item that the new one repeats decides what a declaration does. -/
theorem Consistent.declare_eq (strict : Bool) (item : Item) :
    scope.declare strict item =
      match scope.repeated? item with
      | none => .ok (scope.file item)
      | some first =>
          match first.complaint strict item with
          | none => .ok scope
          | some error => .error error := by
  cases item with
  | dim declared =>
      rw [Scope.declare, declareDim, consistent.repeated?_dim]
      cases scope.dim? declared.name with
      | none => rfl
      | some first =>
          simp only [Option.map_some, Item.complaint]
          split <;> rfl
  | function declared =>
      rw [Scope.declare, consistent.declareFunction_eq, consistent.repeated?_function]
      cases (scope.functionOverloads declared.name).find? (·.params ≈ declared.params) <;> rfl
  | method receiver declared =>
      rw [Scope.declare, consistent.declareMethod_eq, consistent.repeated?_method]
      cases (scope.methodOverloads receiver declared.name).find? (·.params ≈ declared.params) <;>
        rfl

/-- A new dim is alone at its place, and a new overload comes after the others. -/
theorem Consistent.filed_file {item : Item} (new : scope.repeated? item = none) (place : Place) :
    (scope.file item).filed place =
      scope.filed place ++ if place = item.place then [item] else [] := by
  cases item with
  | dim declared =>
      rw [consistent.repeated?_dim, Option.map_eq_none_iff] at new
      cases place with
      | dim name =>
          rw [file, filed, filed, dim?_bindDim, Item.place]
          by_cases same : name = declared.name
          · simp [same, new]
          · simp [same]
      | function | method => exact (List.append_nil _).symm
  | function declared =>
      cases place with
      | function name =>
          rw [file, filed, filed, functionOverloads_appendFunction, List.map_append, Item.place]
          by_cases same : name = declared.name <;> simp [same]
      | dim | method => exact (List.append_nil _).symm
  | method receiver declared =>
      cases place with
      | method owner name =>
          rw [file, filed, filed, methodOverloads_appendMethod, List.map_append, Item.place]
          by_cases same : owner = receiver ∧ name = declared.name
          · simp [same]
          · simp [same]
      | dim | function => exact (List.append_nil _).symm

end Consistent

end Scope
end ModelLang
