import ModelLang.Model
import ModelLang.Proofs.Resolution.Run

/-!
# What a build returns

A build that no construct fails declares its items in an empty scope and resolves them in the scope
that results.  The items of a graph give an input of the resolution in this way, so what is proved
of a resolution is true of a build.
-/

namespace ModelLang

namespace Scope.Declares

variable {graph : Graph}

theorem add {outcome : Declared} {item : Item} (declares : outcome.scope.Declares graph)
    (strict : Bool) (inside : item.node ∈ graph) :
    (outcome.add strict item).scope.Declares graph := by
  unfold Declared.add
  split
  case h_1 grown declared => exact .declare declares inside declared
  case h_2 => exact declares

/-- Declaring items of a graph makes a scope of that graph. -/
theorem declareAll {scope : Scope} (declares : scope.Declares graph) (strict : Bool)
    {items : List Item} (listed : ∀ item ∈ items, item.node ∈ graph) :
    (scope.declareAll strict items).scope.Declares graph :=
  List.foldlRecOn (motive := fun outcome => outcome.scope.Declares graph) items
    (Declared.add strict) declares
    fun _ declares item member => declares.add strict (listed item member)

end Scope.Declares

/-- The items of a graph, to be resolved in the scope that declaring them gives. -/
def Resolution.Input.ofItems {graph : Graph} {items : List Item} {next : NodeId} (strict : Bool)
    (listed : ∀ item ∈ items, item.node ∈ graph) (below : ∀ node ∈ graph, node.id < next) :
    Resolution.Input where
  graph
  scope := (({} : Scope).declareAll strict items).scope
  items
  next
  declares := Scope.Declares.empty.declareAll strict listed
  listed
  below inside := below _ inside

namespace Model

variable (model : Model)

/-- The outcome of declaring the items. -/
def declared : Declared :=
  ({} : Scope).declareAll model.settings.strictDims model.items

/-- The outcome of resolving the items where they are declared. -/
def resolved (next : NodeId) : Resolved :=
  model.declared.scope.resolveAll model.items next

/-- All errors: those of the declarations and then those of the use sites. -/
def errors (next : NodeId) : List Diagnostic :=
  model.declared.errors ++ (model.resolved next).errors

end Model

/-- A build shows what became of the declarations and of the use sites of a model. -/
structure Built.Shows (built : Built) (model : Model) (next : NodeId) : Prop where
  scope_eq : built.scope = model.declared.scope
  items_eq : built.items = (model.resolved next).items
  report_eq :
    built.report = (Report.withLimit model.settings.maxDiagnostics).addAll (model.errors next)
  listing_eq :
    built.listing = if model.settings.listTypes then some (typeListing built.items) else none

/-- A model without a failure is built. -/
theorem Model.exists_built {model : Model} (sound : model.failure? = none) (next : NodeId) :
    ∃ built, model.build next = .ok built ∧ built.Shows model next := by
  rw [build, sound]
  exact ⟨_, rfl, rfl, rfl, (Report.addAll_append _ _ _).symm, rfl⟩

end ModelLang
