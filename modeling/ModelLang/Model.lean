import ModelLang.Declaration
import ModelLang.Node.Construction
import ModelLang.Report
import ModelLang.Resolution
import ModelLang.Settings
import ModelLang.TypeListing

/-!
# Models

A model collects declarations and is built at the end: the items are declared in an empty scope,
their use sites are resolved in it, and all errors are reported together.  A declaration that
could not be built makes the whole build fail, with the first such failure.
-/

namespace ModelLang

/-- The declarations of one model. -/
structure Model where
  settings : Settings := {}
  /-- The declarations, in the order they were added. -/
  items : List Item := []
  /-- The first declaration that could not be built. -/
  failure? : Option Malformed := none

/-- The outcome of a build. -/
structure Built where
  /-- The scope with all items that could be declared. -/
  scope : Scope
  /-- The items with every use site resolved, in the order they were added. -/
  items : List Item
  /-- The errors of the declarations and then those of the use sites. -/
  report : Report
  /-- The type listing of the resolved items, if the settings ask for it. -/
  listing : Option String
  events : List Event
  /-- The first identity that no node bears. -/
  next : NodeId

namespace Built

/-- No error was found. -/
def isClean (built : Built) : Bool :=
  built.report.isEmpty

/-- The outcome if it is clean, and its report otherwise. -/
def check (built : Built) : Except Report Built :=
  if built.isClean then .ok built else .error built.report

end Built

namespace Model

/-- Add an item after the others. -/
def add (model : Model) (item : Item) : Model :=
  { model with items := model.items ++ [item] }

/-- Add the item that was to be built; if building it failed, remember the first failure. -/
def addBuilt (model : Model) : Except Malformed Item → Model
  | .ok item => model.add item
  | .error error => { model with failure? := model.failure?.or (some error) }

/-- Build and add a dim. -/
def addDim (model : Model) (id : NodeId) (name : String) (extent : Option Node) (span : Span) :
    Model :=
  model.addBuilt (.dim <$> DimOf.make id name extent span)

/-- Build and add an overload of a function. -/
def addFunction (model : Model) (id : NodeId) (name : String) (params body : Option Node)
    (span : Span) : Model :=
  model.addBuilt (.function <$> SignatureOf.make .function id name params body span)

/-- Build and add an overload of a method of a receiver. -/
def addMethod (model : Model) (id : NodeId) (receiver name : String) (params body : Option Node)
    (span : Span) : Model :=
  model.addBuilt (.method receiver <$> SignatureOf.make .method id name params body span)

/-- What is recorded when an item is added or could not be built. -/
def addition : Except Malformed Item → Event
  | .ok item => .added item
  | .error error => .malformed error

/-- The warning about diagnostics that a report dropped. -/
def droppedEvents (report : Report) : List Event :=
  if report.dropped = 0 then [] else [.diagnosticsDropped report.dropped report.limit]

/-- Declare and resolve all items.  All nodes of the model bear identities below `next`. -/
def build (model : Model) (next : NodeId) : Except Failure Built :=
  match model.failure? with
  | some error => .error (.malformed error)
  | none =>
      let declared := ({} : Scope).declareAll model.settings.strictDims model.items
      let resolved := declared.scope.resolveAll model.items next
      let report := ((Report.withLimit model.settings.maxDiagnostics).addAll declared.errors).addAll
        resolved.errors
      let listing := if model.settings.listTypes then some (typeListing resolved.items) else none
      let done := Event.built resolved.items.length report.kept.length
      .ok {
        scope := declared.scope
        items := resolved.items
        report
        listing
        events := declared.events ++ resolved.events ++ droppedEvents report ++ [done]
        next := resolved.next }

end Model

end ModelLang
