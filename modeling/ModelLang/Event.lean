import ModelLang.Item
import ModelLang.OverloadSet

/-!
# Events

What the library does is recorded as a list of events, in the order of the effects.  An event
holds the things it is about; level and message are computed from it.
-/

namespace ModelLang

/-- How important an event is. -/
inductive Level where
  | trace
  | debug
  | warn
  deriving DecidableEq, Repr

/-- The name of a level. -/
def Level.text : Level → String
  | trace => "TRACE"
  | debug => "DEBUG"
  | warn => "WARN"

/-- Something that happened. -/
inductive Event where
  /-- A call was matched against the candidates of an overload set. -/
  | choosing (name : String) (arguments : Node) (applicable total : Nat)
  /-- A dim was bound to a new name. -/
  | declaredDim (dim : Dim)
  /-- A dim was found to agree with the one its name is bound to. -/
  | unifiedDim (dim existing : Dim)
  /-- An overload was added to a function. -/
  | declaredFunction (signature : Signature .function)
  /-- An overload was added to a method of a receiver. -/
  | declaredMethod (receiver : String) (signature : Signature .method)
  /-- A list of items was declared. -/
  | declarationsDone (dims functions methods errors : Nat)
  /-- A use site was resolved. -/
  | resolved (reference : Reference) (target : Target) (ty : Ty)
  /-- The use sites of a list of items were resolved. -/
  | resolutionDone (declarations useSites errors : Nat)
  /-- An item was added to a model. -/
  | added (item : Item)
  /-- An item of a model could not be built. -/
  | malformed (error : Malformed)
  /-- Diagnostics of a build were dropped. -/
  | diagnosticsDropped (dropped limit : Nat)
  /-- A model was built. -/
  | built (items diagnostics : Nat)

namespace Event

/-- The importance of an event. -/
def level : Event → Level
  | choosing .. => .trace
  | malformed .. => .warn
  | diagnosticsDropped .. => .warn
  | _ => .debug

/-- The message of an event. -/
def message : Event → String
  | choosing name arguments applicable total =>
      s!"resolving {name}({arguments.text}): {applicable} of {total} candidates applicable"
  | declaredDim declared => s!"declared {(Node.dim declared).text}"
  | unifiedDim declared existing =>
      s!"unified {(Node.dim declared).text} with {(Node.dim existing).text}"
  | declaredFunction declared => s!"declared {declared.node.text}"
  | declaredMethod receiver declared => s!"declared {receiver}.{declared.name}"
  | declarationsDone dims functions methods errors =>
      s!"declaration pass: {dims} dims, {functions} functions, {methods} methods, {errors} errors"
  | resolved reference target ty =>
      s!"resolved {(Node.reference reference).text} to {target.node.text} : {ty.text}"
  | resolutionDone declarations useSites errors =>
      s!"resolution pass: {declarations} declarations and {useSites} use sites resolved, " ++
        s!"{errors} errors"
  | added item => s!"unit: added {item.text}"
  | malformed error => s!"unit: {error.message}"
  | diagnosticsDropped dropped limit =>
      s!"unit: {dropped} diagnostics dropped over the limit of {limit}"
  | built items diagnostics => s!"unit: built {items} items with {diagnostics} diagnostics"

end Event

/-- What is recorded when arguments are matched against the candidates of an overload set. -/
def OverloadSet.choosing {α : Type} [Candidate α] (set : OverloadSet α) (arguments : Node) :
    Event :=
  .choosing set.name arguments (set.applicable arguments).length set.candidates.length

end ModelLang
