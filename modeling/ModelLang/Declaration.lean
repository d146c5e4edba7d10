import ModelLang.Scope

/-!
# Declaring a list of items

Items are declared one after the other.  An item that cannot be declared is reported, and the next
one is declared in the scope as it was.
-/

namespace ModelLang

/-- The outcome of declaring a list of items. -/
structure Declared where
  /-- The scope with all items that could be declared. -/
  scope : Scope
  /-- How many dims were bound to a new name. -/
  dims : Nat := 0
  /-- How many overloads of functions were added. -/
  functions : Nat := 0
  /-- How many overloads of methods were added. -/
  methods : Nat := 0
  /-- The errors, in the order of the items. -/
  errors : List Diagnostic := []
  events : List Event := []

namespace Declared

/-- Count an item that is declared; a dim counts when its name is new. -/
def count (outcome : Declared) : Item → Declared
  | .dim declared =>
      if (outcome.scope.dim? declared.name).isNone then { outcome with dims := outcome.dims + 1 }
      else outcome
  | .function _ => { outcome with functions := outcome.functions + 1 }
  | .method _ _ => { outcome with methods := outcome.methods + 1 }

/-- Declare one more item. -/
def add (strict : Bool) (outcome : Declared) (item : Item) : Declared :=
  match outcome.scope.declare strict item with
  | .ok scope =>
      { outcome.count item with
        scope
        events := outcome.events ++ [outcome.scope.declared item] }
  | .error error => { outcome with errors := outcome.errors ++ [error] }

end Declared

/-- Declare items from first to last. -/
def Scope.declareAll (scope : Scope) (strict : Bool) (items : List Item) : Declared :=
  let outcome := items.foldl (Declared.add strict) { scope }
  let done := Event.declarationsDone outcome.dims outcome.functions outcome.methods
    outcome.errors.length
  { outcome with events := outcome.events ++ [done] }

end ModelLang
