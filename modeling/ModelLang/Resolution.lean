import ModelLang.Resolution.Walk

/-!
# Resolving a list of items

Items are resolved one after the other with one state, so an item that an earlier use site reached
is not resolved again.
-/

namespace ModelLang

open Resolution

/-- The outcome of resolving a list of items. -/
structure Resolved where
  /-- The items with every use site resolved, in the same order. -/
  items : List Item
  /-- The errors, in the order they were found. -/
  errors : List Diagnostic
  events : List Event
  /-- The first identity that no node bears. -/
  next : NodeId

namespace Resolution

/-- Resolve the declaration of an item. -/
def resolveItem (walk : Walk) : Item → ResolveM Item
  | .dim declared => .dim <$> resolveDim walk [] declared
  | .function declared => .function <$> resolveSignature walk [] none declared
  | .method receiver declared =>
      .method receiver <$> resolveSignature walk [] (some receiver) declared

/-- Resolve the declarations of items from first to last. -/
def resolveItems (walk : Walk) : List Item → ResolveM (List Item)
  | [] => pure []
  | item :: items => do
      let resolved ← resolveItem walk item
      let rest ← resolveItems walk items
      pure (resolved :: rest)

end Resolution

/-- Resolve items in a scope.  All nodes bear identities below `next`. -/
def Scope.resolveAll (scope : Scope) (items : List Item) (next : NodeId) : Resolved :=
  let (resolved, state) := (resolveItems (visit scope next) items).run { next }
  let done := Event.resolutionDone state.declarationCount state.uses.size state.errors.length
  { items := resolved
    errors := state.errors
    events := state.events ++ [done]
    next := state.next }

end ModelLang
