import ModelLang.Node.Traversal
import ModelLang.Resolution.Lookup
import ModelLang.Resolution.State

/-!
# Resolving use sites

The walk replaces a use site by one that carries its type and its target.  A node is rebuilt only
when one of its children changed.  The target of a call is resolved before the type of the call is
read, even when it is declared later; a target that is still in progress gives the call the type
`Ty.unknown`, so a chain of declarations never comes back to one of its own members.

The contents of a declaration are resolved by a walk that is given as an argument.  It is the walk
itself with one level of declarations less.  The declarations in progress are all different, so
there are never more levels than identities.
-/

namespace ModelLang.Resolution

/-- Resolve a node in a context. -/
abbrev Walk := Stack → Node → ResolveM Node

/-- A dim with its extent resolved; it is rebuilt when the extent changed. -/
def rebuildDim (dim : Dim) (extent : Node) : ResolveM Dim := do
  if extent.same dim.extent then return dim
  else
    let id ← freshId
    return { dim with id, extent }

/-- A signature with its body resolved; it is rebuilt when the body changed. -/
def rebuildSignature {c : Callable} (signature : Signature c) (body : Node) :
    ResolveM (Signature c) := do
  if body.same signature.body then return signature
  else
    let id ← freshId
    return { signature with id, body }

/-- Resolve the extent of a dim.  A dim that is in progress stays as it is. -/
def resolveDim (walk : Walk) (stack : Stack) (dim : Dim) : ResolveM Dim := do
  match (← get).dims.find? dim.id with
  | some resolved => return resolved
  | none =>
      if stack.Resolving dim.id then return dim
      else
        let extent ← walk (.extent dim.id :: stack) dim.extent
        let resolved ← rebuildDim dim extent
        modify (State.rememberDim dim.id resolved)
        return resolved

/-- Resolve the body of a signature inside a receiver.  A signature that is in progress stays as it
is. -/
def resolveSignature {c : Callable} (walk : Walk) (stack : Stack) (receiver : Option String)
    (signature : Signature c) : ResolveM (Signature c) := do
  match (← get).signature? c signature.id with
  | some resolved => return resolved
  | none =>
      if stack.Resolving signature.id then return signature
      else
        let frame := Frame.body signature.id receiver signature.formals
        let body ← walk (frame :: stack) signature.body
        let resolved ← rebuildSignature signature body
        modify (State.rememberSignature signature.id resolved)
        return resolved

/-- The type and the target of a use site. -/
abbrev Meaning := Ty × Target

/-- Use the overload that a call selected. -/
def enter {c : Callable} (walk : Walk) (stack : Stack) (receiver : Option String)
    (selected : Signature c) : ResolveM Meaning := do
  if stack.Resolving selected.id then return (.unknown, .signature selected)
  else
    let resolved ← resolveSignature walk stack receiver selected
    return (resolved.body.ty, .signature resolved)

/-- The arguments of a use site; without parentheses, an empty list. -/
def argumentsOf (reference : Reference) : Option Node → ResolveM Node
  | some parens => pure parens
  | none => do
      let id ← freshId
      pure (.list ⟨id, [], reference.span⟩)

/-- Call the overload that `resolve` selects from overloads inside a receiver. -/
def call {c : Callable} (walk : Walk) (stack : Stack) (reference : Reference)
    (parens : Option Node) (receiver : Option String) (overloads : OverloadSet (Signature c))
    (resolve : Node → Span → Except Diagnostic (Signature c)) :
    ResolveM (Except Diagnostic Meaning) := do
  let arguments ← argumentsOf reference parens
  record (overloads.choosing arguments)
  match resolve arguments reference.span with
  | .ok selected => return .ok (← enter walk stack receiver selected)
  | .error error => return .error error

/-- The meaning of a use site from what its name stands for. -/
def interpret (walk : Walk) (stack : Stack) (reference : Reference) (parens : Option Node) :
    Binding → ResolveM (Except Diagnostic Meaning)
  | .param param => return .ok (param.ty, .param param)
  | .dim dim => do
      let resolved ← resolveDim walk stack dim
      return .ok (.int, .dim resolved)
  | .function overloads =>
      call walk stack reference parens none overloads overloads.resolve
  | .method method =>
      call walk stack reference parens (some method.receiver) method.overloads method.resolve

/-- The meaning of a use site whose children are resolved.  A name without a binding and a call
without a selection are reported; a call with arguments of unknown type is left without a
meaning. -/
def findMeaning (scope : Scope) (walk : Walk) (stack : Stack) (reference : Reference)
    (parens : Option Node) : ResolveM (Option Meaning) := do
  if parens.any (·.ty.hasUnknown) then return none
  else
    let found ←
      match lookup scope stack reference with
      | .ok binding => interpret walk stack reference parens binding
      | .error error => pure (.error error)
    match found with
    | .ok (ty, target) =>
        record (.resolved reference target ty)
        return some (ty, target)
    | .error error =>
        report error
        return none

/-- A use site with its children and meaning; it is rebuilt when it has a meaning or a child
changed. -/
def rebuildReference (reference : Reference) (brackets parens : Option Node)
    (meaning : Option Meaning) : ResolveM Reference := do
  if meaning.isNone && Node.sameChild brackets reference.brackets &&
      Node.sameChild parens reference.parens then
    return reference
  else
    let id ← freshId
    return {
      reference with
      id
      brackets
      parens
      ty := (meaning.map Prod.fst).getD .unknown
      target := meaning.map Prod.snd }

/-- Resolve a use site, unless the outcome for its owner is remembered. -/
def resolveReference (scope : Scope) (walk : Walk) (stack : Stack) (reference : Reference)
    (brackets parens : Option (ChildWalk ResolveM)) : ResolveM Reference := do
  match (← get).uses.find? (reference.id, stack.owner?) with
  | some resolved => return resolved
  | none =>
      let brackets ← Traversal.runChild brackets
      let parens ← Traversal.runChild parens
      let meaning ← findMeaning scope walk stack reference parens
      let resolved ← rebuildReference reference brackets parens meaning
      modify (State.rememberUse reference.id stack.owner? resolved)
      return resolved

/-- A sequence with its items resolved; it is rebuilt when an item changed. -/
def rebuildSequence (sequence : Sequence) (items : List Node) : ResolveM Sequence := do
  if (List.zipWith Node.same items sequence.items).all id then return sequence
  else
    let id ← freshId
    return { sequence with id, items }

/-- Resolve the items of a sequence. -/
def resolveSequence (sequence : Sequence) (items : List (ChildWalk ResolveM)) :
    ResolveM Sequence := do
  let items ← Traversal.runAll items
  rebuildSequence sequence items

/-- Resolution as a traversal: declarations inside a node are resolved on their own. -/
def resolving (scope : Scope) (walk : Walk) (stack : Stack) : Traversal ResolveM :=
  { Traversal.keeping with
    reference := fun reference brackets parens =>
      .reference <$> resolveReference scope walk stack reference brackets parens
    list := fun list items => .list <$> resolveSequence list items
    block := fun block items => .block <$> resolveSequence block items
    dim := fun dim _ => .dim <$> resolveDim walk stack dim
    function := fun signature _ _ => .function <$> resolveSignature walk stack none signature
    method := fun signature _ _ =>
      .method <$> resolveSignature walk stack stack.receiver? signature }

/-- The walk through at most `depth` levels of declarations. -/
def visit (scope : Scope) : Nat → Walk
  | 0, _, node => pure node
  | depth + 1, stack, node => (resolving scope (visit scope depth) stack).visit node

end ModelLang.Resolution
