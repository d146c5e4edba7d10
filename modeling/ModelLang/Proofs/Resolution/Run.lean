import Mathlib.Data.List.Perm.Subperm
import ModelLang.Proofs.Reach
import ModelLang.Proofs.Resolution.Lookup
import ModelLang.Resolution

/-!
# Runs of the resolution

A run says what one part of a resolution was given, what it returned, and how it changed the
state.  It has one rule for each way in which a part is resolved, so a property of the resolution
is shown rule by rule.  The rules know nothing of a bound on nested declarations; that the walk
never meets its bound is shown once, in the theorem that the walk is a run.
-/

namespace ModelLang.Resolution

/-- What a resolution is given: items of a scope whose declarations are in one graph, with
identities below the first free one. -/
structure Input where
  graph : Graph
  scope : Scope
  items : List Item
  next : NodeId
  declares : scope.Declares graph
  listed : ∀ item ∈ items, item.node ∈ graph
  below : ∀ {node}, node ∈ graph → node.id < next

namespace Frame

/-- A frame is the context of the contents of a declaration. -/
inductive Opens : Node → Frame → Prop
  | dim (dim : Dim) : Opens (.dim dim) (.extent dim.id)
  | signature {c : Callable} (signature : Signature c) (receiver : Option String) :
      Opens signature.node (.body signature.id receiver signature.formals)

/-- The contents of a declaration are resolved under its identity. -/
theorem Opens.declaration_eq {declaration : Node} {frame : Frame}
    (opens : Opens declaration frame) : frame.declaration = declaration.id := by
  cases opens with
  | dim => rfl
  | signature signature => exact signature.id_node.symm

end Frame

/-- The frames of a stack are contexts of different declarations of a graph. -/
structure Stack.Of (graph : Graph) (stack : Stack) : Prop where
  distinct : (stack.map Frame.declaration).Nodup
  opens : ∀ frame ∈ stack, ∃ declaration ∈ graph, Frame.Opens declaration frame

namespace Stack.Of

variable {graph : Graph} {stack : Stack}

theorem nil : Stack.Of graph [] where
  distinct := .nil
  opens := by simp

/-- A declaration that is not in progress may be opened. -/
theorem push {declaration : Node} {frame : Frame} (proper : stack.Of graph)
    (opens : Frame.Opens declaration frame) (inside : declaration ∈ graph)
    (idle : ¬ stack.Resolving frame.declaration) : Stack.Of graph (frame :: stack) where
  distinct := List.nodup_cons.mpr ⟨idle, proper.distinct⟩
  opens := List.forall_mem_cons.mpr ⟨⟨declaration, inside, opens⟩, proper.opens⟩

/-- There are no more declarations in progress than identities. -/
theorem length_le {next : NodeId} (proper : stack.Of graph)
    (below : ∀ {node}, node ∈ graph → node.id < next) : stack.length ≤ next := by
  have inRange : stack.map Frame.declaration ⊆ List.range next := by
    intro id member
    obtain ⟨frame, here, rfl⟩ := List.mem_map.mp member
    obtain ⟨declaration, inside, opens⟩ := proper.opens frame here
    rw [opens.declaration_eq, List.mem_range]
    exact below inside
  have bound := (List.subperm_of_subset proper.distinct inRange).length_le
  rwa [List.length_map, List.length_range] at bound

end Stack.Of

/-- A part of a resolution, with what it is given and what it returns. -/
inductive Job where
  | node (given returned : Node)
  | items (given returned : List Node)
  | child (given returned : Option Node)
  | dim (given returned : Dim)
  | signature {c : Callable} (receiver : Option String) (given returned : Signature c)
  /-- The meaning of a use site whose parentheses are resolved. -/
  | meaning (site : Reference) (parens : Option Node) (returned : Option Meaning)

/-- What a job is given comes from a graph. -/
def Job.In (graph : Graph) : Job → Prop
  | node given _ => given ∈ graph
  | items given _ => ∀ item ∈ given, item ∈ graph
  | child given _ => ∀ child ∈ given, child ∈ graph
  | dim given _ => .dim given ∈ graph
  | signature _ given _ => given.node ∈ graph
  | meaning site parens _ => .reference site ∈ graph ∧ parens.isSome = site.parens.isSome

/-- A job is met in a context of the graph that it is about. -/
structure Input.Allows (input : Input) (stack : Stack) (job : Job) : Prop where
  stack : stack.Of input.graph
  job : job.In input.graph

/-- A use site without parentheses keeps none. -/
theorem Input.Allows.parens_eq_none {input : Input} {stack : Stack} {site : Reference}
    {parens : Option Node} {meaning : Option Meaning}
    (allowed : input.Allows stack (.meaning site parens meaning)) (noCall : site.parens = none) :
    parens = none := by
  have isSome := allowed.job.2
  rwa [noCall, Option.isSome_none, Option.isSome_eq_false_iff, Option.isNone_iff_eq_none] at isSome

/-- The overload that a use site selects was declared. -/
theorem Input.mem_of_resolve (input : Input) {stack : Stack} {site : Reference} {binding : Binding}
    {c : Callable} {receiver : Option String} {overloads : OverloadSet (Signature c)}
    {resolve : Node → Span → Except Diagnostic (Signature c)} {arguments : Node}
    {selected : Signature c} (bound : lookup input.scope stack site = .ok binding)
    (calls : binding.Calls receiver overloads resolve)
    (selects : resolve arguments site.span = .ok selected) : selected.node ∈ input.graph := by
  have files := calls.files (found_of_lookup bound) input.declares.within
  have chosen := calls.resolve_eq_ok_iff_choose.mp selects
  exact (files.mem selected (OverloadSet.mem_of_choose_eq_unique chosen).1).1

/-- The arguments of a use site have a type without placeholder, or there are none. -/
def Known (parens : Option Node) : Prop :=
  parens.any (·.ty.hasUnknown) = false

/-- A part of a resolution is resolved in a context, from one state to another. -/
inductive Run (input : Input) : Stack → State → Job → State → Prop
  | literal {stack state node}
      (allowed : input.Allows stack (.node (.literal node) (.literal node))) :
      Run input stack state (.node (.literal node) (.literal node)) state
  | typeRef {stack state node}
      (allowed : input.Allows stack (.node (.typeRef node) (.typeRef node))) :
      Run input stack state (.node (.typeRef node) (.typeRef node)) state
  | param {stack state node} (allowed : input.Allows stack (.node (.param node) (.param node))) :
      Run input stack state (.node (.param node) (.param node)) state
  | list {stack s₀ s₁ s₂ node items resolved}
      (allowed : input.Allows stack (.node (.list node) (.list resolved)))
      (run : Run input stack s₀ (.items node.items items) s₁)
      (rebuilt : rebuildSequence node items s₁ = (resolved, s₂)) :
      Run input stack s₀ (.node (.list node) (.list resolved)) s₂
  | block {stack s₀ s₁ s₂ node items resolved}
      (allowed : input.Allows stack (.node (.block node) (.block resolved)))
      (run : Run input stack s₀ (.items node.items items) s₁)
      (rebuilt : rebuildSequence node items s₁ = (resolved, s₂)) :
      Run input stack s₀ (.node (.block node) (.block resolved)) s₂
  | dim {stack s₀ s₁ node resolved}
      (allowed : input.Allows stack (.node (.dim node) (.dim resolved)))
      (run : Run input stack s₀ (.dim node resolved) s₁) :
      Run input stack s₀ (.node (.dim node) (.dim resolved)) s₁
  | function {stack s₀ s₁} {node resolved : Signature .function}
      (allowed : input.Allows stack (.node (.function node) (.function resolved)))
      (run : Run input stack s₀ (.signature none node resolved) s₁) :
      Run input stack s₀ (.node (.function node) (.function resolved)) s₁
  | method {stack s₀ s₁} {node resolved : Signature .method}
      (allowed : input.Allows stack (.node (.method node) (.method resolved)))
      (run : Run input stack s₀ (.signature stack.receiver? node resolved) s₁) :
      Run input stack s₀ (.node (.method node) (.method resolved)) s₁
  | remembered {stack state site resolved}
      (allowed : input.Allows stack (.node (.reference site) (.reference resolved)))
      (found : state.uses.find? (site.id, stack.owner?) = some resolved) :
      Run input stack state (.node (.reference site) (.reference resolved)) state
  | reference {stack s₀ s₁ s₂ s₃ s₄ site brackets parens meaning resolved}
      (allowed : input.Allows stack (.node (.reference site) (.reference resolved)))
      (missing : s₀.uses.find? (site.id, stack.owner?) = none)
      (bracketsRun : Run input stack s₀ (.child site.brackets brackets) s₁)
      (parensRun : Run input stack s₁ (.child site.parens parens) s₂)
      (meaningRun : Run input stack s₂ (.meaning site parens meaning) s₃)
      (rebuilt : rebuildReference site brackets parens meaning s₃ = (resolved, s₄)) :
      Run input stack s₀ (.node (.reference site) (.reference resolved))
        (s₄.rememberUse site.id stack.owner? resolved)
  | nil {stack state} (allowed : input.Allows stack (.items [] [])) :
      Run input stack state (.items [] []) state
  | cons {stack s₀ s₁ s₂ item items resolved resolvedItems}
      (allowed : input.Allows stack (.items (item :: items) (resolved :: resolvedItems)))
      (itemRun : Run input stack s₀ (.node item resolved) s₁)
      (itemsRun : Run input stack s₁ (.items items resolvedItems) s₂) :
      Run input stack s₀ (.items (item :: items) (resolved :: resolvedItems)) s₂
  | noChild {stack state} (allowed : input.Allows stack (.child none none)) :
      Run input stack state (.child none none) state
  | child {stack s₀ s₁ child resolved}
      (allowed : input.Allows stack (.child (some child) (some resolved)))
      (run : Run input stack s₀ (.node child resolved) s₁) :
      Run input stack s₀ (.child (some child) (some resolved)) s₁
  | dimRemembered {stack state dim resolved} (allowed : input.Allows stack (.dim dim resolved))
      (found : state.dims.find? dim.id = some resolved) :
      Run input stack state (.dim dim resolved) state
  | dimInProgress {stack state dim} (allowed : input.Allows stack (.dim dim dim))
      (missing : state.dims.find? dim.id = none) (resolving : stack.Resolving dim.id) :
      Run input stack state (.dim dim dim) state
  | dimFresh {stack s₀ s₁ s₂ dim extent resolved}
      (allowed : input.Allows stack (.dim dim resolved))
      (missing : s₀.dims.find? dim.id = none) (idle : ¬ stack.Resolving dim.id)
      (run : Run input (.extent dim.id :: stack) s₀ (.node dim.extent extent) s₁)
      (rebuilt : rebuildDim dim extent s₁ = (resolved, s₂)) :
      Run input stack s₀ (.dim dim resolved) (s₂.rememberDim dim.id resolved)
  | signatureRemembered {stack state receiver} {c : Callable} {signature resolved : Signature c}
      (allowed : input.Allows stack (.signature receiver signature resolved))
      (found : state.signature? c signature.id = some resolved) :
      Run input stack state (.signature receiver signature resolved) state
  | signatureInProgress {stack state receiver} {c : Callable} {signature : Signature c}
      (allowed : input.Allows stack (.signature receiver signature signature))
      (missing : state.signature? c signature.id = none)
      (resolving : stack.Resolving signature.id) :
      Run input stack state (.signature receiver signature signature) state
  | signatureFresh {stack s₀ s₁ s₂ receiver body} {c : Callable} {signature resolved : Signature c}
      (allowed : input.Allows stack (.signature receiver signature resolved))
      (missing : s₀.signature? c signature.id = none) (idle : ¬ stack.Resolving signature.id)
      (run : Run input (.body signature.id receiver signature.formals :: stack) s₀
        (.node signature.body body) s₁)
      (rebuilt : rebuildSignature signature body s₁ = (resolved, s₂)) :
      Run input stack s₀ (.signature receiver signature resolved)
        (s₂.rememberSignature signature.id resolved)
  | skipped {stack state site parens} (allowed : input.Allows stack (.meaning site parens none))
      (unknown : ¬ Known parens) :
      Run input stack state (.meaning site parens none) state
  | unbound {stack state site parens error}
      (allowed : input.Allows stack (.meaning site parens none)) (known : Known parens)
      (failed : lookup input.scope stack site = .error error) :
      Run input stack state (.meaning site parens none) (state.withError error)
  | paramMeant {stack state site parens param}
      (allowed : input.Allows stack (.meaning site parens (some (param.ty, .param param))))
      (known : Known parens) (bound : lookup input.scope stack site = .ok (.param param)) :
      Run input stack state (.meaning site parens (some (param.ty, .param param)))
        (state.withEvent (.resolved site (.param param) param.ty))
  | dimMeant {stack s₀ s₁ site parens dim resolved}
      (allowed : input.Allows stack (.meaning site parens (some (.int, .dim resolved))))
      (known : Known parens) (bound : lookup input.scope stack site = .ok (.dim dim))
      (run : Run input stack s₀ (.dim dim resolved) s₁) :
      Run input stack s₀ (.meaning site parens (some (.int, .dim resolved)))
        (s₁.withEvent (.resolved site (.dim resolved) .int))
  | refused {stack s₀ s₁ site parens binding receiver arguments error} {c : Callable}
      {overloads : OverloadSet (Signature c)} {resolve}
      (allowed : input.Allows stack (.meaning site parens none)) (known : Known parens)
      (bound : lookup input.scope stack site = .ok binding)
      (calls : binding.Calls receiver overloads resolve)
      (applied : argumentsOf site parens s₀ = (arguments, s₁))
      (failed : resolve arguments site.span = .error error) :
      Run input stack s₀ (.meaning site parens none)
        ((s₁.withEvent (overloads.choosing arguments)).withError error)
  | recursive {stack s₀ s₁ site parens binding receiver arguments} {c : Callable}
      {overloads : OverloadSet (Signature c)} {resolve} {selected : Signature c}
      (allowed : input.Allows stack
        (.meaning site parens (some (.unknown, .signature selected))))
      (known : Known parens) (bound : lookup input.scope stack site = .ok binding)
      (calls : binding.Calls receiver overloads resolve)
      (applied : argumentsOf site parens s₀ = (arguments, s₁))
      (selects : resolve arguments site.span = .ok selected)
      (resolving : stack.Resolving selected.id) :
      Run input stack s₀ (.meaning site parens (some (.unknown, .signature selected)))
        ((s₁.withEvent (overloads.choosing arguments)).withEvent
          (.resolved site (.signature selected) .unknown))
  | entered {stack s₀ s₁ s₂ site parens binding receiver arguments} {c : Callable}
      {overloads : OverloadSet (Signature c)} {resolve} {selected resolved : Signature c}
      (allowed : input.Allows stack
        (.meaning site parens (some (resolved.body.ty, .signature resolved))))
      (known : Known parens) (bound : lookup input.scope stack site = .ok binding)
      (calls : binding.Calls receiver overloads resolve)
      (applied : argumentsOf site parens s₀ = (arguments, s₁))
      (selects : resolve arguments site.span = .ok selected)
      (idle : ¬ stack.Resolving selected.id)
      (run : Run input stack (s₁.withEvent (overloads.choosing arguments))
        (.signature receiver selected resolved) s₂) :
      Run input stack s₀ (.meaning site parens (some (resolved.body.ty, .signature resolved)))
        (s₂.withEvent (.resolved site (.signature resolved) resolved.body.ty))

/-- An item is resolved outside of all declarations. -/
inductive ItemRun (input : Input) : State → Item → Item → State → Prop
  | dim {s₀ s₁ declared resolved} (run : Run input [] s₀ (.dim declared resolved) s₁) :
      ItemRun input s₀ (.dim declared) (.dim resolved) s₁
  | function {s₀ s₁} {declared resolved : Signature .function}
      (run : Run input [] s₀ (.signature none declared resolved) s₁) :
      ItemRun input s₀ (.function declared) (.function resolved) s₁
  | method {s₀ s₁ receiver} {declared resolved : Signature .method}
      (run : Run input [] s₀ (.signature (some receiver) declared resolved) s₁) :
      ItemRun input s₀ (.method receiver declared) (.method receiver resolved) s₁

/-- Items are resolved one after the other. -/
inductive ItemsRun (input : Input) : State → List Item → List Item → State → Prop
  | nil {state} : ItemsRun input state [] [] state
  | cons {s₀ s₁ s₂ item items resolved resolvedItems}
      (itemRun : ItemRun input s₀ item resolved s₁)
      (itemsRun : ItemsRun input s₁ items resolvedItems s₂) :
      ItemsRun input s₀ (item :: items) (resolved :: resolvedItems) s₂

namespace Input

/-- The state before the first item. -/
def initial (input : Input) : State :=
  { next := input.next }

/-- The state after the last item. -/
def final (input : Input) : State :=
  ((resolveItems (visit input.scope input.next) input.items).run input.initial).2

/-- What the resolution returns. -/
def resolved (input : Input) : Resolved :=
  input.scope.resolveAll input.items input.next

theorem errors_resolved (input : Input) : input.resolved.errors = input.final.errors := rfl

end Input

/-- A child is returned where one was given. -/
theorem Run.isSome_child {input : Input} {stack : Stack} {s s' : State}
    {child resolved : Option Node} (run : Run input stack s (.child child resolved) s') :
    resolved.isSome = child.isSome := by
  cases run <;> rfl

end ModelLang.Resolution
