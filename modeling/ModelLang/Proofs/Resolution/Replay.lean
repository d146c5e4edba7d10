import ModelLang.Proofs.Resolution.Receivers
import ModelLang.Proofs.Resolution.Renamed

/-!
# Resolving in another order

A resolution without recursion gives every node under every owner one result, up to the identities
of new nodes.  A resolution of the same items in another order replays it: each of its calls is
foreseen at a moment of the first resolution, when what the call is about was already resolved and
no declaration that is in progress in the call was.  So the second resolution does not come back to
a declaration in progress either, and returns what the first one returned.  The moment moves back
whenever a declaration is opened, to the end of its contents in the first resolution.
-/

namespace ModelLang.Resolution

/-- The items of an input in another order. -/
abbrev Input.reorder (input : Input) {items : List Item} (same : items.Perm input.items) : Input :=
  { input with
    items
    listed := fun item member => input.listed item (same.mem_iff.mp member) }

/-- Every method is met in one receiver only. -/
def Input.SingleReceiver (input : Input) : Prop :=
  ∀ (method : Signature .method) {receiver receiver' : Option String},
    input.Meets (.method method) receiver → input.Meets (.method method) receiver' →
      receiver = receiver'

/-- A method is listed among the items or declared in the scope under a receiver. -/
inductive Input.Places (input : Input) (method : Signature .method) : String → Prop
  | listed {receiver : String} :
      .method receiver method ∈ input.items → Places input method receiver
  | declared {receiver name : String} {methods : MethodSet} :
      input.scope.method? receiver name = some methods → method ∈ methods.overloads.candidates →
        Places input method receiver

/-- No method stands in the contents of a declaration, and each method is listed and declared under
a single receiver. -/
structure Input.KeepsMethodsApart (input : Input) : Prop where
  unnested : ∀ {declaration : Node} {receiver : Option String} {method : Signature .method},
    input.Meets declaration receiver → ¬ declaration.Encloses (.method method)
  receivers : ∀ {method : Signature .method} {receiver receiver' : String},
    input.Places method receiver → input.Places method receiver' → receiver = receiver'

theorem Input.KeepsMethodsApart.single {input : Input} (methods : input.KeepsMethodsApart) :
    input.SingleReceiver := by
  have placed {method : Signature .method} {receiver : Option String}
      (met : input.Meets (.method method) receiver) :
      ∃ name, receiver = some name ∧ input.Places method name := by
    generalize isNode : Node.method method = node at met
    cases met with
    | @item item listed =>
        cases item with
        | method name =>
            cases isNode
            exact ⟨name, rfl, .listed listed⟩
        | dim | function => cases isNode
    | method found member =>
        cases isNode
        exact ⟨_, rfl, .declared found member⟩
    | nestedMethod met encloses => exact absurd encloses (methods.unnested met)
    | dim | function | nestedDim | nestedFunction => cases isNode
  intro method receiver receiver' met again
  obtain ⟨name, rfl, places⟩ := placed met
  obtain ⟨name', rfl, places'⟩ := placed again
  rw [methods.receivers places places']

/-- All new identities are taken for one. -/
def Input.blur (input : Input) (id : NodeId) : NodeId :=
  min id input.next

variable {input : Input} {items : List Item} {same : items.Perm input.items}

theorem Input.keepsApart_blur (input : Input) : input.graph.KeepsApart input.blur := by
  intro id node inside
  have below : node.id < input.next := input.below inside
  rcases Nat.lt_or_ge id input.next with old | new
  · rw [blur, Nat.min_eq_left (Nat.le_of_lt old)]
  · rw [blur, Nat.min_eq_right new]
    constructor
    · exact fun isNode => absurd below (isNode ▸ Nat.lt_irrefl _)
    · exact fun isNode => absurd below (isNode ▸ Nat.not_lt.mpr new)

theorem Input.blur_congr {s t : State} (first : input.next ≤ s.next)
    (second : input.next ≤ t.next) :
    input.blur s.next = input.blur t.next := by
  rw [blur, blur, Nat.min_eq_right first, Nat.min_eq_right second]

/-! ## Frames of two resolutions -/

/-- In another order, the same declarations are met in the same receivers. -/
theorem Input.Meets.of_reorder {node : Node} {receiver : Option String}
    (met : (input.reorder same).Meets node receiver) : input.Meets node receiver := by
  induction met with
  | item listed => exact .item (same.mem_iff.mp listed)
  | dim found => exact .dim found
  | function found member => exact .function found member
  | method found member => exact .method found member
  | nestedDim _ encloses induction => exact .nestedDim induction encloses
  | nestedFunction _ encloses induction => exact .nestedFunction induction encloses
  | nestedMethod _ encloses induction => exact .nestedMethod induction encloses

/-- Every signature is met in one receiver only; functions are met in none. -/
theorem Input.SingleReceiver.unique (single : input.SingleReceiver) {c : Callable}
    {signature : Signature c} {receiver receiver' : Option String}
    (met : input.Meets signature.node receiver) (again : input.Meets signature.node receiver') :
    receiver = receiver' := by
  have outside {signature : Signature .function} {receiver : Option String} :
      input.Meets (.function signature) receiver → receiver = none := by
    generalize isNode : Node.function signature = node
    intro met
    cases met with
    | @item item => cases item <;> cases isNode; rfl
    | dim | method | nestedDim | nestedMethod => cases isNode
    | function | nestedFunction => rfl
  cases c with
  | function => exact (outside met).trans (outside again).symm
  | method => exact single signature met again

/-- A call that belongs to a signature is made in the frame of the signature, inside a receiver in
which the signature is met. -/
theorem Input.Makes.frame {call : Call} {owner : NodeId} (made : input.Makes call)
    (owned : call.stack.owner? = some owner) :
    ∃ (c : Callable) (signature : Signature c) (receiver : Option String),
      signature.node ∈ input.graph ∧ signature.id = owner ∧ input.Meets signature.node receiver ∧
        call.stack.head? = some (.body owner receiver signature.formals) := by
  rcases made.opening with outside | ⟨opening, declaration, frame, opened, opens, isFrame, pushed⟩
  · rw [outside] at owned
    cases owned
  · rw [pushed] at owned ⊢
    have met := opened.met
    have inside := opens.inside opened.run
    cases opens with
    | dim =>
        cases isFrame
        cases owned
    | signature =>
        cases isFrame
        cases owned
        exact ⟨_, _, _, inside, rfl, met, rfl⟩

/-- Names are bound alike for one owner. -/
theorem Input.lookup_eq_of_owner (single : input.SingleReceiver) {call call' : Call}
    (made : input.Makes call) (made' : (input.reorder same).Makes call')
    (owner : call.stack.owner? = call'.stack.owner?) (site : Reference) :
    lookup input.scope call'.stack site = lookup input.scope call.stack site := by
  have blind {stack : Stack} (global : stack.owner? = none) :
      stack.param? site.name = none ∧ stack.receiver? = none := by
    cases stack with
    | nil => exact ⟨rfl, rfl⟩
    | cons frame =>
        cases frame with
        | extent => exact ⟨rfl, rfl⟩
        | body => cases global
  cases owned : call.stack.owner? with
  | none =>
      -- Extents see neither parameters nor a receiver, whatever declarations are in progress.
      obtain ⟨param, receiver⟩ := blind owned
      obtain ⟨param', receiver'⟩ := blind (owner.symm.trans owned)
      exact lookup_congr (param'.trans param.symm) (receiver'.trans receiver.symm)
  | some id =>
      obtain ⟨c, signature, receiver, inside, isId, met, top⟩ := made.frame owned
      obtain ⟨c', signature', receiver', inside', isId', met', top'⟩ :=
        made'.frame (owner.symm.trans owned)
      replace met' := met'.of_reorder
      have nodes : signature'.node = signature.node :=
        input.graph.eq_of_id inside' inside (by simp [isId, isId'])
      have formals : signature'.formals = signature.formals := by
        rw [← Node.formals_signature, nodes, Node.formals_signature]
      rw [nodes] at met'
      obtain rfl := single.unique met met'
      have tops : call'.stack.head? = call.stack.head? := by rw [top, top', formals]
      exact lookup_congr (congrArg (·.bind (·.param? site.name)) tops)
        (congrArg (·.bind Frame.receiver?) tops)

/-! ## What the first resolution returned -/

theorem Input.Makes.next_le {call : Call} (made : input.Makes call) :
    input.next ≤ call.after.next :=
  (made.keepsOrigins made.origins).next

/-- Before a late state, a use site gets a meaning under an owner, after its parentheses were
resolved. -/
def Input.Means (input : Input) (late : State) (owner : Option NodeId) (site : Reference)
    (parens : Option Node) (meaning : Option Meaning) : Prop :=
  ∃ call, input.Makes call ∧ call.after.Precedes late ∧ call.job = .meaning site parens meaning ∧
    call.stack.owner? = owner

section Returned

variable {late : State} {owner : Option NodeId} {returned : Node}

namespace Input.Returns

theorem mono {later : State} {given : Node} (precedes : late.Precedes later)
    (returns : input.Returns late owner given returned) :
    input.Returns later owner given returned := by
  obtain ⟨call, made, ends, returns⟩ := returns
  exact ⟨call, made, ends.trans precedes, returns⟩

theorem inside {given : Node} (returns : input.Returns late owner given returned) :
    given ∈ input.graph := by
  obtain ⟨call, made, -, job, -⟩ := returns
  have allowed := made.run.allowed.job
  rwa [job] at allowed

theorem of_list {node : Sequence} (returns : input.Returns late owner (.list node) returned) :
    ∃ items resolved s s', returned = .list resolved ∧
      List.Forall₂ (input.Returns late owner) node.items items ∧
        rebuildSequence node items s = (resolved, s') ∧ input.next ≤ s.next := by
  obtain ⟨⟨stack, s, job, s'⟩, made, ends, rfl, rfl⟩ := returns
  have run : Run input stack s (.node (.list node) returned) s' := made.run
  cases run with
  | list _ run rebuilt =>
      have starts : input.Starts _ _ _ := .list run rebuilt
      have inner := made.starts starts
      exact ⟨_, _, _, _, rfl, inner.returns_items (starts.after.trans ends), rebuilt, inner.next_le⟩

theorem of_block {node : Sequence} (returns : input.Returns late owner (.block node) returned) :
    ∃ items resolved s s', returned = .block resolved ∧
      List.Forall₂ (input.Returns late owner) node.items items ∧
        rebuildSequence node items s = (resolved, s') ∧ input.next ≤ s.next := by
  obtain ⟨⟨stack, s, job, s'⟩, made, ends, rfl, rfl⟩ := returns
  have run : Run input stack s (.node (.block node) returned) s' := made.run
  cases run with
  | block _ run rebuilt =>
      have starts : input.Starts _ _ _ := .block run rebuilt
      have inner := made.starts starts
      exact ⟨_, _, _, _, rfl, inner.returns_items (starts.after.trans ends), rebuilt, inner.next_le⟩

theorem of_reference {site : Reference}
    (returns : input.Returns late owner (.reference site) returned) :
    ∃ brackets parens meaning resolved s s', returned = .reference resolved ∧
      List.Forall₂ (input.Returns late owner) site.brackets.toList brackets.toList ∧
        List.Forall₂ (input.Returns late owner) site.parens.toList parens.toList ∧
          input.Means late owner site parens meaning ∧
            rebuildReference site brackets parens meaning s = (resolved, s') ∧
              input.next ≤ s.next := by
  obtain ⟨resolved, ⟨stack, s, job, s'⟩, rfl, made, ends, processes, rfl, rfl⟩ := returns.processes
  obtain ⟨s₁, s₂, s₃, brackets, parens, meaning, visits⟩ := Run.visits made.run processes.2
  have first := Input.Starts.brackets visits
  have second := Input.Starts.parens visits
  have third := Input.Starts.meaning visits
  have bracketsReturned := (made.starts first).returns_child (first.after.trans ends)
  have parensReturned := (made.starts second).returns_child (second.after.trans ends)
  have means : input.Means late _ site parens meaning :=
    ⟨_, made.starts third, third.after.trans ends, rfl, rfl⟩
  exact ⟨brackets, parens, meaning, resolved, s₃, _, rfl, bracketsReturned, parensReturned, means,
    Prod.ext visits.rebuilt rfl, (made.starts third).next_le⟩

/-- Literals, written types and parameters are returned as they are. -/
theorem eq_of_plain {given : Node} (returns : input.Returns late owner given returned)
    (plain : given.kind = .literal ∨ given.kind = .typeRef ∨ given.kind = .param) :
    returned = given := by
  obtain ⟨⟨stack, s, job, s'⟩, made, -, rfl, -⟩ := returns
  have run : Run input stack s (.node given returned) s' := made.run
  cases run with
  | literal | typeRef | param => rfl
  | list | block | dim | function | method | remembered | reference => simp [Node.kind] at plain

section Apart

variable (apart : ¬ input.Recursive)

include apart

theorem of_dim {declared : Dim} (returns : input.Returns late owner (.dim declared) returned) :
    ∃ resolved, returned = .dim resolved ∧ late.dims.find? declared.id = some resolved := by
  obtain ⟨⟨stack, s, job, s'⟩, made, ends, rfl, rfl⟩ := returns
  have run : Run input stack s (.node (.dim declared) returned) s' := made.run
  cases run with
  | dim _ run =>
      have inner := made.starts (.dim run)
      exact ⟨_, rfl, ends.grows.dims (inner.find?_dims apart)⟩

theorem of_signature {c : Callable} {declared : Signature c}
    (returns : input.Returns late owner declared.node returned) :
    ∃ resolved : Signature c, returned = resolved.node ∧
      late.signature? c declared.id = some resolved := by
  obtain ⟨⟨stack, s, job, s'⟩, made, ends, rfl, rfl⟩ := returns
  have run : Run input stack s (.node declared.node returned) s' := made.run
  cases c with
  | function =>
      cases run with
      | function _ run =>
          have inner := made.starts (.function run)
          exact ⟨_, rfl, ends.grows.signatures (inner.signature?_eq apart)⟩
  | method =>
      cases run with
      | method _ run =>
          have inner := made.starts (.method run)
          exact ⟨_, rfl, ends.grows.signatures (inner.signature?_eq apart)⟩

end Apart

end Input.Returns

/-- The contents of a dim were resolved before the dim was remembered. -/
theorem Input.OriginState.extent {declared resolved : Dim} (origins : input.OriginState late late)
    (inside : .dim declared ∈ input.graph) (found : late.dims.find? declared.id = some resolved) :
    ∃ (inner : Call) (extent : Node) (s' : State), input.Makes inner ∧
      inner.after.Precedes late ∧ inner.stack.Resolving declared.id ∧
        inner.stack.owner? = none ∧ inner.job = .node declared.extent extent ∧
          rebuildDim declared extent inner.after = (resolved, s') := by
  obtain ⟨stack, s, s', made, ends, opens⟩ := origins.makes_dim inside found
  obtain ⟨missing, idle⟩ := opens.unknown_dim
  obtain ⟨extent, s₁, s₂, starts, rebuilt⟩ := Run.extent made.run missing idle
  exact ⟨_, extent, s₂, made.starts starts, starts.after.trans ends, List.mem_cons_self, rfl, rfl,
    rebuilt⟩

/-- The contents of a signature were resolved before the signature was remembered. -/
theorem Input.OriginState.body {c : Callable} {declared resolved : Signature c}
    (origins : input.OriginState late late) (inside : declared.node ∈ input.graph)
    (found : late.signature? c declared.id = some resolved) :
    ∃ (inner : Call) (body : Node) (s' : State), input.Makes inner ∧
      inner.after.Precedes late ∧ inner.stack.Resolving declared.id ∧
        inner.stack.owner? = some declared.id ∧ inner.job = .node declared.body body ∧
          rebuildSignature declared body inner.after = (resolved, s') := by
  obtain ⟨stack, s, receiver, s', made, ends, opens⟩ := origins.makes_signature inside found
  obtain ⟨missing, idle⟩ := opens.unknown_signature
  obtain ⟨body, s₁, s₂, starts, rebuilt⟩ := Run.body made.run missing idle
  exact ⟨_, body, s₂, made.starts starts, starts.after.trans ends, List.mem_cons_self, rfl, rfl,
    rebuilt⟩

end Returned

/-! ## Calls of the second resolution -/

/-- What a job is about was resolved before a moment of the first resolution. -/
def Job.Foreseen (input : Input) (moment : State) (stack : Stack) : Job → Prop
  | .node given _ => ∃ found, input.Returns moment stack.owner? given found
  | .items given _ => ∃ found, List.Forall₂ (input.Returns moment stack.owner?) given found
  | .child given _ => ∃ found : Option Node,
      List.Forall₂ (input.Returns moment stack.owner?) given.toList found.toList
  | .dim given _ => moment.Knows (.dim given)
  | .signature _ given _ => moment.Knows given.node
  | .meaning site parens _ => ∃ parens' meaning,
      input.Means moment stack.owner? site parens' meaning ∧
        parens.map (Node.rename input.blur) = parens'.map (Node.rename input.blur)

/-- A job of the second resolution is foreseen at a moment of the first one, at which no declaration
that is in progress was known. -/
structure Input.Foresees (input : Input) (moment : State) (stack : Stack) (job : Job) : Prop where
  origins : input.OriginState moment moment
  ends : moment.Precedes input.final
  unknown : ∀ declaration ∈ input.graph, stack.Resolving declaration.id →
    ¬ moment.Knows declaration
  job : job.Foreseen input moment stack

/-- The second resolution returns what the first one returned, up to the identities of new nodes. -/
def Job.Replays (input : Input) (stack : Stack) : Job → Prop
  | .node given returned => ∀ found, input.Returns input.final stack.owner? given found →
      returned.rename input.blur = found.rename input.blur
  | .items given returned => ∀ found,
      List.Forall₂ (input.Returns input.final stack.owner?) given found →
        returned.map (Node.rename input.blur) = found.map (Node.rename input.blur)
  | .child given returned => ∀ found : Option Node,
      List.Forall₂ (input.Returns input.final stack.owner?) given.toList found.toList →
        returned.map (Node.rename input.blur) = found.map (Node.rename input.blur)
  | .dim given returned => ∀ found, input.final.dims.find? given.id = some found →
      returned.rename input.blur = found.rename input.blur
  | .signature (c := c) _ given returned => ∀ found,
      input.final.signature? c given.id = some found →
        returned.rename input.blur = found.rename input.blur
  | .meaning site parens returned => ∀ parens' found,
      input.Means input.final stack.owner? site parens' found →
        parens.map (Node.rename input.blur) = parens'.map (Node.rename input.blur) →
          returned.map (Meaning.rename input.blur) = found.map (Meaning.rename input.blur)

/-- What the second resolution remembers is what the first one remembers at the end, or returned for
a use site. -/
abbrev Input.ReplayState (input : Input) (state : State) : Prop :=
  state.Remembers input.next
    (fun id resolved => ∀ found, input.final.dims.find? id = some found →
      resolved.rename input.blur = found.rename input.blur)
    (fun {c} id resolved => ∀ found : Signature c, input.final.signature? c id = some found →
      resolved.rename input.blur = found.rename input.blur)
    (fun id owner resolved => ∀ site found, site.id = id →
      input.Returns input.final owner (.reference site) found →
        (Node.reference resolved).rename input.blur = found.rename input.blur)

/-- Before a late state, something is decided about a use site that gets a meaning under an
owner. -/
def Input.Decides (input : Input) (late : State) (owner : Option NodeId) (site : Reference)
    (parens : Option Node) (meaning : Option Meaning) (decided : Verdict) : Prop :=
  ∃ (stack : Stack) (s s' : State), input.Makes ⟨stack, s, .meaning site parens meaning, s'⟩ ∧
    s'.Precedes late ∧ stack.owner? = owner ∧
      verdict input.scope stack site parens s.next = decided

section Decided

variable {late : State} {owner : Option NodeId} {site : Reference} {parens parens' : Option Node}
  {found : Option Meaning}

/-- For one owner, both resolutions decide the same about a use site. -/
theorem Input.Means.decides {stack : Stack} {s s' : State} {returned : Option Meaning}
    {decided : Verdict} (single : input.SingleReceiver)
    (made : (input.reorder same).Makes ⟨stack, s, .meaning site parens returned, s'⟩)
    (next : input.next ≤ s.next) (means : input.Means late stack.owner? site parens' found)
    (alike : parens.map (Node.rename input.blur) = parens'.map (Node.rename input.blur))
    (isDecided : verdict input.scope stack site parens s.next = decided) :
    input.Decides late stack.owner? site parens' found decided := by
  obtain ⟨⟨stack', t, job, t'⟩, first, ends, rfl, owner⟩ := means
  refine ⟨stack', t, t', first, ends, owner, ?_⟩
  rw [← isDecided]
  exact verdict_congr input.keepsApart_blur input.declares.within
    (input.lookup_eq_of_owner single first made owner site).symm alike.symm
    (input.blur_congr first.origins.next next)

namespace Input.Decides

/-- What was decided was acted on. -/
theorem acts {decided : Verdict} (decides : input.Decides late owner site parens found decided) :
    ∃ stack s s', input.Makes ⟨stack, s, .meaning site parens found, s'⟩ ∧ s'.Precedes late ∧
      verdict input.scope stack site parens s.next = decided ∧
        input.Acts stack s site parens decided found s' := by
  obtain ⟨stack, s, s', made, ends, -, rfl⟩ := decides
  exact ⟨stack, s, s', made, ends, rfl, Run.acts made.run⟩

theorem eq_none_of_skipped (decides : input.Decides late owner site parens found .skipped) :
    found = none := by
  obtain ⟨stack, s, s', -, -, -, acts⟩ := decides.acts
  cases acts
  rfl

theorem eq_none_of_failed {error : Diagnostic}
    (decides : input.Decides late owner site parens found (.failed error)) : found = none := by
  obtain ⟨stack, s, s', -, -, -, acts⟩ := decides.acts
  cases acts
  rfl

theorem eq_param {param : Param}
    (decides : input.Decides late owner site parens found (.param param)) :
    found = some (param.ty, .param param) := by
  obtain ⟨stack, s, s', -, -, -, acts⟩ := decides.acts
  cases acts
  rfl

variable (apart : ¬ input.Recursive)

include apart

/-- Without recursion, a dim that a use site stands for is remembered then. -/
theorem eq_dim {dim : Dim} (decides : input.Decides late owner site parens found (.dim dim)) :
    ∃ resolved, found = some (.int, .dim resolved) ∧ late.dims.find? dim.id = some resolved := by
  obtain ⟨stack, s, s', made, ends, -, acts⟩ := decides.acts
  cases acts with
  | dim starts =>
      have known := (made.starts starts).find?_dims apart
      exact ⟨_, rfl, (starts.after.trans ends).grows.dims known⟩

/-- Without recursion, an overload that a use site calls is remembered then. -/
theorem eq_signature {c : Callable} {receiver : Option String} {selected : Signature c}
    (decides : input.Decides late owner site parens found (.signature receiver selected)) :
    ∃ resolved : Signature c, found = some (resolved.body.ty, .signature resolved) ∧
      late.signature? c selected.id = some resolved := by
  obtain ⟨stack, s, s', made, ends, decided, acts⟩ := decides.acts
  cases acts with
  | recursive resolving => exact absurd ⟨_, made, .use decided resolving⟩ apart
  | entered starts =>
      have known := (made.starts starts).signature?_eq apart
      exact ⟨_, rfl, (starts.after.trans ends).grows.signatures known⟩

end Input.Decides

end Decided

/-! ## The calls of a foreseen call -/

namespace Input.Foresees

variable {moment : State} {stack : Stack} {job : Job}

/-- What a call leads to in its context is foreseen at the same moment. -/
theorem part (foresees : input.Foresees moment stack job) {inner : Job}
    (part : inner.Foreseen input moment stack) : input.Foresees moment stack inner :=
  { foresees with job := part }

section Nodes

variable {returned : Node}

theorem list {node : Sequence} {found : List Node}
    (foresees : input.Foresees moment stack (.node (.list node) returned)) :
    input.Foresees moment stack (.items node.items found) := by
  obtain ⟨_, returns⟩ := foresees.job
  obtain ⟨items, -, -, -, -, returns, -⟩ := returns.of_list
  exact foresees.part ⟨items, returns⟩

theorem block {node : Sequence} {found : List Node}
    (foresees : input.Foresees moment stack (.node (.block node) returned)) :
    input.Foresees moment stack (.items node.items found) := by
  obtain ⟨_, returns⟩ := foresees.job
  obtain ⟨items, -, -, -, -, returns, -⟩ := returns.of_block
  exact foresees.part ⟨items, returns⟩

theorem nestedDim (apart : ¬ input.Recursive) {declared resolved : Dim}
    (foresees : input.Foresees moment stack (.node (.dim declared) returned)) :
    input.Foresees moment stack (.dim declared resolved) := by
  obtain ⟨_, returns⟩ := foresees.job
  obtain ⟨found, -, known⟩ := returns.of_dim apart
  exact foresees.part ⟨found, known⟩

theorem nestedSignature (apart : ¬ input.Recursive) {c : Callable} {receiver : Option String}
    {declared resolved : Signature c}
    (foresees : input.Foresees moment stack (.node declared.node returned)) :
    input.Foresees moment stack (.signature receiver declared resolved) := by
  obtain ⟨_, returns⟩ := foresees.job
  obtain ⟨found, -, known⟩ := returns.of_signature apart
  exact foresees.part (State.knows_signature.mpr ⟨found, known⟩)

variable {site : Reference}

theorem brackets {found : Option Node}
    (foresees : input.Foresees moment stack (.node (.reference site) returned)) :
    input.Foresees moment stack (.child site.brackets found) := by
  obtain ⟨_, returns⟩ := foresees.job
  obtain ⟨brackets, -, -, -, -, -, -, returns, -⟩ := returns.of_reference
  exact foresees.part ⟨brackets, returns⟩

theorem parens {found : Option Node}
    (foresees : input.Foresees moment stack (.node (.reference site) returned)) :
    input.Foresees moment stack (.child site.parens found) := by
  obtain ⟨_, returns⟩ := foresees.job
  obtain ⟨-, parens, -, -, -, -, -, -, returns, -⟩ := returns.of_reference
  exact foresees.part ⟨parens, returns⟩

/-- The meaning of a use site is foreseen when its parentheses are replayed. -/
theorem meaning {parens : Option Node} {meaning : Option Meaning}
    (foresees : input.Foresees moment stack (.node (.reference site) returned))
    (replays : (Job.child site.parens parens).Replays input stack) :
    input.Foresees moment stack (.meaning site parens meaning) := by
  obtain ⟨_, returns⟩ := foresees.job
  obtain ⟨-, parens', meaning', -, -, -, -, -, found, means, -⟩ := returns.of_reference
  have alike := replays parens' (found.imp fun _ _ => .mono foresees.ends)
  exact foresees.part ⟨parens', meaning', means, alike⟩

end Nodes

section Sequences

variable {item resolved : Node} {items resolvedItems : List Node}

theorem head
    (foresees : input.Foresees moment stack (.items (item :: items) (resolved :: resolvedItems))) :
    input.Foresees moment stack (.node item resolved) := by
  obtain ⟨_, returns⟩ := foresees.job
  obtain ⟨first, -, head, -, -⟩ := List.forall₂_cons_left_iff.mp returns
  exact foresees.part ⟨first, head⟩

theorem tail
    (foresees : input.Foresees moment stack (.items (item :: items) (resolved :: resolvedItems))) :
    input.Foresees moment stack (.items items resolvedItems) := by
  obtain ⟨_, returns⟩ := foresees.job
  obtain ⟨-, rest, -, tail, -⟩ := List.forall₂_cons_left_iff.mp returns
  exact foresees.part ⟨rest, tail⟩

theorem child
    (foresees : input.Foresees moment stack (.child (some item) (some resolved))) :
    input.Foresees moment stack (.node item resolved) := by
  obtain ⟨_, returns⟩ := foresees.job
  obtain ⟨first, -, head, -, -⟩ := List.forall₂_cons_left_iff.mp returns
  exact foresees.part ⟨first, head⟩

end Sequences

section Targets

variable {s s' : State} {site : Reference} {parens : Option Node} {meaning : Option Meaning}
  (single : input.SingleReceiver) (apart : ¬ input.Recursive)
  (made : (input.reorder same).Makes ⟨stack, s, .meaning site parens meaning, s'⟩)
  (next : input.next ≤ s.next)
  (foresees : input.Foresees moment stack (.meaning site parens meaning))

include single apart made next foresees

/-- The dim that a use site stands for is foreseen. -/
theorem target {dim resolved : Dim}
    (decided : verdict input.scope stack site parens s.next = .dim dim) :
    input.Foresees moment stack (.dim dim resolved) := by
  obtain ⟨parens', found, means, alike⟩ := foresees.job
  obtain ⟨resolved, -, known⟩ := (means.decides single made next alike decided).eq_dim apart
  exact foresees.part ⟨resolved, known⟩

/-- The overload that a use site calls is foreseen. -/
theorem selected {c : Callable} {receiver : Option String} {selected resolved : Signature c}
    (decided : verdict input.scope stack site parens s.next = .signature receiver selected) :
    input.Foresees moment stack (.signature receiver selected resolved) := by
  obtain ⟨parens', found, means, alike⟩ := foresees.job
  obtain ⟨resolved, -, known⟩ := (means.decides single made next alike decided).eq_signature apart
  exact foresees.part (State.knows_signature.mpr ⟨resolved, known⟩)

end Targets

/-- A declaration that is foreseen is not in progress. -/
theorem idle_dim {declared resolved : Dim}
    (foresees : input.Foresees moment stack (.dim declared resolved))
    (inside : .dim declared ∈ input.graph) : ¬ stack.Resolving declared.id :=
  fun resolving => foresees.unknown _ inside resolving foresees.job

theorem idle_signature {c : Callable} {receiver : Option String} {declared resolved : Signature c}
    (foresees : input.Foresees moment stack (.signature receiver declared resolved))
    (inside : declared.node ∈ input.graph) : ¬ stack.Resolving declared.id :=
  fun resolving => foresees.unknown _ inside (by rwa [SignatureOf.id_node]) foresees.job

/-- The contents of a declaration that is opened are foreseen at the end of its contents in the
first resolution. -/
theorem push (foresees : input.Foresees moment stack job) {inner : Call} {frame : Frame}
    {given found returned : Node} (made : input.Makes inner)
    (ends : inner.after.Precedes moment) (opened : inner.stack.Resolving frame.declaration)
    (owner : inner.stack.owner? = frame.owner?) (isJob : inner.job = .node given found) :
    input.Foresees inner.after (frame :: stack) (.node given returned) where
  origins := made.keepsOrigins made.origins
  ends := made.after
  unknown declaration inside resolving := by
    rcases List.mem_cons.mp resolving with here | resolving
    · -- The declaration was in progress at the end of its contents in the first resolution, too.
      exact made.unknown inside (here ▸ opened)
    · exact fun known => foresees.unknown declaration inside resolving (ends.knows known)
  job := ⟨found, inner, made, .refl _, isJob, owner⟩

/-- The extent of a dim is foreseen where the dim is. -/
theorem extent {declared resolved : Dim} {returned : Node}
    (foresees : input.Foresees moment stack (.dim declared resolved))
    (inside : .dim declared ∈ input.graph) :
    ∃ earlier, input.Foresees earlier (.extent declared.id :: stack)
      (.node declared.extent returned) := by
  obtain ⟨found, known⟩ := foresees.job
  obtain ⟨inner, extent, -, made, ends, opened, owner, job, -⟩ :=
    Input.OriginState.extent foresees.origins inside known
  exact ⟨_, foresees.push made ends opened owner job⟩

/-- The body of a signature is foreseen where the signature is. -/
theorem body {c : Callable} {receiver receiver' : Option String} {declared resolved : Signature c}
    {returned : Node}
    (foresees : input.Foresees moment stack (.signature receiver declared resolved))
    (inside : declared.node ∈ input.graph) :
    ∃ earlier, input.Foresees earlier
      (.body declared.id receiver' declared.formals :: stack) (.node declared.body returned) := by
  obtain ⟨found, known⟩ := State.knows_signature.mp foresees.job
  obtain ⟨inner, body, -, made, ends, opened, owner, job, -⟩ :=
    Input.OriginState.body foresees.origins inside known
  exact ⟨_, foresees.push made ends opened owner job⟩

end Input.Foresees

/-! ## The second resolution replays the first -/

section Rebuilt

variable {stack : Stack} {s s' : State} (next : input.next ≤ s.next)

include next

theorem Job.Replays.sequence {given resolved found : Sequence} {items items' : List Node}
    {t t' : State} (below : ∀ item ∈ given.items, item ∈ input.graph)
    (replays : (Job.items given.items items).Replays input stack)
    (rebuilt : rebuildSequence given items s = (resolved, s'))
    (returns : List.Forall₂ (input.Returns input.final stack.owner?) given.items items')
    (rebuilt' : rebuildSequence given items' t = (found, t')) (next' : input.next ≤ t.next) :
    resolved.rename input.blur = found.rename input.blur :=
  rebuildSequence_congr input.keepsApart_blur (input.blur_congr next next') below
    (replays items' returns) rebuilt rebuilt'

theorem Job.Replays.dim {declared resolved : Dim} {extent : Node}
    (inside : .dim declared ∈ input.graph)
    (replays : (Job.node declared.extent extent).Replays input (.extent declared.id :: stack))
    (rebuilt : rebuildDim declared extent s = (resolved, s')) :
    (Job.dim declared resolved).Replays input stack := by
  intro found known
  obtain ⟨inner, extent', t', made, ends, -, owner, job, rebuilt'⟩ :=
    Input.OriginState.extent input.origins inside known
  exact rebuildDim_congr input.keepsApart_blur (input.blur_congr next made.next_le) inside
    (replays extent' ⟨inner, made, ends, job, owner⟩) rebuilt rebuilt'

theorem Job.Replays.signature {c : Callable} {receiver : Option String}
    {declared resolved : Signature c} {body : Node} (inside : declared.node ∈ input.graph)
    (replays : (Job.node declared.body body).Replays input
      (.body declared.id receiver declared.formals :: stack))
    (rebuilt : rebuildSignature declared body s = (resolved, s')) :
    (Job.signature receiver declared resolved).Replays input stack := by
  intro found known
  obtain ⟨inner, body', t', made, ends, -, owner, job, rebuilt'⟩ :=
    Input.OriginState.body input.origins inside known
  exact rebuildSignature_congr input.keepsApart_blur (input.blur_congr next made.next_le) inside
    (replays body' ⟨inner, made, ends, job, owner⟩) rebuilt rebuilt'

theorem Job.Replays.reference {site resolved : Reference} {brackets parens : Option Node}
    {meaning : Option Meaning} (inside : .reference site ∈ input.graph)
    (bracketsReplay : (Job.child site.brackets brackets).Replays input stack)
    (parensReplay : (Job.child site.parens parens).Replays input stack)
    (replays : (Job.meaning site parens meaning).Replays input stack)
    (rebuilt : rebuildReference site brackets parens meaning s = (resolved, s')) :
    (Job.node (.reference site) (.reference resolved)).Replays input stack := by
  intro found returns
  obtain ⟨brackets', parens', meaning', resolved', t, t', rfl, bracketsFound, parensFound, means,
    rebuilt', next'⟩ := returns.of_reference
  have parensAlike := parensReplay parens' parensFound
  rw [Node.rename_reference, Node.rename_reference, rebuildReference_congr input.keepsApart_blur
    (input.blur_congr next next') inside (bracketsReplay brackets' bracketsFound) parensAlike
    (replays parens' meaning' means parensAlike) rebuilt rebuilt']

end Rebuilt

/-- A foreseen call of the second resolution returns and remembers what the first one did. -/
theorem Run.replays (single : input.SingleReceiver) (apart : ¬ input.Recursive) {stack : Stack}
    {s s' : State} {job : Job} (run : Run (input.reorder same) stack s job s')
    (made : (input.reorder same).Makes ⟨stack, s, job, s'⟩) {moment : State}
    (foresees : input.Foresees moment stack job) (memory : input.ReplayState s) :
    input.ReplayState s' ∧ job.Replays input stack := by
  -- The contents of a declaration are foreseen at an earlier moment, so the moment is arbitrary.
  induction run generalizing moment with
  | literal | typeRef | param =>
      refine ⟨memory, fun found returns => ?_⟩
      rw [returns.eq_of_plain (by simp [Node.kind])]
  | list allowed run rebuilt induction =>
      obtain ⟨memory, replays⟩ := induction (made.starts (.list run rebuilt)) foresees.list memory
      refine ⟨memory.of_allots (allots_of_rebuildSequence rebuilt), fun found returns => ?_⟩
      obtain ⟨items, resolved, t, t', rfl, returns, rebuilt', next⟩ := returns.of_list
      have below : ∀ item ∈ _, item ∈ input.graph :=
        fun item member => input.graph.mem_child allowed.job member
      rw [Node.rename_list, Node.rename_list,
        replays.sequence memory.next below rebuilt returns rebuilt' next]
  | block allowed run rebuilt induction =>
      obtain ⟨memory, replays⟩ := induction (made.starts (.block run rebuilt)) foresees.block memory
      refine ⟨memory.of_allots (allots_of_rebuildSequence rebuilt), fun found returns => ?_⟩
      obtain ⟨items, resolved, t, t', rfl, returns, rebuilt', next⟩ := returns.of_block
      have below : ∀ item ∈ _, item ∈ input.graph :=
        fun item member => input.graph.mem_child allowed.job member
      rw [Node.rename_block, Node.rename_block,
        replays.sequence memory.next below rebuilt returns rebuilt' next]
  | dim allowed run induction =>
      obtain ⟨memory, replays⟩ :=
        induction (made.starts (.dim run)) (foresees.nestedDim apart) memory
      refine ⟨memory, fun found returns => ?_⟩
      obtain ⟨resolved, rfl, known⟩ := returns.of_dim apart
      rw [Node.rename_dim, Node.rename_dim, replays resolved known]
  | function allowed run induction =>
      obtain ⟨memory, replays⟩ := induction (made.starts (.function run))
        (Input.Foresees.nestedSignature (c := .function) apart foresees) memory
      refine ⟨memory, fun found returns => ?_⟩
      obtain ⟨resolved, rfl, known⟩ := Input.Returns.of_signature (c := .function) apart returns
      exact congrArg Node.function (replays resolved known)
  | method allowed run induction =>
      obtain ⟨memory, replays⟩ := induction (made.starts (.method run))
        (Input.Foresees.nestedSignature (c := .method) apart foresees) memory
      refine ⟨memory, fun found returns => ?_⟩
      obtain ⟨resolved, rfl, known⟩ := Input.Returns.of_signature (c := .method) apart returns
      exact congrArg Node.method (replays resolved known)
  | remembered allowed found => exact ⟨memory, fun _ returns => memory.uses found _ _ rfl returns⟩
  | reference allowed missing bracketsRun parensRun meaningRun rebuilt brackets parens meaning =>
      have visits : (input.reorder same).Visits _ _ _ _ _ _ _ _ _ _ _ :=
        ⟨missing, bracketsRun, parensRun, meaningRun, by rw [rebuilt], by rw [rebuilt]⟩
      obtain ⟨memory, bracketsReplay⟩ :=
        brackets (made.starts (.brackets visits)) foresees.brackets memory
      obtain ⟨memory, parensReplay⟩ := parens (made.starts (.parens visits)) foresees.parens memory
      obtain ⟨memory, meaningReplays⟩ :=
        meaning (made.starts (.meaning visits)) (foresees.meaning parensReplay) memory
      have replays := Job.Replays.reference memory.next allowed.job bracketsReplay parensReplay
        meaningReplays rebuilt
      refine ⟨(memory.of_allots (allots_of_rebuildReference rebuilt)).rememberUse ?_, replays⟩
      intro site' found sameId returns
      cases input.graph.eq_of_id returns.inside allowed.job sameId
      exact replays found returns
  | nil =>
      refine ⟨memory, fun found returns => ?_⟩
      cases returns
      rfl
  | cons allowed itemRun itemsRun item items =>
      obtain ⟨memory, itemReplays⟩ :=
        item (made.starts (.head itemRun itemsRun)) foresees.head memory
      obtain ⟨memory, itemsReplay⟩ :=
        items (made.starts (.tail itemRun itemsRun)) foresees.tail memory
      refine ⟨memory, fun found returns => ?_⟩
      obtain ⟨first, rest, head, tail, rfl⟩ := List.forall₂_cons_left_iff.mp returns
      rw [List.map_cons, List.map_cons, itemReplays first head, itemsReplay rest tail]
  | noChild =>
      refine ⟨memory, fun found returns => ?_⟩
      cases found with
      | none => rfl
      | some => cases returns
  | child allowed run induction =>
      obtain ⟨memory, replays⟩ := induction (made.starts (.child run)) foresees.child memory
      refine ⟨memory, fun found returns => ?_⟩
      cases found with
      | none => cases returns
      | some =>
          cases returns with
          | cons head => rw [Option.map_some, Option.map_some, replays _ head]
  | dimRemembered allowed found => exact ⟨memory, fun _ known => memory.dims found _ known⟩
  | dimInProgress allowed missing resolving =>
      exact absurd resolving (foresees.idle_dim allowed.job)
  | dimFresh allowed missing idle run rebuilt induction =>
      obtain ⟨earlier, foresees⟩ := foresees.extent allowed.job
      obtain ⟨memory, replays⟩ :=
        induction (made.starts (.extent missing idle run rebuilt rfl)) foresees memory
      have replays := Job.Replays.dim memory.next allowed.job replays rebuilt
      exact ⟨(memory.of_allots (allots_of_rebuildDim rebuilt)).rememberDim replays, replays⟩
  | signatureRemembered allowed found =>
      exact ⟨memory, fun _ known => memory.signatures found _ known⟩
  | signatureInProgress allowed missing resolving =>
      exact absurd resolving (foresees.idle_signature allowed.job)
  | signatureFresh allowed missing idle run rebuilt induction =>
      obtain ⟨earlier, foresees⟩ := foresees.body allowed.job
      obtain ⟨memory, replays⟩ :=
        induction (made.starts (.body missing idle run rebuilt rfl)) foresees memory
      have replays := Job.Replays.signature memory.next allowed.job replays rebuilt
      exact ⟨(memory.of_allots (allots_of_rebuildSignature rebuilt)).rememberSignature replays,
        replays⟩
  | skipped allowed unknown =>
      refine ⟨memory, fun parens' found means alike => ?_⟩
      have decides := means.decides single made memory.next alike (verdict_of_unknown unknown)
      rw [decides.eq_none_of_skipped]
  | unbound allowed known failed =>
      refine ⟨memory.withError _, fun parens' found means alike => ?_⟩
      have decides := means.decides single made memory.next alike (verdict_of_error known failed)
      rw [decides.eq_none_of_failed]
  | paramMeant allowed known bound =>
      refine ⟨memory.withEvent _, fun parens' found means alike => ?_⟩
      have decides := means.decides single made memory.next alike (verdict_of_param known bound)
      rw [decides.eq_param]
  | dimMeant allowed known bound run induction =>
      obtain ⟨memory', replays⟩ := induction (made.starts (.target known bound run rfl rfl))
        (foresees.target single apart made memory.next (verdict_of_dim known bound)) memory
      refine ⟨memory'.withEvent _, fun parens' found means alike => ?_⟩
      have decides := means.decides single made memory.next alike (verdict_of_dim known bound)
      obtain ⟨resolved, rfl, isKnown⟩ := decides.eq_dim apart
      simp [Meaning.rename, TargetOf.rename, replays resolved isKnown]
  | refused allowed known bound calls applied failed =>
      have decided := verdict_of_calls known bound calls applied
      rw [failed] at decided
      refine ⟨((memory.of_allots (allots_of_argumentsOf applied)).withEvent _).withError _, ?_⟩
      intro parens' found means alike
      rw [(means.decides single made memory.next alike decided).eq_none_of_failed]
  | @recursive _ _ _ _ _ _ _ _ _ _ _ selected allowed known bound calls applied selects resolving =>
      have decided := verdict_of_calls known bound calls applied
      rw [selects] at decided
      have foresees : input.Foresees _ _ (.signature _ selected selected) :=
        foresees.selected single apart made memory.next decided
      exact absurd resolving (foresees.idle_signature (input.mem_of_resolve bound calls selects))
  | entered allowed known bound calls applied selects idle run induction =>
      have decided := verdict_of_calls known bound calls applied
      rw [selects] at decided
      obtain ⟨memory', replays⟩ := induction
        (made.starts (.entered known bound calls applied selects idle run rfl rfl))
        (foresees.selected single apart made memory.next decided)
        ((memory.of_allots (allots_of_argumentsOf applied)).withEvent _)
      refine ⟨memory'.withEvent _, fun parens' found means alike => ?_⟩
      have decides := means.decides single made memory.next alike decided
      obtain ⟨resolved, rfl, isKnown⟩ := decides.eq_signature apart
      exact congrArg some (rename_meaning_congr (replays resolved isKnown))

end ModelLang.Resolution
