import ModelLang.Proofs.Resolution.Annotation

/-!
# Where the tables come from

Whatever the tables remember was returned by a call that found nothing remembered.  So a statement
about what is remembered at the end needs no invariant of its own: it follows from what holds of
the calls.
-/

namespace ModelLang.Resolution

/-- A declaration is opened by a call that finds it neither remembered nor in progress. -/
inductive Call.Opens : Call → Node → Prop
  | dim {stack : Stack} {before after declared resolved} :
      before.dims.find? declared.id = none → ¬ stack.Resolving declared.id →
        Opens ⟨stack, before, .dim declared resolved, after⟩ (.dim declared)
  | signature {stack : Stack} {before after receiver} {c : Callable}
      {declared resolved : Signature c} :
      before.signature? c declared.id = none → ¬ stack.Resolving declared.id →
        Opens ⟨stack, before, .signature receiver declared resolved, after⟩ declared.node

theorem Call.Opens.unknown_dim {stack : Stack} {before after : State} {declared resolved : Dim}
    {node : Node} (opens : Call.Opens ⟨stack, before, .dim declared resolved, after⟩ node) :
    before.dims.find? declared.id = none ∧ ¬ stack.Resolving declared.id := by
  cases opens with
  | dim missing idle => exact ⟨missing, idle⟩

theorem Call.Opens.unknown_signature {stack : Stack} {before after : State}
    {receiver : Option String} {c : Callable} {declared resolved : Signature c} {node : Node}
    (opens : Call.Opens ⟨stack, before, .signature receiver declared resolved, after⟩ node) :
    before.signature? c declared.id = none ∧ ¬ stack.Resolving declared.id := by
  cases opens with
  | signature missing idle => exact ⟨missing, idle⟩

/-- A use site is processed where it is not remembered. -/
def Call.Processes (call : Call) (site : Reference) : Prop :=
  (∃ resolved, call.job = .node (.reference site) (.reference resolved)) ∧
    call.before.uses.find? (site.id, call.stack.owner?) = none

/-- Everything remembered was returned by a call that found nothing remembered and ended before a
late state. -/
abbrev Input.OriginState (input : Input) (late state : State) : Prop :=
  state.Remembers input.next
    (fun id resolved => ∃ (call : Call) (declared : Dim), input.Makes call ∧
      call.after.Precedes late ∧ call.Opens (.dim declared) ∧ call.job = .dim declared resolved ∧
        declared.id = id)
    (fun {c} id resolved => ∃ (call : Call) (receiver : Option String) (declared : Signature c),
      input.Makes call ∧ call.after.Precedes late ∧ call.Opens declared.node ∧
        call.job = .signature receiver declared resolved ∧ declared.id = id)
    (fun id owner resolved => ∃ (call : Call) (site : Reference), input.Makes call ∧
      call.after.Precedes late ∧ call.Processes site ∧
        call.job = .node (.reference site) (.reference resolved) ∧ site.id = id ∧
          call.stack.owner? = owner)

variable {input : Input} {stack : Stack} {late s s' : State} {job : Job}

theorem Input.OriginState.mono {later : State} (memory : input.OriginState late s)
    (precedes : late.Precedes later) : input.OriginState later s where
  next := memory.next
  dims found := by
    obtain ⟨call, declared, made, ends, origin⟩ := memory.dims found
    exact ⟨call, declared, made, ends.trans precedes, origin⟩
  signatures found := by
    obtain ⟨call, receiver, declared, made, ends, origin⟩ := memory.signatures found
    exact ⟨call, receiver, declared, made, ends.trans precedes, origin⟩
  uses found := by
    obtain ⟨call, site, made, ends, origin⟩ := memory.uses found
    exact ⟨call, site, made, ends.trans precedes, origin⟩

theorem Run.origins (run : Run input stack s job s') (made : input.Makes ⟨stack, s, job, s'⟩)
    (ends : s'.Precedes late) (memory : input.OriginState late s) : input.OriginState late s' := by
  induction run with
  | literal | typeRef | param | remembered | nil | noChild => exact memory
  | dimRemembered | dimInProgress | signatureRemembered | signatureInProgress | skipped =>
      exact memory
  | list allowed run rebuilt induction =>
      have starts : input.Starts _ _ _ := .list run rebuilt
      exact (induction (made.starts starts) (starts.after.trans ends) memory).of_allots
        (allots_of_rebuildSequence rebuilt)
  | block allowed run rebuilt induction =>
      have starts : input.Starts _ _ _ := .block run rebuilt
      exact (induction (made.starts starts) (starts.after.trans ends) memory).of_allots
        (allots_of_rebuildSequence rebuilt)
  | dim allowed run induction => exact induction (made.starts (.dim run)) ends memory
  | function allowed run induction => exact induction (made.starts (.function run)) ends memory
  | method allowed run induction => exact induction (made.starts (.method run)) ends memory
  | child allowed run induction => exact induction (made.starts (.child run)) ends memory
  | reference allowed missing bracketsRun parensRun meaningRun rebuilt brackets parens meaning =>
      have visits : input.Visits _ _ _ _ _ _ _ _ _ _ _ :=
        ⟨missing, bracketsRun, parensRun, meaningRun, by rw [rebuilt], by rw [rebuilt]⟩
      have first := Input.Starts.brackets visits
      have second := Input.Starts.parens visits
      have third := Input.Starts.meaning visits
      have memory := brackets (made.starts first) (first.after.trans ends) memory
      have memory := parens (made.starts second) (second.after.trans ends) memory
      have memory := meaning (made.starts third) (third.after.trans ends) memory
      refine (memory.of_allots (allots_of_rebuildReference rebuilt)).rememberUse ?_
      exact ⟨_, _, made, ends, ⟨⟨_, rfl⟩, missing⟩, rfl, rfl, rfl⟩
  | cons allowed itemRun itemsRun item items =>
      have head : input.Starts _ _ _ := .head itemRun itemsRun
      have memory := item (made.starts head) (head.after.trans ends) memory
      exact items (made.starts (.tail itemRun itemsRun)) ends memory
  | dimFresh allowed missing idle run rebuilt induction =>
      have starts : input.Starts _ _ _ := .extent missing idle run rebuilt rfl
      have memory := induction (made.starts starts) (starts.after.trans ends) memory
      refine (memory.of_allots (allots_of_rebuildDim rebuilt)).rememberDim ?_
      exact ⟨_, _, made, ends, .dim missing idle, rfl, rfl⟩
  | signatureFresh allowed missing idle run rebuilt induction =>
      have starts : input.Starts _ _ _ := .body missing idle run rebuilt rfl
      have memory := induction (made.starts starts) (starts.after.trans ends) memory
      refine (memory.of_allots (allots_of_rebuildSignature rebuilt)).rememberSignature ?_
      exact ⟨_, _, _, made, ends, .signature missing idle, rfl, rfl⟩
  | unbound => exact memory.withError _
  | paramMeant => exact memory.withEvent _
  | dimMeant allowed known bound run induction =>
      have starts : input.Starts _ _ _ := .target known bound run rfl rfl
      exact (induction (made.starts starts) (starts.after.trans ends) memory).withEvent _
  | refused allowed known bound calls applied =>
      exact ((memory.of_allots (allots_of_argumentsOf applied)).withEvent _).withError _
  | recursive allowed known bound calls applied =>
      exact ((memory.of_allots (allots_of_argumentsOf applied)).withEvent _).withEvent _
  | entered allowed known bound calls applied selects idle run induction =>
      have starts : input.Starts _ _ _ :=
        .entered known bound calls applied selects idle run rfl rfl
      have memory := memory.of_allots (allots_of_argumentsOf applied)
      have memory := induction (made.starts starts) (starts.after.trans ends) (memory.withEvent _)
      exact memory.withEvent _

/-- A call keeps the origins of what is remembered. -/
theorem Input.Makes.keepsOrigins {call : Call} (made : input.Makes call)
    (memory : input.OriginState call.before call.before) :
    input.OriginState call.after call.after :=
  made.run.origins made (.refl _) (Input.OriginState.mono memory made.run.precedes)

theorem Input.Makes.origins {call : Call} (made : input.Makes call) :
    input.OriginState call.before call.before :=
  made.keeps (P := fun s => input.OriginState s s)
    (fun memory => .advance (OriginState.mono memory (.of_allots (.inr rfl))))
    (fun {s event} memory => .withEvent (OriginState.mono memory (.withEvent s event)) event)
    (fun made => made.keepsOrigins) .initial

theorem Input.origins (input : Input) : input.OriginState input.final input.final :=
  Input.Makes.keeps_final (P := fun s => input.OriginState s s) (fun made => made.keepsOrigins)
    .initial

/-- A dim that is remembered was returned by the call that opened it. -/
theorem Input.OriginState.makes_dim {declared resolved : Dim}
    (origins : input.OriginState late late) (inside : .dim declared ∈ input.graph)
    (found : late.dims.find? declared.id = some resolved) :
    ∃ stack s s', input.Makes ⟨stack, s, .dim declared resolved, s'⟩ ∧ s'.Precedes late ∧
      Call.Opens ⟨stack, s, .dim declared resolved, s'⟩ (.dim declared) := by
  obtain ⟨⟨stack, s, job, s'⟩, origin, made, ends, opens, job, same⟩ := origins.dims found
  cases job
  cases input.graph.eq_of_id made.run.allowed.job inside same
  exact ⟨stack, s, s', made, ends, opens⟩

/-- A signature that is remembered was returned by the call that opened it. -/
theorem Input.OriginState.makes_signature {c : Callable} {declared resolved : Signature c}
    (origins : input.OriginState late late) (inside : declared.node ∈ input.graph)
    (found : late.signature? c declared.id = some resolved) :
    ∃ stack s receiver s', input.Makes ⟨stack, s, .signature receiver declared resolved, s'⟩ ∧
      s'.Precedes late ∧
        Call.Opens ⟨stack, s, .signature receiver declared resolved, s'⟩ declared.node := by
  obtain ⟨⟨stack, s, job, s'⟩, receiver, origin, made, ends, opens, job, same⟩ :=
    origins.signatures found
  cases job
  have nodes := input.graph.eq_of_id made.run.allowed.job inside (by simpa using same)
  obtain rfl := SignatureOf.node_inj nodes
  exact ⟨stack, s, receiver, s', made, ends, opens⟩

/-! ## What stands where a node stood -/

/-- Before a late state, a node is returned for a node that was given under an owner. -/
def Input.Returns (input : Input) (late : State) (owner : Option NodeId) (given returned : Node) :
    Prop :=
  ∃ call, input.Makes call ∧ call.after.Precedes late ∧ call.job = .node given returned ∧
    call.stack.owner? = owner

namespace Input.Makes

theorem returns_items {given returned : List Node}
    (made : input.Makes ⟨stack, s, .items given returned, s'⟩) (ends : s'.Precedes late) :
    List.Forall₂ (input.Returns late stack.owner?) given returned := by
  induction given generalizing returned s with
  | nil =>
      cases made.run with
      | nil => exact .nil
  | cons item items induction =>
      cases made.run with
      | cons _ itemRun itemsRun =>
          have head : input.Starts _ _ _ := .head itemRun itemsRun
          exact .cons ⟨_, made.starts head, head.after.trans ends, rfl, rfl⟩
            (induction (made.starts (.tail itemRun itemsRun)))

/-- A sequence that is rebuilt holds what was returned for its items. -/
theorem returns_sequence {given resolved : Sequence} {items : List Node} {t : State}
    (made : input.Makes ⟨stack, s, .items given.items items, s'⟩) (ends : s'.Precedes late)
    (rebuilt : rebuildSequence given items s' = (resolved, t)) :
    List.Forall₂ (input.Returns late stack.owner?) given.items resolved.items := by
  have renews := made.annotated.imp fun _ _ item => item.renews
  rw [items_eq_of_rebuildSequence made.run.allowed.job renews rebuilt]
  exact made.returns_items ends

theorem returns_child {given returned : Option Node}
    (made : input.Makes ⟨stack, s, .child given returned, s'⟩) (ends : s'.Precedes late) :
    List.Forall₂ (input.Returns late stack.owner?) given.toList returned.toList := by
  cases made.run with
  | noChild => exact .nil
  | child _ run => exact .cons ⟨_, made.starts (.child run), ends, rfl, rfl⟩ .nil

/-- A use site that is processed gets what was returned for its children. -/
theorem returns_children {site resolved : Reference}
    (made : input.Makes ⟨stack, s, .node (.reference site) (.reference resolved), s'⟩)
    (ends : s'.Precedes late) (missing : s.uses.find? (site.id, stack.owner?) = none) :
    List.Forall₂ (input.Returns late stack.owner?) (Node.reference site).locals
      (Node.reference resolved).locals := by
  obtain ⟨s₁, s₂, s₃, brackets, parens, meaning, visits⟩ := Run.visits made.run missing
  have first := Input.Starts.brackets visits
  have second := Input.Starts.parens visits
  have bracketsMade := made.starts first
  have parensMade := made.starts second
  obtain ⟨bracketsEq, parensEq⟩ := children_eq_of_rebuildReference made.run.allowed.job
    (bracketsMade.annotated.imp fun _ _ child => child.renews)
    (parensMade.annotated.imp fun _ _ child => child.renews) (Prod.ext visits.rebuilt rfl)
  rw [Node.locals, Node.locals, bracketsEq, parensEq]
  exact List.rel_append (bracketsMade.returns_child (first.after.trans ends))
    (parensMade.returns_child (second.after.trans ends))

end Input.Makes

namespace Input.Returns

variable {owner : Option NodeId} {given returned : Node}

/-- What is returned for a use site is a use site, remembered or processed by a call for the same
owner. -/
theorem processes {site : Reference}
    (returns : input.Returns late owner (.reference site) returned) :
    ∃ resolved call, returned = .reference resolved ∧ input.Makes call ∧
      call.after.Precedes late ∧ call.Processes site ∧
        call.job = .node (.reference site) (.reference resolved) ∧ call.stack.owner? = owner := by
  obtain ⟨⟨stack, s, job, s'⟩, made, ends, rfl, rfl⟩ := returns
  have run : Run input stack s (.node (.reference site) returned) s' := made.run
  cases run with
  | remembered allowed found =>
      obtain ⟨call, origin, origins, before, processes, job, same, owner⟩ := made.origins.uses found
      have inside : Node.reference origin ∈ input.graph := by
        have inside := origins.run.allowed.job
        rw [job] at inside
        exact inside
      cases input.graph.eq_of_id inside allowed.job same
      exact ⟨_, call, rfl, origins, before.trans ends, processes, job, owner⟩
  | reference _ missing => exact ⟨_, _, rfl, made, ends, ⟨⟨_, rfl⟩, missing⟩, rfl, rfl⟩

/-- The nodes in the context of a node are returned for those that were given. -/
theorem locals (returns : input.Returns late owner given returned) :
    List.Forall₂ (input.Returns late owner) given.locals returned.locals := by
  obtain ⟨⟨stack, s, job, s'⟩, made, ends, rfl, rfl⟩ := returns
  have run : Run input stack s (.node given returned) s' := made.run
  cases run with
  | literal | typeRef | param | dim | function | method => exact .nil
  | list allowed run rebuilt =>
      have starts : input.Starts _ _ _ := .list run rebuilt
      exact (made.starts starts).returns_sequence (starts.after.trans ends) rebuilt
  | block allowed run rebuilt =>
      have starts : input.Starts _ _ _ := .block run rebuilt
      exact (made.starts starts).returns_sequence (starts.after.trans ends) rebuilt
  | remembered | reference =>
      obtain ⟨resolved, call, eq, origins, before, processes, job, owner⟩ :=
        processes ⟨_, made, ends, rfl, rfl⟩
      cases eq
      obtain ⟨stack', t, job, t'⟩ := call
      cases job
      rw [← owner]
      exact origins.returns_children before processes.2

/-- What stands at a position of a context is returned for what was given there. -/
theorem local? (returns : input.Returns late owner given returned) {path : List Nat} {inner : Node}
    (here : given.local? path = some inner) :
    ∃ found, returned.local? path = some found ∧ input.Returns late owner inner found := by
  induction path generalizing given returned with
  | nil =>
      cases here
      exact ⟨returned, rfl, returns⟩
  | cons index path induction =>
      obtain ⟨child, isChild, here⟩ := Option.bind_eq_some_iff.mp here
      obtain ⟨found, isFound, returns⟩ : ∃ found, returned.locals[index]? = some found ∧
          input.Returns late owner child found := by
        have locals := List.forall₂_iff_get.mp returns.locals
        obtain ⟨inRange, rfl⟩ := List.getElem?_eq_some_iff.mp isChild
        have inRange' : index < returned.locals.length := locals.1 ▸ inRange
        exact ⟨_, List.getElem?_eq_getElem inRange', locals.2 index inRange inRange'⟩
      obtain ⟨last, isLast, returns⟩ := induction returns here
      exact ⟨last, Option.bind_eq_some_iff.mpr ⟨found, isFound, isLast⟩, returns⟩

/-- What a returned node leads to in its context is returned for a node that was given. -/
theorem of_reaches (returns : input.Returns late owner given returned) {inner : Node}
    (reaches : returned.Reaches inner) :
    ∃ origin, given.Reaches origin ∧ input.Returns late owner origin inner := by
  induction reaches generalizing given with
  | self => exact ⟨given, .self given, returns⟩
  | @step node child inner here _ induction =>
      obtain ⟨origin, member, returns⟩ :
          ∃ origin ∈ given.locals, input.Returns late owner origin child :=
        (List.forall₂_iff_get.mp returns.locals).elim fun lengths get => by
          obtain ⟨index, inRange, rfl⟩ := List.getElem_of_mem here
          have inRange' : index < given.locals.length := lengths ▸ inRange
          exact ⟨_, List.getElem_mem inRange', get index inRange' inRange⟩
      obtain ⟨last, leads, returns⟩ := induction returns
      exact ⟨last, .step member leads, returns⟩

/-- A use site is returned for a use site. -/
theorem eq_reference {resolved : Reference}
    (returns : input.Returns late owner given (.reference resolved)) :
    ∃ site, given = .reference site := by
  obtain ⟨⟨stack, s, job, s'⟩, made, -, rfl, -⟩ := returns
  have run : Run input stack s (.node given (.reference resolved)) s' := made.run
  cases run with
  | remembered | reference => exact ⟨_, rfl⟩

end Input.Returns

/-! ## What is remembered at the end -/

/-- A declaration is remembered at the end in its resolved form. -/
inductive Input.Resolves (input : Input) : Node → Node → Prop
  | dim {declared resolved : Dim} : .dim declared ∈ input.graph →
      input.final.dims.find? declared.id = some resolved →
        Resolves input (.dim declared) (.dim resolved)
  | signature {c : Callable} {declared resolved : Signature c} : declared.node ∈ input.graph →
      input.final.signature? c declared.id = some resolved →
        Resolves input declared.node resolved.node

namespace Input.Makes

/-- A dim that is opened gets what was returned for its extent. -/
theorem returns_extent {declared resolved : Dim}
    (made : input.Makes ⟨stack, s, .dim declared resolved, s'⟩) (ends : s'.Precedes late)
    (opens : Call.Opens ⟨stack, s, .dim declared resolved, s'⟩ (.dim declared)) :
    input.Returns late none declared.extent resolved.extent := by
  obtain ⟨missing, idle⟩ := opens.unknown_dim
  obtain ⟨extent, s₁, s₂, starts, rebuilt⟩ := Run.extent made.run missing idle
  have inner := made.starts starts
  rw [extent_eq_of_rebuildDim made.run.allowed.job inner.annotated.renews rebuilt]
  exact ⟨_, inner, starts.after.trans ends, rfl, rfl⟩

/-- A signature that is opened gets what was returned for its body. -/
theorem returns_body {c : Callable} {receiver : Option String} {declared resolved : Signature c}
    (made : input.Makes ⟨stack, s, .signature receiver declared resolved, s'⟩)
    (ends : s'.Precedes late)
    (opens : Call.Opens ⟨stack, s, .signature receiver declared resolved, s'⟩ declared.node) :
    input.Returns late (some declared.id) declared.body resolved.body := by
  obtain ⟨missing, idle⟩ := opens.unknown_signature
  obtain ⟨body, s₁, s₂, starts, rebuilt⟩ := Run.body made.run missing idle
  have inner := made.starts starts
  rw [body_eq_of_rebuildSignature made.run.allowed.job inner.annotated.renews rebuilt]
  exact ⟨_, inner, starts.after.trans ends, rfl, rfl⟩

end Input.Makes

theorem Input.Resolves.of_signature {c : Callable} {declared resolved : Signature c}
    (resolves : input.Resolves declared.node resolved.node) :
    declared.node ∈ input.graph ∧ input.final.signature? c declared.id = some resolved := by
  generalize isGiven : declared.node = given at resolves
  generalize isReturned : resolved.node = returned at resolves
  cases resolves with
  | dim => cases c <;> cases isGiven
  | @signature c' _ _ inside found =>
      cases c <;> cases c' <;> cases isGiven <;> cases isReturned <;> exact ⟨inside, found⟩

/-- One resolved form is remembered for a declaration. -/
theorem Input.Resolves.unique {declared resolved resolved' : Node}
    (resolves : input.Resolves declared resolved) (again : input.Resolves declared resolved') :
    resolved = resolved' := by
  generalize isGiven : declared = given at again
  cases resolves with
  | dim _ found =>
      cases again with
      | dim _ found' =>
          cases isGiven
          cases found.symm.trans found'
          rfl
      | @signature c' => cases c' <;> cases isGiven
  | @signature c _ _ _ found =>
      cases again with
      | dim => cases c <;> cases isGiven
      | @signature c' _ _ _ found' =>
          cases c <;> cases c' <;> cases isGiven <;> cases found.symm.trans found' <;> rfl

/-- The contents of a declaration that is remembered were returned for those that were given. -/
theorem Input.Resolves.returns {declared resolved contents : Node}
    (resolves : input.Resolves declared resolved)
    (isContents : declared.contents? = some contents) :
    ∃ found, resolved.contents? = some found ∧
      input.Returns input.final declared.owner? contents found := by
  cases resolves with
  | dim inside found =>
      obtain ⟨stack, s, s', made, ends, opens⟩ := input.origins.makes_dim inside found
      cases isContents
      exact ⟨_, rfl, made.returns_extent ends opens⟩
  | @signature c declared resolved inside found =>
      obtain ⟨stack, s, receiver, s', made, ends, opens⟩ :=
        input.origins.makes_signature inside found
      rw [Node.contents?_signature] at isContents
      cases isContents
      rw [Node.owner?_signature]
      exact ⟨_, Node.contents?_signature _, made.returns_body ends opens⟩

/-- A dim that is not in progress is remembered when it was resolved. -/
theorem Run.find?_dims {declared resolved : Dim}
    (run : Run input stack s (.dim declared resolved) s') (idle : ¬ stack.Resolving declared.id) :
    s'.dims.find? declared.id = some resolved := by
  cases run with
  | dimRemembered _ found => exact found
  | dimInProgress _ _ resolving => exact absurd resolving idle
  | dimFresh => exact Table.find?_insert_self _ _ _

/-- A signature that is not in progress is remembered when it was resolved. -/
theorem Run.signature?_eq {c : Callable} {receiver : Option String}
    {declared resolved : Signature c}
    (run : Run input stack s (.signature receiver declared resolved) s')
    (idle : ¬ stack.Resolving declared.id) : s'.signature? c declared.id = some resolved := by
  cases run with
  | signatureRemembered _ found => exact found
  | signatureInProgress _ _ resolving => exact absurd resolving idle
  | signatureFresh => exact State.signature?_rememberSignature_self _ _ _

/-- The declarations of the items are remembered at the end. -/
theorem Input.resolves_items (input : Input) :
    List.Forall₂ (fun item resolved => input.Resolves item.node resolved.node) input.items
      input.resolved.items := by
  refine input.makes_items.imp
    fun item resolved ⟨⟨stack, s, job, s'⟩, made, outside, resolves⟩ => ?_
  have ends := made.after.grows
  cases outside
  -- Outside of all declarations none is in progress.
  have idle {id : NodeId} : ¬ Stack.Resolving [] id := List.not_mem_nil
  cases resolves with
  | dim => exact .dim made.run.allowed.job (ends.dims (made.run.find?_dims idle))
  | @function declared resolved =>
      have found := ends.signatures (Run.signature?_eq made.run idle)
      exact .signature made.run.allowed.job found
  | @method receiver declared resolved =>
      have found := ends.signatures (Run.signature?_eq made.run idle)
      exact .signature made.run.allowed.job found

end ModelLang.Resolution
