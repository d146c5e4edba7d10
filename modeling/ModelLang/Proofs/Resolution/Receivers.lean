import ModelLang.Proofs.Resolution.Contexts

/-!
# The receiver that a method is resolved in

The body of a method sees the methods of one receiver: of the place where the overload was first
met.  It may be met as an item, as a candidate of a method of the scope, or nested in the contents
of another method, and it is resolved only there, whatever the receivers of the other places are.
So the methods that its use sites call are those of a receiver that it is met in; it is the
receiver of an item when the overload has no other place.
-/

namespace ModelLang

namespace Node

/-- What a node leads to inside one context leads on. -/
theorem Reaches.trans {node middle inner : Node} (first : node.Reaches middle)
    (second : middle.Reaches inner) : node.Reaches inner := by
  induction first with
  | self => exact second
  | step here _ induction => exact .step here (induction second)

theorem Encloses.inside {declaration node child : Node} (encloses : declaration.Encloses node)
    (here : child ∈ node.locals) : declaration.Encloses child := by
  obtain ⟨contents, isContents, reaches⟩ := encloses
  exact ⟨contents, isContents, reaches.trans (.step here (.self child))⟩

end Node

namespace Resolution

/-- A declaration is met among the items, in the scope, or nested in the contents of one that is
met; a method is met in a receiver, or in none. -/
inductive Input.Meets (input : Input) : Node → Option String → Prop
  | item {item : Item} : item ∈ input.items → Meets input item.node item.receiver?
  | dim {name : String} {dim : Dim} : input.scope.dim? name = some dim →
      Meets input (.dim dim) none
  | function {name : String} {overloads : OverloadSet (Signature .function)}
      {candidate : Signature .function} : input.scope.function? name = some overloads →
        candidate ∈ overloads.candidates → Meets input (.function candidate) none
  | method {receiver name : String} {method : MethodSet} {candidate : Signature .method} :
      input.scope.method? receiver name = some method →
        candidate ∈ method.overloads.candidates → Meets input (.method candidate) (some receiver)
  | nestedDim {outer : Node} {receiver : Option String} {dim : Dim} : Meets input outer receiver →
      outer.Encloses (.dim dim) → Meets input (.dim dim) none
  | nestedFunction {outer : Node} {receiver : Option String} {signature : Signature .function} :
      Meets input outer receiver → outer.Encloses (.function signature) →
        Meets input (.function signature) none
  | nestedMethod {outer : Node} {receiver : Option String} {signature : Signature .method} :
      Meets input outer receiver → outer.Encloses (.method signature) →
        Meets input (.method signature) receiver

/-- A node is in the contents of a declaration that is met in a receiver. -/
def Input.MeetsInside (input : Input) (receiver : Option String) (node : Node) : Prop :=
  ∃ declaration, input.Meets declaration receiver ∧ declaration.Encloses node

/-- A job is about a declaration that is met, or about nodes in the contents of one. -/
def Job.Met (input : Input) (stack : Stack) : Job → Prop
  | node given _ => input.MeetsInside stack.receiver? given
  | items given _ => ∀ item ∈ given, input.MeetsInside stack.receiver? item
  | child given _ => ∀ child ∈ given, input.MeetsInside stack.receiver? child
  | dim given _ => input.Meets (.dim given) none
  | signature receiver given _ => input.Meets given.node receiver
  | meaning _ _ _ => True

section Runs

variable {input : Input}

/-- What is met is in the graph. -/
theorem Input.Meets.mem_graph {node : Node} {receiver : Option String}
    (met : input.Meets node receiver) : node ∈ input.graph := by
  induction met with
  | item listed => exact input.listed _ listed
  | dim found => exact (input.declares.within.dim found).1
  | function found member => exact ((input.declares.within.function found).mem _ member).1
  | method found member => exact ((input.declares.within.method found).2.mem _ member).1
  | nestedDim _ encloses induction => exact encloses.mem_graph induction
  | nestedFunction _ encloses induction => exact encloses.mem_graph induction
  | nestedMethod _ encloses induction => exact encloses.mem_graph induction

/-- What is met is a declaration. -/
theorem Input.Meets.isSome_contents? {node : Node} {receiver : Option String}
    (met : input.Meets node receiver) : node.contents?.isSome := by
  cases met with
  | @item item => cases item <;> rfl
  | dim | function | method | nestedDim | nestedFunction | nestedMethod => rfl

theorem Input.MeetsInside.inside {receiver : Option String} {node child : Node}
    (met : input.MeetsInside receiver node) (here : child ∈ node.locals) :
    input.MeetsInside receiver child := by
  obtain ⟨declaration, met, encloses⟩ := met
  exact ⟨declaration, met, encloses.inside here⟩

/-- The overload that a call selects is met in the receiver of its set. -/
theorem Input.meets_of_calls {stack : Stack} {site : Reference} {binding : Binding} {c : Callable}
    {receiver : Option String} {overloads : OverloadSet (Signature c)}
    {resolve : Node → Span → Except Diagnostic (Signature c)} {arguments : Node}
    {selected : Signature c} (bound : lookup input.scope stack site = .ok binding)
    (calls : binding.Calls receiver overloads resolve)
    (selects : resolve arguments site.span = .ok selected) :
    input.Meets selected.node receiver := by
  have chosen := calls.resolve_eq_ok_iff_choose.mp selects
  have member := (OverloadSet.mem_of_choose_eq_unique chosen).1
  have found := found_of_lookup bound
  cases calls with
  | function overloads =>
      cases found with
      | function _ found => exact .function found member
  | method method =>
      cases found with
      | method _ found =>
          rw [(input.declares.within.method found).1]
          exact .method found member

/-- Calls are about what is met. -/
theorem Job.Met.starts {call inner : Call} {index : Nat} (met : call.job.Met input call.stack)
    (starts : input.Starts call index inner) : inner.job.Met input inner.stack := by
  cases starts with
  | list | block => exact fun item member => met.inside member
  | dim =>
      obtain ⟨declaration, met, encloses⟩ := met
      exact .nestedDim met encloses
  | function =>
      obtain ⟨declaration, met, encloses⟩ := met
      exact .nestedFunction met encloses
  | method =>
      obtain ⟨declaration, met, encloses⟩ := met
      exact .nestedMethod met encloses
  | brackets | parens => exact fun child member => met.inside (by simp_all [Node.locals])
  | meaning => trivial
  | head => exact met _ (by simp)
  | tail => exact fun item member => met item (by simp [member])
  | child => exact met _ rfl
  | extent => exact ⟨_, met, _, rfl, .self _⟩
  | body => exact ⟨_, met, _, Node.contents?_signature _, .self _⟩
  | target known bound =>
      cases found_of_lookup bound with
      | dim _ _ found => exact .dim found
  | entered known bound calls applied selects => exact input.meets_of_calls bound calls selects

theorem Input.Opens.met {index : Nat} {call : Call}
    (opens : input.Opens input.initial input.items index call) :
    call.job.Met input call.stack := by
  obtain ⟨item, listed, resolved, resolves⟩ := opens.resolves
  have met := Input.Meets.item listed
  obtain ⟨stack, s, job, s'⟩ := call
  cases resolves with
  | dim | function | method => exact met

theorem Input.Makes.met {call : Call} (made : input.Makes call) : call.job.Met input call.stack :=
  made.induct Input.Opens.met fun _ met => met.starts

/-! ## What the use sites of a method call -/

/-- An unqualified name stands for a method of the visible receiver, unless a parameter hides it. -/
theorem lookup_of_method {scope : Scope} {stack : Stack} {site : Reference} {receiver : String}
    {method : MethodSet} (unqualified : site.receiver = none)
    (inside : stack.receiver? = some receiver)
    (found : scope.method? receiver site.name = some method)
    (free : site.parens.isSome ∨ stack.param? site.name = none) :
    lookup scope stack site = .ok (.method method) := by
  have hidden : (if site.isCall then none else stack.param? site.name) = none := by
    rcases free with isCall | free
    · exact if_pos isCall
    · simp [free]
  simp only [lookup, unqualified, lookupHere?, hidden, inside, Option.bind_some, found]
  rfl

/-- A use site obtains its target from its meaning. -/
theorem Input.Makes.meaning {stack : Stack} {s s' : State} {site resolved : Reference}
    (plain : input.Plain)
    (made : input.Makes ⟨stack, s, .node (.reference site) (.reference resolved), s'⟩)
    (missing : s.uses.find? (site.id, stack.owner?) = none) {target : Target}
    (isTarget : resolved.target = some target) :
    ∃ t parens ty t', input.Makes ⟨stack, t, .meaning site parens (some (ty, target)), t'⟩ := by
  obtain ⟨s₁, s₂, s₃, brackets, parens, meaning, visits⟩ := Run.visits made.run missing
  have called := made.starts (.meaning visits)
  rcases rebuildReference_cases (Prod.ext visits.rebuilt rfl) with ⟨-, -, -, rfl, -⟩ | ⟨rfl, -⟩
  · rw [(plain made.run.allowed.job).2] at isTarget
    cases isTarget
  · obtain ⟨⟨ty, target⟩, rfl, rfl⟩ := Option.map_eq_some_iff.mp isTarget
    exact ⟨_, _, ty, _, called⟩

/-- An overload that was resolved differs from the declared one in its identity and its body. -/
theorem Input.Makes.resolvesSignature {call : Call} {c : Callable} {receiver : Option String}
    {declared resolved : Signature c} (made : input.Makes call)
    (job : call.job = .signature receiver declared resolved)
    (idle : ¬ call.stack.Resolving declared.id) :
    input.final.ResolvesSignature declared resolved := by
  obtain ⟨stack, s, job', s'⟩ := call
  cases job
  have known : s'.signature? c declared.id = some resolved := made.run.signature?_eq idle
  have bare_eq := (made.annotates .signature).bare_eq
  rw [Node.bare_signature, Node.bare_signature] at bare_eq
  have same := SignatureOf.node_inj bare_eq
  simp only [SignatureOf.bare, SignatureOf.mk.injEq] at same
  refine ⟨made.after.grows.signatures known, ?_⟩
  obtain ⟨id, name, params, body, span⟩ := resolved
  simp_all

/-- A use site that stands for a method has a candidate of it as its target. -/
theorem Input.Makes.target_of_bound {stack : Stack} {s s' : State} {site : Reference}
    {parens : Option Node} {ty : Ty} {target : Target} {method : MethodSet}
    (made : input.Makes ⟨stack, s, .meaning site parens (some (ty, target)), s'⟩)
    (bound : lookup input.scope stack site = .ok (.method method)) :
    ∃ candidate ∈ method.overloads.candidates, target = .method candidate ∨
      ∃ copy, input.final.ResolvesSignature candidate copy ∧ target = .method copy := by
  have run : Run input stack s (.meaning site parens (some (ty, target))) s' := made.run
  cases run with
  | paramMeant _ _ bound' => cases bound.symm.trans bound'
  | dimMeant _ _ bound' => cases bound.symm.trans bound'
  | recursive _ _ bound' calls _ selects =>
      cases bound.symm.trans bound'
      have chosen := calls.resolve_eq_ok_iff_choose.mp selects
      cases calls
      exact ⟨_, (OverloadSet.mem_of_choose_eq_unique chosen).1, .inl rfl⟩
  | entered _ known bound' calls applied selects idle run =>
      cases bound.symm.trans bound'
      have enters := made.starts (.entered known bound' calls applied selects idle run rfl rfl)
      have resolves := enters.resolvesSignature rfl idle
      have chosen := calls.resolve_eq_ok_iff_choose.mp selects
      cases calls
      exact ⟨_, (OverloadSet.mem_of_choose_eq_unique chosen).1, .inr ⟨_, resolves, rfl⟩⟩

/-- A use site is written like the one that it is returned for. -/
theorem bare_eq_of_reference {site resolved : Reference}
    (same : (Node.reference resolved).bare = (Node.reference site).bare) :
    site.receiver = resolved.receiver ∧ site.name = resolved.name ∧
      site.parens.isSome = resolved.parens.isSome := by
  rw [Node.bare_reference, Node.bare_reference] at same
  simp only [ReferenceOf.bare, Node.reference.injEq, ReferenceOf.mk.injEq] at same
  obtain ⟨-, receiver, name, -, parens, -⟩ := same
  refine ⟨receiver.symm, name.symm, ?_⟩
  simpa using congrArg Option.isSome parens.symm

/-- The frame of a signature binds no name but those of its parameters. -/
theorem Stack.param?_eq_none {stack : Stack} {id : NodeId} {receiver : Option String}
    {params : List Param} {name : String} (top : stack.head? = some (.body id receiver params))
    (free : ∀ param ∈ params, param.name ≠ name) : stack.param? name = none := by
  rw [Stack.param?, top, Option.bind_some, Frame.param?, List.find?_eq_none]
  intro param member
  simpa using free param (List.mem_reverse.mp member)

/-- A use site in the body of a signature that was opened in a receiver calls a method of that
receiver, when there is one of its name that no parameter hides. -/
theorem Input.Makes.target_of_opened {opening : Call} {receiver : String} {c : Callable}
    {declared resolved : Signature c} (plain : input.Plain) (opened : input.Makes opening)
    (opens : opening.Opens declared.node)
    (job : opening.job = .signature (some receiver) declared resolved) {site : Reference}
    {method : MethodSet} {target : Target} (reaches : resolved.body.Reaches (.reference site))
    (unqualified : site.receiver = none)
    (found : input.scope.method? receiver site.name = some method)
    (free : site.parens.isSome ∨ ∀ param ∈ declared.formals, param.name ≠ site.name)
    (isTarget : site.target = some target) :
    ∃ candidate ∈ method.overloads.candidates, target = .method candidate ∨
      ∃ copy, input.final.ResolvesSignature candidate copy ∧ target = .method copy := by
  have body : input.Returns input.final (some declared.id) declared.body resolved.body := by
    obtain ⟨stack, s, job', s'⟩ := opening
    cases job
    exact opened.returns_body opened.after opens
  obtain ⟨origin, -, returns⟩ := body.of_reaches reaches
  obtain ⟨given, rfl⟩ := returns.eq_reference
  obtain ⟨resolved, call, same, made, -, processes, callJob, owner⟩ := returns.processes
  obtain rfl := Node.reference.inj same
  have top := made.head?_stack owner opened opens job
  obtain ⟨stack, s, job', s'⟩ := call
  cases callJob
  obtain ⟨receiver_eq, name_eq, isCall_eq⟩ := bare_eq_of_reference (made.annotates .node).bare_eq
  obtain ⟨t, parens, ty, t', meaning⟩ := made.meaning plain processes.2 isTarget
  have inside : stack.receiver? = some receiver := congrArg (·.bind Frame.receiver?) top
  have visible : given.parens.isSome ∨ stack.param? given.name = none := by
    rw [isCall_eq, name_eq]
    exact free.imp_right (Stack.param?_eq_none top)
  rw [← name_eq] at found
  have bound := lookup_of_method (receiver_eq.trans unqualified) inside found visible
  exact meaning.target_of_bound bound

/-- The use sites in the body of a resolved method call the methods of a receiver that the method is
met in. -/
theorem Input.target_of_method (input : Input) (plain : input.Plain)
    {receiver : String} {declared resolved : Signature .method}
    (listed : (Item.method receiver declared, Item.method receiver resolved) ∈
      input.items.zip input.resolved.items) :
    ∃ inside, input.Meets (.method declared) inside ∧
      ∀ {receiver site method target}, inside = some receiver →
        resolved.body.Reaches (.reference site) → site.receiver = none →
        input.scope.method? receiver site.name = some method →
        (site.parens.isSome ∨ ∀ param ∈ resolved.formals, param.name ≠ site.name) →
        site.target = some target →
          ∃ candidate ∈ method.overloads.candidates, target = .method candidate ∨
            ∃ copy, input.final.ResolvesSignature candidate copy ∧ target = .method copy := by
  have resolves : input.Resolves declared.node resolved.node :=
    (List.forall₂_iff_zip.mp input.resolves_items).2 listed
  obtain ⟨inside, found⟩ := resolves.of_signature
  obtain ⟨opening, receiver, origin, opened, -, opens, job, same⟩ := input.origins.signatures found
  have originInside := opened.run.allowed.job
  rw [job] at originInside
  have nodes := input.graph.eq_of_id originInside inside (by simpa using same)
  obtain rfl := SignatureOf.node_inj nodes
  have met := opened.met
  rw [job] at met
  refine ⟨receiver, met, fun isReceiver reaches unqualified found free isTarget => ?_⟩
  subst isReceiver
  have formals_eq : resolved.formals = origin.formals := by
    have idle := opens.idle
    rw [SignatureOf.id_node] at idle
    rw [(opened.resolvesSignature job idle).resolved_eq]
    rfl
  rw [formals_eq] at free
  exact opened.target_of_opened plain opens job reaches unqualified found free isTarget

end Runs

/-! ## An overload in two receivers -/

namespace TwoReceivers

def noParams : Node := .list ⟨0, [], {}⟩
def call : Reference := ⟨2, none, "help", none, some (.list ⟨1, [], {}⟩), .unknown, none, {}⟩
def shared : Signature .method := ⟨4, "run", noParams, .block ⟨3, [.reference call], {}⟩, {}⟩
def one : Node := .literal ⟨5, .int 1, {}⟩
def helpA : Signature .method := ⟨7, "help", noParams, .block ⟨6, [one], {}⟩, {}⟩
def helpB : Signature .method := ⟨9, "help", noParams, .block ⟨8, [one], {}⟩, {}⟩

def nodes : List Node :=
  [noParams, .list ⟨1, [], {}⟩, .reference call, shared.body, .method shared, one, helpA.body,
    .method helpA, helpB.body, .method helpB]

def graph : Graph :=
  .ofList nodes
    (by simp [nodes, noParams, call, shared, one, helpA, helpB, Node.children]) (by decide)

def help (receiver : String) (candidate : Signature .method) : MethodSet :=
  ⟨receiver, ⟨"help", [candidate]⟩⟩

def owner (receiver : String) (candidate : Signature .method) : Receiver :=
  ⟨receiver, ⟨[("run", ⟨receiver, ⟨"run", [shared]⟩⟩), ("help", help receiver candidate)]⟩⟩

def runs (receiver : String) : Receiver := ⟨receiver, ⟨[("run", ⟨receiver, ⟨"run", [shared]⟩⟩)]⟩⟩

def scope₁ : Scope := { receivers := ⟨[("A", runs "A")]⟩ }
def scope₂ : Scope := { receivers := ⟨[("A", owner "A" helpA)]⟩ }
def scope₃ : Scope := { receivers := ⟨[("A", owner "A" helpA), ("B", runs "B")]⟩ }
def scope : Scope := { receivers := ⟨[("A", owner "A" helpA), ("B", owner "B" helpB)]⟩ }

def items : List Item := [.method "A" shared, .method "B" shared]

theorem mem_graph {receiver : String} {signature : Signature .method}
    (h : signature ∈ [shared, helpA, helpB]) : (Item.method receiver signature).node ∈ graph := by
  change Node.method signature ∈ nodes
  simp only [List.mem_cons, List.not_mem_nil, or_false] at h
  rcases h with rfl | rfl | rfl <;> simp [nodes]

theorem scope_declares : scope.Declares graph := by
  have first : scope₁.Declares graph := .declare .empty (mem_graph (by simp))
    (rfl : Scope.declare {} true (.method "A" shared) = .ok scope₁)
  have second : scope₂.Declares graph := .declare first (mem_graph (by simp))
    (rfl : Scope.declare scope₁ true (.method "A" helpA) = .ok scope₂)
  have third : scope₃.Declares graph := .declare second (mem_graph (by simp))
    (rfl : Scope.declare scope₂ true (.method "B" shared) = .ok scope₃)
  exact .declare third (mem_graph (by simp))
    (rfl : Scope.declare scope₃ true (.method "B" helpB) = .ok scope)

def input : Input where
  graph
  scope
  items
  next := 10
  declares := scope_declares
  listed item member := by
    simp only [items, List.mem_cons, List.not_mem_nil, or_false] at member
    rcases member with rfl | rfl <;> exact mem_graph (by simp)
  below {node} inside := (by decide : ∀ node ∈ nodes, node.id < 10) node inside

theorem plain : input.Plain := by
  intro site inside
  replace inside : .reference site ∈ nodes := inside
  simp only [nodes, noParams, shared, one, helpA, helpB, List.mem_cons, List.not_mem_nil, or_false,
    reduceCtorEq, false_or, Node.reference.injEq] at inside
  subst inside
  exact ⟨rfl, rfl⟩

def resolvedCall : Reference :=
  { call with id := 10, ty := .int, target := some (.method helpA) }

def resolvedBody : Node := .block ⟨11, [.reference resolvedCall], {}⟩
def resolvedShared : Signature .method := { shared with id := 12, body := resolvedBody }

theorem items_eq :
    input.resolved.items = [.method "A" resolvedShared, .method "B" resolvedShared] := rfl

theorem listed :
    (Item.method "B" shared, Item.method "B" resolvedShared) ∈
      input.items.zip input.resolved.items := by
  rw [items_eq]
  simp [input, items]

theorem reaches_call : resolvedShared.body.Reaches (.reference resolvedCall) :=
  .step (by simp [resolvedShared, resolvedBody, Node.locals]) (.self _)

end TwoReceivers

open TwoReceivers in
/-- The overload `method run() {help()}` is listed in the receivers `A` and `B`, and each of them
has a method `help`.  The item of `B` calls the one of `A`, since the overload was resolved
there. -/
theorem target_of_method_twoReceivers :
    input.Plain ∧
      (Item.method "B" shared, Item.method "B" resolvedShared) ∈
        input.items.zip input.resolved.items ∧
      resolvedShared.body.Reaches (.reference resolvedCall) ∧
      input.scope.method? "B" resolvedCall.name = some (help "B" helpB) ∧
      resolvedCall.target = some (.method helpA) ∧
      ∃ inside, input.Meets (.method shared) inside ∧ inside ≠ some "B" := by
  obtain ⟨inside, met, calls⟩ := input.target_of_method plain listed
  refine ⟨plain, listed, reaches_call, rfl, rfl, inside, met, fun same => ?_⟩
  obtain ⟨candidate, member, isTarget | ⟨copy, resolves, -⟩⟩ :=
    calls same reaches_call rfl (rfl : _ = some (help "B" helpB)) (.inl rfl)
      (rfl : resolvedCall.target = some (.method helpA))
  · obtain rfl := List.mem_singleton.mp member
    simp [helpA, helpB] at isTarget
  · obtain rfl := List.mem_singleton.mp member
    cases resolves.remembered

end Resolution

end ModelLang
