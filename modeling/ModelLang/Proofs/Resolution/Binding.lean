import ModelLang.Proofs.Resolution.Growth

/-!
# Well-bound use sites

A resolved use site may carry a target and a type.  This module says when the two are right: the
target is what the name stands for in the enclosing declaration, and the type follows from the
target.  A node is sound when all its use sites are, in the context that each of them is met in,
together with the targets that they lead to.
-/

namespace ModelLang.Resolution

/-- The resolved form of a dim: it differs from the dim only in its identity and its extent. -/
structure State.ResolvesDim (state : State) (declared resolved : Dim) : Prop where
  remembered : state.dims.find? declared.id = some resolved
  resolved_eq : resolved = { declared with id := resolved.id, extent := resolved.extent }

/-- The resolved form of an overload: it differs from the overload only in its identity and its
body. -/
structure State.ResolvesSignature {c : Callable} (state : State)
    (declared resolved : Signature c) : Prop where
  remembered : state.signature? c declared.id = some resolved
  resolved_eq : resolved = { declared with id := resolved.id, body := resolved.body }

namespace Input

/-- Use sites are given as they are written, without a type and without a target. -/
def Plain (input : Input) : Prop :=
  ∀ {site : Reference}, .reference site ∈ input.graph → site.ty = .unknown ∧ site.target = none

/-- The arguments that a use site calls with: its parentheses, or else an empty list that is new. -/
def Applies (input : Input) (site : Reference) (arguments : Node) : Prop :=
  site.parens = some arguments ∨
    site.parens = none ∧ ∃ id, input.next ≤ id ∧ arguments = .list ⟨id, [], site.span⟩

/-- The overloads of the scope that a use site may call: a function of its name, or a method of its
name, which belongs to the receiver of a qualified use site. -/
inductive Offers (input : Input) (site : Reference) :
    {c : Callable} → OverloadSet (Signature c) → Prop
  | function {overloads : OverloadSet (Signature .function)} :
      site.receiver = none → input.scope.function? site.name = some overloads →
        Offers input site overloads
  | method {receiver : String} {method : MethodSet} :
      (∀ qualifier ∈ site.receiver, qualifier = receiver) →
        input.scope.method? receiver site.name = some method → method.receiver = receiver →
          Offers input site method.overloads

/-- A use site calls a candidate: it is the one that the arguments select. -/
def Selects (input : Input) {c : Callable} (site : Reference) (candidate : Signature c) : Prop :=
  ∃ (overloads : OverloadSet (Signature c)) (arguments : Node),
    input.Offers site overloads ∧ overloads.name = site.name ∧
      candidate ∈ overloads.candidates ∧ input.Applies site arguments ∧
        overloads.resolve arguments site.span = .ok candidate

/-- The target and the type of a use site are right, where `params` are the parameters of the
enclosing declaration. -/
inductive Binds (input : Input) (params : List Param) (site : Reference) : Target → Prop
  | param {param : Param} : site.receiver = none → site.parens = none → param ∈ params →
      param.name = site.name → site.ty = param.ty → Binds input params site (.param param)
  | dim {declared dim : Dim} : site.receiver = none → site.parens = none →
      input.scope.dim? site.name = some declared → declared.name = site.name →
        dim = declared ∨ input.final.ResolvesDim declared dim → site.ty = .int →
          Binds input params site (.dim dim)
  | call {c : Callable} {candidate resolved : Signature c} : input.Selects site candidate →
      input.final.ResolvesSignature candidate resolved → site.ty = resolved.body.ty →
        Binds input params site (.signature resolved)
  /-- A call that is met while its own candidate is being resolved. -/
  | recursion {c : Callable} {candidate : Signature c} : input.Selects site candidate →
      site.ty = .unknown → Binds input params site (.signature candidate)

/-- The use sites of a node are bound, and so are those that are met from it. -/
inductive Sound (input : Input) : List Param → Node → Prop
  | literal {params node} : Sound input params (.literal node)
  | typeRef {params node} : Sound input params (.typeRef node)
  | param {params node} : Sound input params (.param node)
  | reference {params} {site : Reference}
      (brackets : ∀ child ∈ site.brackets, Sound input params child)
      (parens : ∀ child ∈ site.parens, Sound input params child)
      (binds : ∀ target ∈ site.target, input.Binds params site target)
      (target : ∀ target ∈ site.target, Sound input [] target.node) :
      Sound input params (.reference site)
  | list {params} {node : Sequence} (items : ∀ item ∈ node.items, Sound input params item) :
      Sound input params (.list node)
  | block {params} {node : Sequence} (items : ∀ item ∈ node.items, Sound input params item) :
      Sound input params (.block node)
  | dim {params} {node : Dim} (extent : Sound input [] node.extent) :
      Sound input params (.dim node)
  | function {params} {node : Signature .function} (body : Sound input node.formals node.body) :
      Sound input params (.function node)
  | method {params} {node : Signature .method} (body : Sound input node.formals node.body) :
      Sound input params (.method node)

namespace Sound

variable {input : Input} {params : List Param}

theorem signature {c : Callable} {node : Signature c} (body : input.Sound node.formals node.body) :
    input.Sound params node.node := by
  cases c with
  | function => exact .function body
  | method => exact .method body

/-- A dim brings its own context. -/
theorem of_dim {params' : List Param} {node : Dim} (sound : input.Sound params (.dim node)) :
    input.Sound params' (.dim node) := by
  cases sound with
  | dim extent => exact .dim extent

/-- A signature brings its own context. -/
theorem of_signature {params' : List Param} {c : Callable} {node : Signature c}
    (sound : input.Sound params node.node) : input.Sound params' node.node := by
  cases c with
  | function =>
      cases sound with
      | function body => exact .function body
  | method =>
      cases sound with
      | method body => exact .method body

/-- What a node leads to inside its context is sound in that context. -/
theorem of_reaches {node inner : Node} (sound : input.Sound params node)
    (reaches : node.Reaches inner) : input.Sound params inner := by
  induction reaches with
  | self => exact sound
  | step child _ induction =>
      refine induction ?_
      cases sound with
      | literal | typeRef | param | dim | function | method => cases child
      | reference brackets parens =>
          simp only [Node.locals, List.mem_append, Option.mem_toList] at child
          exact child.elim (brackets _) (parens _)
      | list items | block items => exact items _ child

/-- What a declaration encloses is sound for the parameters that it binds. -/
theorem of_encloses {declaration inner : Node} (sound : input.Sound params declaration)
    (encloses : declaration.Encloses inner) : input.Sound declaration.formals inner := by
  obtain ⟨contents, isContents, reaches⟩ := encloses
  refine of_reaches ?_ reaches
  cases sound with
  | literal | typeRef | param | reference | list | block => cases isContents
  | dim extent =>
      cases isContents
      exact extent
  | function body | method body =>
      cases isContents
      exact body

/-- All declarations met from sound nodes are sound. -/
theorem of_linked {roots : List Node} (sound : ∀ root ∈ roots, input.Sound [] root) {node : Node}
    (linked : Linked roots node) : ∃ params, input.Sound params node := by
  induction linked with
  | root member => exact ⟨[], sound _ member⟩
  | nested _ encloses induction =>
      obtain ⟨params, outer⟩ := induction
      exact ⟨_, outer.of_encloses encloses⟩
  | target _ encloses isTarget induction =>
      obtain ⟨params, user⟩ := induction
      cases user.of_encloses encloses with
      | reference _ _ _ target => exact ⟨[], target _ isTarget⟩

/-- Use sites as they are written promise nothing. -/
theorem of_plain (plain : input.Plain) {node : Node} (inside : node ∈ input.graph) :
    input.Sound params node := by
  induction node using Node.induct generalizing params with
  | step node children =>
      replace children {params : List Param} : ∀ child ∈ node.children, input.Sound params child :=
        fun child member => children child member (input.graph.mem_child inside member)
      cases node with
      | literal => exact .literal
      | typeRef => exact .typeRef
      | param => exact .param
      | reference site =>
          refine .reference (fun child member => children child ?_)
            (fun child member => children child ?_) ?_ ?_
          · simp [Node.children, Option.mem_def.mp member]
          · simp [Node.children, Option.mem_def.mp member]
          · simp [(plain inside).2]
          · simp [(plain inside).2]
      | list node => exact .list children
      | block node => exact .block children
      | dim node => exact .dim (children _ (by simp [Node.children]))
      | function node => exact .function (children _ (by simp [Node.children]))
      | method node => exact .method (children _ (by simp [Node.children]))

end Sound

end Input

end ModelLang.Resolution
