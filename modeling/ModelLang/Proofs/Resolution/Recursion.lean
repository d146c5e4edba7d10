import ModelLang.Proofs.Resolution.Contexts

/-!
# Recursion between declarations

A declaration may lead back to itself while it is in progress: through a nested declaration, through
a dim that it names, or through a call that selects it.  What a use site stands for is decided by
its name, its frame and its arguments before anything else is resolved, so recursion is told from
the verdict on a use site.  Declarations with a rank that goes down from each of them to those that
it leads to are not recursive.
-/

namespace ModelLang.Resolution

/-- What is decided about a use site. -/
inductive Verdict where
  /-- Its arguments are of unknown type. -/
  | skipped
  | failed (error : Diagnostic)
  | param (param : Param)
  | dim (dim : Dim)
  /-- A call of an overload, whose body is inside a receiver. -/
  | signature {c : Callable} (receiver : Option String) (selected : Signature c)

/-- A call stands for the overload that it selects. -/
def Verdict.ofSelection {c : Callable} (receiver : Option String) :
    Except Diagnostic (Signature c) → Verdict
  | .ok selected => .signature receiver selected
  | .error error => .failed error

/-- The arguments of a use site, when `free` is the first free identity. -/
def suppliedTo (site : Reference) (parens : Option Node) (free : NodeId) : Node :=
  parens.getD (.list ⟨free, [], site.span⟩)

/-- Decide what a use site stands for. -/
def verdict (scope : Scope) (stack : Stack) (site : Reference) (parens : Option Node)
    (free : NodeId) : Verdict :=
  if parens.any (·.ty.hasUnknown) then .skipped
  else
    match lookup scope stack site with
    | .error error => .failed error
    | .ok (.param param) => .param param
    | .ok (.dim dim) => .dim dim
    | .ok (.function overloads) =>
        .ofSelection none (overloads.resolve (suppliedTo site parens free) site.span)
    | .ok (.method method) =>
        .ofSelection (some method.receiver)
          (method.resolve (suppliedTo site parens free) site.span)

section Verdict

variable {scope : Scope} {stack : Stack} {site : Reference} {parens : Option Node} {free : NodeId}

theorem verdict_of_unknown (unknown : ¬ Known parens) :
    verdict scope stack site parens free = .skipped :=
  if_pos (by simpa [Known] using unknown)

theorem verdict_of_known (known : Known parens) :
    verdict scope stack site parens free =
      match lookup scope stack site with
      | .error error => .failed error
      | .ok (.param param) => .param param
      | .ok (.dim dim) => .dim dim
      | .ok (.function overloads) =>
          .ofSelection none (overloads.resolve (suppliedTo site parens free) site.span)
      | .ok (.method method) =>
          .ofSelection (some method.receiver)
            (method.resolve (suppliedTo site parens free) site.span) :=
  if_neg (by simpa [Known] using known)

theorem verdict_of_error (known : Known parens) {error : Diagnostic}
    (failed : lookup scope stack site = .error error) :
    verdict scope stack site parens free = .failed error := by
  rw [verdict_of_known known, failed]

theorem verdict_of_param (known : Known parens) {param : Param}
    (bound : lookup scope stack site = .ok (.param param)) :
    verdict scope stack site parens free = .param param := by
  rw [verdict_of_known known, bound]

theorem verdict_of_dim (known : Known parens) {dim : Dim}
    (bound : lookup scope stack site = .ok (.dim dim)) :
    verdict scope stack site parens free = .dim dim := by
  rw [verdict_of_known known, bound]

/-- The verdict on a call is what its overloads select for its arguments. -/
theorem verdict_of_calls {binding : Binding} {c : Callable} {receiver : Option String}
    {overloads : OverloadSet (Signature c)}
    {resolve : Node → Span → Except Diagnostic (Signature c)} {arguments : Node} {s s' : State}
    (known : Known parens) (bound : lookup scope stack site = .ok binding)
    (calls : binding.Calls receiver overloads resolve)
    (applied : argumentsOf site parens s = (arguments, s')) :
    verdict scope stack site parens s.next =
      .ofSelection receiver (resolve arguments site.span) := by
  have supplied : suppliedTo site parens s.next = arguments := by
    rcases argumentsOf_cases applied with ⟨rfl, -⟩ | ⟨rfl, rfl, -⟩ <;> rfl
  rw [verdict_of_known known, bound]
  cases calls <;> dsimp only <;> rw [supplied]

/-- A use site that is decided to call an overload selects it from the overloads of its name. -/
theorem calls_of_verdict {c : Callable} {receiver : Option String} {selected : Signature c}
    (decided : verdict scope stack site parens free = .signature receiver selected) :
    ∃ binding overloads resolve, lookup scope stack site = .ok binding ∧
      binding.Calls receiver overloads resolve ∧
        resolve (suppliedTo site parens free) site.span = .ok selected := by
  have called {c' : Callable} {binding : Binding} {receiver' : Option String}
      {overloads : OverloadSet (Signature c')}
      {resolve : Node → Span → Except Diagnostic (Signature c')}
      (bound : lookup scope stack site = .ok binding)
      (calls : binding.Calls receiver' overloads resolve)
      (decided : Verdict.ofSelection receiver' (resolve (suppliedTo site parens free) site.span) =
        .signature receiver selected) :
      ∃ binding overloads resolve, lookup scope stack site = .ok binding ∧
        binding.Calls receiver overloads resolve ∧
          resolve (suppliedTo site parens free) site.span = .ok selected := by
    cases selects : resolve (suppliedTo site parens free) site.span with
    | error error =>
        rw [selects] at decided
        cases decided
    | ok chosen =>
        rw [selects] at decided
        cases decided
        exact ⟨_, _, _, bound, calls, selects⟩
  by_cases known : Known parens
  · rw [verdict_of_known known] at decided
    split at decided
    case h_1 | h_2 | h_3 => cases decided
    case h_4 overloads bound => exact called bound (.function overloads) decided
    case h_5 method bound => exact called bound (.method method) decided
  · rw [verdict_of_unknown known] at decided
    cases decided

end Verdict

/-- A use site gets the meaning that was decided; the declaration that it stands for is resolved,
unless it is in progress. -/
inductive Input.Acts (input : Input) (stack : Stack) (s : State) (site : Reference)
    (parens : Option Node) : Verdict → Option Meaning → State → Prop
  | skipped : Acts input stack s site parens .skipped none s
  | failed {error s'} (errors : s'.errors = s.errors ++ [error]) :
      Acts input stack s site parens (.failed error) none s'
  | param {param s'} :
      Acts input stack s site parens (.param param) (some (param.ty, .param param)) s'
  | dim {dim resolved s₁ s'}
      (starts : input.Starts ⟨stack, s, .meaning site parens (some (.int, .dim resolved)), s'⟩ 0
        ⟨stack, s, .dim dim resolved, s₁⟩) :
      Acts input stack s site parens (.dim dim) (some (.int, .dim resolved)) s'
  | recursive {c : Callable} {receiver s'} {selected : Signature c}
      (resolving : stack.Resolving selected.id) :
      Acts input stack s site parens (.signature receiver selected)
        (some (.unknown, .signature selected)) s'
  | entered {c : Callable} {receiver s₁ s₂ s'} {selected resolved : Signature c}
      (starts : input.Starts
        ⟨stack, s, .meaning site parens (some (resolved.body.ty, .signature resolved)), s'⟩ 0
        ⟨stack, s₁, .signature receiver selected resolved, s₂⟩) :
      Acts input stack s site parens (.signature receiver selected)
        (some (resolved.body.ty, .signature resolved)) s'

section Runs

variable {input : Input}

theorem Run.acts {stack : Stack} {s s' : State} {site : Reference} {parens : Option Node}
    {meaning : Option Meaning} (run : Run input stack s (.meaning site parens meaning) s') :
    input.Acts stack s site parens (verdict input.scope stack site parens s.next) meaning s' := by
  cases run with
  | skipped _ unknown =>
      rw [verdict_of_unknown unknown]
      exact .skipped
  | unbound _ known failed =>
      rw [verdict_of_error known failed]
      exact .failed rfl
  | paramMeant _ known bound =>
      rw [verdict_of_param known bound]
      exact .param
  | dimMeant _ known bound run =>
      rw [verdict_of_dim known bound]
      exact .dim (.target known bound run rfl rfl)
  | refused _ known bound calls applied failed =>
      rw [verdict_of_calls known bound calls applied, failed]
      exact .failed (congrArg (· ++ [_]) (allots_of_argumentsOf applied).errors_eq)
  | recursive _ known bound calls applied selects resolving =>
      rw [verdict_of_calls known bound calls applied, selects]
      exact .recursive resolving
  | entered _ known bound calls applied selects idle run =>
      rw [verdict_of_calls known bound calls applied, selects]
      exact .entered (.entered known bound calls applied selects idle run rfl rfl)

/-- A call leads back to a declaration that is in progress. -/
inductive Call.Reenters (scope : Scope) : Call → Prop
  | dim {stack : Stack} {s s' declared returned} : stack.Resolving declared.id →
      Reenters scope ⟨stack, s, .dim declared returned, s'⟩
  | signature {stack : Stack} {s s' receiver} {c : Callable} {declared returned : Signature c} :
      stack.Resolving declared.id →
        Reenters scope ⟨stack, s, .signature receiver declared returned, s'⟩
  | use {stack : Stack} {s s' site parens meaning receiver} {c : Callable}
      {selected : Signature c} :
      verdict scope stack site parens s.next = .signature receiver selected →
        stack.Resolving selected.id → Reenters scope ⟨stack, s, .meaning site parens meaning, s'⟩

/-- The resolution reaches a declaration that is in progress. -/
def Input.Recursive (input : Input) : Prop :=
  ∃ call, input.Makes call ∧ call.Reenters input.scope

/-- Without recursion, a dim that was resolved is remembered. -/
theorem Input.Makes.find?_dims {stack : Stack} {s s' : State} {declared resolved : Dim}
    (made : input.Makes ⟨stack, s, .dim declared resolved, s'⟩) (apart : ¬ input.Recursive) :
    s'.dims.find? declared.id = some resolved :=
  made.run.find?_dims fun resolving => apart ⟨_, made, .dim resolving⟩

/-- Without recursion, a signature that was resolved is remembered. -/
theorem Input.Makes.signature?_eq {stack : Stack} {s s' : State} {c : Callable}
    {receiver : Option String} {declared resolved : Signature c}
    (made : input.Makes ⟨stack, s, .signature receiver declared resolved, s'⟩)
    (apart : ¬ input.Recursive) : s'.signature? c declared.id = some resolved :=
  Run.signature?_eq made.run fun resolving => apart ⟨_, made, .signature resolving⟩

/-! ## Ranked declarations -/

/-- A rank of identities goes down from a declaration to its contents, and does not go up from there
to what stands in the contents and to what the use sites in them may stand for. -/
structure Input.Ranks (input : Input) (rank : NodeId → Nat) : Prop where
  locals : ∀ {node child : Node}, node ∈ input.graph → child ∈ node.locals →
    rank child.id ≤ rank node.id
  contents : ∀ {node contents : Node}, node ∈ input.graph → node.contents? = some contents →
    rank contents.id < rank node.id
  dim : ∀ {site : Reference} {dim : Dim}, .reference site ∈ input.graph →
    input.scope.dim? site.name = some dim → rank dim.id ≤ rank site.id
  function : ∀ {site : Reference} {overloads : OverloadSet (Signature .function)},
    .reference site ∈ input.graph → input.scope.function? site.name = some overloads →
      ∀ candidate ∈ overloads.candidates, rank candidate.id ≤ rank site.id
  method : ∀ {site : Reference} {receiver : String} {method : MethodSet},
    .reference site ∈ input.graph → input.scope.method? receiver site.name = some method →
      ∀ candidate ∈ method.overloads.candidates, rank candidate.id ≤ rank site.id

/-- A job is about what has a lower rank than the declarations in progress. -/
def Job.Ranked (rank : NodeId → Nat) (stack : Stack) : Job → Prop
  | node given _ => ∀ id, stack.Resolving id → rank given.id < rank id
  | items given _ => ∀ item ∈ given, ∀ id, stack.Resolving id → rank item.id < rank id
  | child given _ => ∀ child ∈ given, ∀ id, stack.Resolving id → rank child.id < rank id
  | dim given _ => ∀ id, stack.Resolving id → rank given.id < rank id
  | signature _ given _ => ∀ id, stack.Resolving id → rank given.id < rank id
  | meaning site _ _ => ∀ id, stack.Resolving id → rank site.id < rank id

namespace Input.Ranks

variable {rank : NodeId → Nat} {call inner : Call} {index : Nat}

/-- What a use site stands for is not above the use site. -/
theorem selected {stack : Stack} {site : Reference} {binding : Binding} {c : Callable}
    {receiver : Option String} {overloads : OverloadSet (Signature c)}
    {resolve : Node → Span → Except Diagnostic (Signature c)} {arguments : Node}
    {selected : Signature c} (ranks : input.Ranks rank) (inside : .reference site ∈ input.graph)
    (bound : lookup input.scope stack site = .ok binding)
    (calls : binding.Calls receiver overloads resolve)
    (selects : resolve arguments site.span = .ok selected) : rank selected.id ≤ rank site.id := by
  have chosen := calls.resolve_eq_ok_iff_choose.mp selects
  have member := (OverloadSet.mem_of_choose_eq_unique chosen).1
  have found := found_of_lookup bound
  cases calls with
  | function =>
      cases found with
      | function _ found => exact ranks.function inside found _ member
  | method =>
      cases found with
      | method _ found => exact ranks.method inside found _ member

theorem starts (ranks : input.Ranks rank) (job : call.job.In input.graph)
    (ranked : call.job.Ranked rank call.stack) (starts : input.Starts call index inner) :
    inner.job.Ranked rank inner.stack := by
  cases starts with
  | list | block =>
      exact fun item member id resolving =>
        Nat.lt_of_le_of_lt (ranks.locals job member) (ranked id resolving)
  | dim => exact ranked
  | function | method => exact ranked
  | brackets | parens =>
      exact fun child member id resolving =>
        Nat.lt_of_le_of_lt (ranks.locals job (by simp_all [Node.locals])) (ranked id resolving)
  | meaning => exact ranked
  | head => exact ranked _ (by simp)
  | tail => exact fun item member => ranked item (by simp [member])
  | child => exact ranked _ rfl
  | @extent stack _ _ _ _ dim =>
      have lower : rank dim.extent.id < rank dim.id := ranks.contents job rfl
      intro id resolving
      rcases List.mem_cons.mp resolving with rfl | resolving
      · exact lower
      · exact Nat.lt_trans lower (ranked id resolving)
  | @body stack _ _ _ _ _ _ _ signature =>
      have lower := ranks.contents job (Node.contents?_signature signature)
      rw [SignatureOf.id_node] at lower
      intro id resolving
      rcases List.mem_cons.mp resolving with rfl | resolving
      · exact lower
      · exact Nat.lt_trans lower (ranked id resolving)
  | target _ bound =>
      cases found_of_lookup bound with
      | dim _ _ found =>
          exact fun id resolving => Nat.lt_of_le_of_lt (ranks.dim job.1 found) (ranked id resolving)
  | entered _ bound calls _ selects =>
      exact fun id resolving =>
        Nat.lt_of_le_of_lt (ranks.selected job.1 bound calls selects) (ranked id resolving)

theorem makes (ranks : input.Ranks rank) (made : input.Makes call) :
    call.job.Ranked rank call.stack := by
  refine made.induct (P := fun call => call.job.Ranked rank call.stack)
    (fun {index call} opens => ?_) fun made ranked => ranks.starts made.run.allowed.job ranked
  obtain ⟨item, -, resolved, resolves⟩ := opens.resolves
  rw [opens.stack_eq]
  obtain ⟨stack, s, job, s'⟩ := call
  cases resolves with
  | dim | function | method => exact fun id resolving => absurd resolving List.not_mem_nil

/-- Ranked declarations are not recursive. -/
theorem not_recursive (ranks : input.Ranks rank) : ¬ input.Recursive := by
  rintro ⟨call, made, reenters⟩
  have ranked := ranks.makes made
  have job := made.run.allowed.job
  cases reenters with
  | dim resolving => exact Nat.lt_irrefl _ (ranked _ resolving)
  | signature resolving => exact Nat.lt_irrefl _ (ranked _ resolving)
  | use decided resolving =>
      obtain ⟨binding, overloads, resolve, bound, calls, selects⟩ := calls_of_verdict decided
      have lower := ranks.selected job.1 bound calls selects
      exact Nat.lt_irrefl _ (Nat.lt_of_le_of_lt lower (ranked _ resolving))

end Input.Ranks

end Runs

end ModelLang.Resolution
