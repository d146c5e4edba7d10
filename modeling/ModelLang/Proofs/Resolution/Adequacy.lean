import ModelLang.Proofs.Resolution.Run

/-!
# The walk is a run

A walk through enough levels of declarations is a run.  The declarations in progress are different
declarations of one graph, so fewer than `next` of them can be open at a time, and a walk through
`next` levels never gets to its last one.
-/

namespace ModelLang.Resolution

section Steps

variable {α β : Type} {s s' : State} {result : β}

theorem bind_eq_iff {x : ResolveM α} {f : α → ResolveM β} :
    (x >>= f) s = (result, s') ↔ ∃ a s₁, x s = (a, s₁) ∧ f a s₁ = (result, s') := by
  constructor
  · intro h
    exact ⟨_, _, rfl, h⟩
  · rintro ⟨a, s₁, hx, hf⟩
    change f (x s).1 (x s).2 = _
    rw [hx]
    exact hf

theorem map_eq_iff {x : ResolveM α} {f : α → β} :
    (f <$> x) s = (result, s') ↔ ∃ a, x s = (a, s') ∧ f a = result := by
  constructor
  · intro h
    cases h
    exact ⟨_, rfl, rfl⟩
  · rintro ⟨a, hx, rfl⟩
    change (f (x s).1, (x s).2) = _
    rw [hx]

theorem pure_eq_iff {b : β} : (pure b : ResolveM β) s = (result, s') ↔ b = result ∧ s = s' :=
  Prod.ext_iff

theorem get_eq_iff {read : State} : (get : ResolveM State) s = (read, s') ↔ s = read ∧ s = s' :=
  Prod.ext_iff

theorem modify_eq_iff {f : State → State} {done : PUnit} :
    (modify f : ResolveM PUnit) s = (done, s') ↔ f s = s' := by
  constructor
  · intro h
    exact congrArg Prod.snd h
  · rintro rfl
    rfl

end Steps

variable {input : Input} {walk : Walk} {stack : Stack} {s s' : State}

/-- The walk is a run wherever `levels` declarations are in progress. -/
def Runs (input : Input) (walk : Walk) (levels : Nat) : Prop :=
  ∀ {stack : Stack} {node returned : Node} {s s' : State}, stack.length = levels →
    stack.Of input.graph → node ∈ input.graph → walk stack node s = (returned, s') →
      Run input stack s (.node node returned) s'

section Declarations

variable (runs : Runs input walk (stack.length + 1)) (proper : stack.Of input.graph)

include runs proper

theorem run_of_resolveDim {dim resolved : Dim} (inside : .dim dim ∈ input.graph)
    (h : resolveDim walk stack dim s = (resolved, s')) :
    Run input stack s (.dim dim resolved) s' := by
  simp only [resolveDim, bind_eq_iff, get_eq_iff] at h
  obtain ⟨_, _, ⟨rfl, rfl⟩, h⟩ := h
  cases found : s.dims.find? dim.id with
  | some remembered =>
      rw [found] at h
      obtain ⟨rfl, rfl⟩ := pure_eq_iff.mp h
      exact .dimRemembered ⟨proper, inside⟩ found
  | none =>
      rw [found] at h
      by_cases resolving : stack.Resolving dim.id
      · rw [if_pos resolving] at h
        obtain ⟨rfl, rfl⟩ := pure_eq_iff.mp h
        exact .dimInProgress ⟨proper, inside⟩ found resolving
      · rw [if_neg resolving] at h
        simp only [bind_eq_iff, modify_eq_iff, pure_eq_iff] at h
        obtain ⟨extent, s₁, walked, _, s₂, rebuilt, _, _, rfl, rfl, rfl⟩ := h
        have pushed := proper.push (.dim dim) inside resolving
        have extentInside : dim.extent ∈ input.graph :=
          input.graph.mem_child inside (Node.mem_children_of_contents? rfl)
        exact .dimFresh ⟨proper, inside⟩ found resolving
          (runs rfl pushed extentInside walked) rebuilt

theorem run_of_resolveSignature {c : Callable} {receiver : Option String}
    {signature resolved : Signature c} (inside : signature.node ∈ input.graph)
    (h : resolveSignature walk stack receiver signature s = (resolved, s')) :
    Run input stack s (.signature receiver signature resolved) s' := by
  simp only [resolveSignature, bind_eq_iff, get_eq_iff] at h
  obtain ⟨_, _, ⟨rfl, rfl⟩, h⟩ := h
  cases found : s.signature? c signature.id with
  | some remembered =>
      rw [found] at h
      obtain ⟨rfl, rfl⟩ := pure_eq_iff.mp h
      exact .signatureRemembered ⟨proper, inside⟩ found
  | none =>
      rw [found] at h
      by_cases resolving : stack.Resolving signature.id
      · rw [if_pos resolving] at h
        obtain ⟨rfl, rfl⟩ := pure_eq_iff.mp h
        exact .signatureInProgress ⟨proper, inside⟩ found resolving
      · rw [if_neg resolving] at h
        simp only [bind_eq_iff, modify_eq_iff, pure_eq_iff] at h
        obtain ⟨body, s₁, walked, _, s₂, rebuilt, _, _, rfl, rfl, rfl⟩ := h
        have pushed := proper.push (.signature signature receiver) inside resolving
        have bodyInside : signature.body ∈ input.graph :=
          input.graph.mem_child inside
            (Node.mem_children_of_contents? (Node.contents?_signature signature))
        exact .signatureFresh ⟨proper, inside⟩ found resolving
          (runs rfl pushed bodyInside walked) rebuilt

end Declarations

/-- Once a use site is given the outcome of its lookup, it has its meaning. -/
def Concludes (input : Input) (stack : Stack) (s : State) (site : Reference)
    (parens : Option Node) (s' : State) : Except Diagnostic Meaning → Prop
  | .ok (ty, target) =>
      Run input stack s (.meaning site parens (some (ty, target)))
        (s'.withEvent (.resolved site target ty))
  | .error error => Run input stack s (.meaning site parens none) (s'.withError error)

section Meaning

variable (runs : Runs input walk (stack.length + 1)) {site : Reference} {parens : Option Node}
  (allowed : ∀ meaning, input.Allows stack (.meaning site parens meaning)) (known : Known parens)

include runs allowed known

theorem concludes_of_call {binding : Binding} {c : Callable} {receiver : Option String}
    {overloads : OverloadSet (Signature c)}
    {resolve : Node → Span → Except Diagnostic (Signature c)}
    {outcome : Except Diagnostic Meaning} (bound : lookup input.scope stack site = .ok binding)
    (calls : binding.Calls receiver overloads resolve)
    (h : call walk stack site parens receiver overloads resolve s = (outcome, s')) :
    Concludes input stack s site parens s' outcome := by
  simp only [call, record, bind_eq_iff, modify_eq_iff] at h
  obtain ⟨arguments, s₁, applied, -, _, rfl, h⟩ := h
  cases selects : resolve arguments site.span with
  | error error =>
      rw [selects] at h
      obtain ⟨rfl, rfl⟩ := pure_eq_iff.mp h
      exact .refused (allowed _) known bound calls applied selects
  | ok selected =>
      rw [selects] at h
      simp only [enter, bind_eq_iff, pure_eq_iff] at h
      obtain ⟨meaning, _, entered, rfl, rfl⟩ := h
      by_cases resolving : stack.Resolving selected.id
      · rw [if_pos resolving] at entered
        obtain ⟨rfl, rfl⟩ := pure_eq_iff.mp entered
        exact .recursive (allowed _) known bound calls applied selects resolving
      · rw [if_neg resolving] at entered
        simp only [bind_eq_iff, pure_eq_iff] at entered
        obtain ⟨resolved, _, walked, rfl, rfl⟩ := entered
        have inside := input.mem_of_resolve bound calls selects
        have run := run_of_resolveSignature runs (allowed none).stack inside walked
        exact .entered (allowed _) known bound calls applied selects resolving run

theorem concludes_of_interpret {binding : Binding} {outcome : Except Diagnostic Meaning}
    (bound : lookup input.scope stack site = .ok binding)
    (h : interpret walk stack site parens binding s = (outcome, s')) :
    Concludes input stack s site parens s' outcome := by
  cases binding with
  | param param =>
      obtain ⟨rfl, rfl⟩ := pure_eq_iff.mp h
      exact .paramMeant (allowed _) known bound
  | dim dim =>
      simp only [interpret, bind_eq_iff, pure_eq_iff] at h
      obtain ⟨resolved, _, walked, rfl, rfl⟩ := h
      have inside : .dim dim ∈ input.graph := by
        cases found_of_lookup bound with
        | dim _ _ found => exact (input.declares.within.dim found).1
      exact .dimMeant (allowed _) known bound
        (run_of_resolveDim runs (allowed none).stack inside walked)
  | function overloads =>
      exact concludes_of_call runs allowed known bound (.function overloads) h
  | method method => exact concludes_of_call runs allowed known bound (.method method) h

omit known in
theorem run_of_findMeaning {meaning : Option Meaning}
    (h : findMeaning input.scope walk stack site parens s = (meaning, s')) :
    Run input stack s (.meaning site parens meaning) s' := by
  unfold findMeaning at h
  split at h
  case isTrue unknown =>
    obtain ⟨rfl, rfl⟩ := pure_eq_iff.mp h
    exact .skipped (allowed _) (by simpa [Known] using unknown)
  case isFalse known =>
    replace known : Known parens := by simpa [Known] using known
    cases bound : lookup input.scope stack site with
    | error error =>
        rw [bound] at h
        simp only [report, bind_eq_iff, pure_eq_iff] at h
        obtain ⟨_, _, ⟨rfl, rfl⟩, -, _, rfl, rfl, rfl⟩ := h
        exact .unbound (allowed _) known bound
    | ok binding =>
        rw [bound] at h
        obtain ⟨outcome, s₁, found, h⟩ := bind_eq_iff.mp h
        have concludes := concludes_of_interpret runs allowed known bound found
        cases outcome with
        | ok meaning =>
            simp only [record, bind_eq_iff, modify_eq_iff, pure_eq_iff] at h
            obtain ⟨-, _, rfl, rfl, rfl⟩ := h
            exact concludes
        | error error =>
            simp only [report, bind_eq_iff, modify_eq_iff, pure_eq_iff] at h
            obtain ⟨-, _, rfl, rfl, rfl⟩ := h
            exact concludes

end Meaning

section Nodes

variable {visit : Node → ResolveM Node}

/-- A visit of a node is a run. -/
def RunsAt (input : Input) (stack : Stack) (visit : Node → ResolveM Node) (node : Node) : Prop :=
  ∀ {returned : Node} {s s' : State}, visit node s = (returned, s') →
    Run input stack s (.node node returned) s'

theorem run_of_runAll (proper : stack.Of input.graph) {items resolved : List Node}
    (inside : ∀ item ∈ items, item ∈ input.graph)
    (runs : ∀ item ∈ items, RunsAt input stack visit item)
    (h : Traversal.runAll (items.map fun item _ => visit item) s = (resolved, s')) :
    Run input stack s (.items items resolved) s' := by
  induction items generalizing resolved s with
  | nil =>
      obtain ⟨rfl, rfl⟩ := pure_eq_iff.mp h
      exact .nil ⟨proper, inside⟩
  | cons item items induction =>
      simp only [List.map_cons, Traversal.runAll, bind_eq_iff, pure_eq_iff] at h
      obtain ⟨returned, s₁, visited, rest, _, walked, rfl, rfl⟩ := h
      exact .cons ⟨proper, inside⟩ (runs item (by simp) visited)
        (induction (fun item member => inside item (by simp [member]))
          (fun item member => runs item (by simp [member])) walked)

theorem run_of_runChild (proper : stack.Of input.graph) {child resolved : Option Node}
    (inside : ∀ node ∈ child, node ∈ input.graph)
    (runs : ∀ node ∈ child, RunsAt input stack visit node)
    (h : Traversal.runChild (child.map fun node _ => visit node) s = (resolved, s')) :
    Run input stack s (.child child resolved) s' := by
  cases child with
  | none =>
      obtain ⟨rfl, rfl⟩ := pure_eq_iff.mp h
      exact .noChild ⟨proper, inside⟩
  | some node =>
      simp only [Option.map_some, Traversal.runChild, map_eq_iff] at h
      obtain ⟨returned, visited, rfl⟩ := h
      exact .child ⟨proper, inside⟩ (runs node rfl visited)

theorem run_of_resolveReference (runs : Runs input walk (stack.length + 1))
    (proper : stack.Of input.graph) {site resolved : Reference}
    (inside : .reference site ∈ input.graph)
    (children : ∀ child ∈ (Node.reference site).children, RunsAt input stack visit child)
    (h : resolveReference input.scope walk stack site
      (site.brackets.map fun child _ => visit child) (site.parens.map fun child _ => visit child)
      s = (resolved, s')) :
    Run input stack s (.node (.reference site) (.reference resolved)) s' := by
  simp only [resolveReference, bind_eq_iff, get_eq_iff] at h
  obtain ⟨_, _, ⟨rfl, rfl⟩, h⟩ := h
  cases found : s.uses.find? (site.id, stack.owner?) with
  | some remembered =>
      rw [found] at h
      obtain ⟨rfl, rfl⟩ := pure_eq_iff.mp h
      exact .remembered ⟨proper, inside⟩ found
  | none =>
      rw [found] at h
      simp only [bind_eq_iff, modify_eq_iff, pure_eq_iff] at h
      obtain ⟨brackets, s₁, visitedBrackets, parens, s₂, visitedParens, meaning, s₃, meant, _, s₄,
        rebuilt, _, _, rfl, rfl, rfl⟩ := h
      have bracketsBelow : ∀ child ∈ site.brackets, child ∈ (Node.reference site).children := by
        intro child member
        simp [Node.children, Option.mem_def.mp member]
      have parensBelow : ∀ child ∈ site.parens, child ∈ (Node.reference site).children := by
        intro child member
        simp [Node.children, Option.mem_def.mp member]
      have bracketsRun := run_of_runChild proper
        (fun child member => input.graph.mem_child inside (bracketsBelow child member))
        (fun child member => children child (bracketsBelow child member)) visitedBrackets
      have parensRun := run_of_runChild proper
        (fun child member => input.graph.mem_child inside (parensBelow child member))
        (fun child member => children child (parensBelow child member)) visitedParens
      have allowed meaning : input.Allows stack (.meaning site parens meaning) :=
        ⟨proper, inside, parensRun.isSome_child⟩
      exact .reference ⟨proper, inside⟩ found bracketsRun parensRun
        (run_of_findMeaning runs allowed meant) rebuilt

theorem run_of_resolveSequence (proper : stack.Of input.graph) {node resolved : Sequence}
    (inside : ∀ item ∈ node.items, item ∈ input.graph)
    (items : ∀ item ∈ node.items, RunsAt input stack visit item)
    (h : resolveSequence node (node.items.map fun item _ => visit item) s = (resolved, s')) :
    ∃ items s₁, Run input stack s (.items node.items items) s₁ ∧
      rebuildSequence node items s₁ = (resolved, s') := by
  obtain ⟨returned, s₁, walked, rebuilt⟩ := bind_eq_iff.mp h
  exact ⟨returned, s₁, run_of_runAll proper inside items walked, rebuilt⟩

/-- A walk is a run, if the walk that it gives the contents of declarations to is one. -/
theorem runsAt_resolving (runs : Runs input walk (stack.length + 1)) (proper : stack.Of input.graph)
    {node : Node} (inside : node ∈ input.graph) :
    RunsAt input stack (resolving input.scope walk stack).visit node := by
  induction node using Node.induct with
  | step node children =>
      intro returned s s' h
      have below : ∀ child ∈ node.children, child ∈ input.graph :=
        fun child member => input.graph.mem_child inside member
      replace children : ∀ child ∈ node.children,
          RunsAt input stack (resolving input.scope walk stack).visit child :=
        fun child member => children child member (below child member)
      cases node with
      | literal node =>
          obtain ⟨rfl, rfl⟩ := pure_eq_iff.mp h
          exact .literal ⟨proper, inside⟩
      | typeRef node =>
          obtain ⟨rfl, rfl⟩ := pure_eq_iff.mp h
          exact .typeRef ⟨proper, inside⟩
      | param node =>
          obtain ⟨rfl, rfl⟩ := pure_eq_iff.mp h
          exact .param ⟨proper, inside⟩
      | reference site =>
          rw [Traversal.visit_reference] at h
          obtain ⟨resolved, resolves, rfl⟩ := map_eq_iff.mp h
          exact run_of_resolveReference runs proper inside children resolves
      | list node =>
          rw [Traversal.visit_list] at h
          obtain ⟨resolved, resolves, rfl⟩ := map_eq_iff.mp h
          obtain ⟨items, s₁, run, rebuilt⟩ :=
            run_of_resolveSequence proper below children resolves
          exact .list ⟨proper, inside⟩ run rebuilt
      | block node =>
          rw [Traversal.visit_block] at h
          obtain ⟨resolved, resolves, rfl⟩ := map_eq_iff.mp h
          obtain ⟨items, s₁, run, rebuilt⟩ :=
            run_of_resolveSequence proper below children resolves
          exact .block ⟨proper, inside⟩ run rebuilt
      | dim node =>
          obtain ⟨resolved, resolves, rfl⟩ := map_eq_iff.mp h
          exact .dim ⟨proper, inside⟩ (run_of_resolveDim runs proper inside resolves)
      | function node =>
          obtain ⟨resolved, resolves, rfl⟩ := map_eq_iff.mp h
          exact .function ⟨proper, inside⟩ (run_of_resolveSignature runs proper inside resolves)
      | method node =>
          obtain ⟨resolved, resolves, rfl⟩ := map_eq_iff.mp h
          exact .method ⟨proper, inside⟩ (run_of_resolveSignature runs proper inside resolves)

end Nodes

/-- The walk through enough levels is a run.  A stack of more than `next` declarations is not
possible, so the case without levels does not arise. -/
theorem runs_visit {depth levels : Nat} (enough : input.next < depth + levels) :
    Runs input (visit input.scope depth) levels := by
  induction depth generalizing levels with
  | zero =>
      intro stack node returned s s' length proper inside h
      have bound := proper.length_le input.below
      rw [length] at bound
      rw [Nat.zero_add] at enough
      exact absurd enough (Nat.not_lt.mpr bound)
  | succ depth induction =>
      intro stack node returned s s' length proper inside h
      have runs : Runs input (visit input.scope depth) (stack.length + 1) :=
        induction (by rwa [length, ← Nat.add_assoc, ← Nat.add_right_comm])
      exact runsAt_resolving runs proper inside h

theorem itemRun_of_resolveItem (runs : Runs input walk 1) {item resolved : Item}
    (inside : item.node ∈ input.graph) (h : resolveItem walk item s = (resolved, s')) :
    ItemRun input s item resolved s' := by
  cases item with
  | dim declared =>
      obtain ⟨returned, resolves, rfl⟩ := map_eq_iff.mp h
      exact .dim (run_of_resolveDim runs .nil inside resolves)
  | function declared =>
      obtain ⟨returned, resolves, rfl⟩ := map_eq_iff.mp h
      exact .function (run_of_resolveSignature runs .nil inside resolves)
  | method receiver declared =>
      obtain ⟨returned, resolves, rfl⟩ := map_eq_iff.mp h
      exact .method (run_of_resolveSignature runs .nil inside resolves)

theorem itemsRun_of_resolveItems (runs : Runs input walk 1) {items resolved : List Item}
    (inside : ∀ item ∈ items, item.node ∈ input.graph)
    (h : resolveItems walk items s = (resolved, s')) : ItemsRun input s items resolved s' := by
  induction items generalizing resolved s with
  | nil =>
      obtain ⟨rfl, rfl⟩ := pure_eq_iff.mp h
      exact .nil
  | cons item items induction =>
      simp only [resolveItems, bind_eq_iff, pure_eq_iff] at h
      obtain ⟨first, s₁, resolves, rest, _, walked, rfl, rfl⟩ := h
      exact .cons (itemRun_of_resolveItem runs (inside item (by simp)) resolves)
        (induction (fun item member => inside item (by simp [member])) walked)

/-- Resolving the items of an input is a run. -/
theorem Input.itemsRun (input : Input) :
    ItemsRun input input.initial input.items input.resolved.items input.final :=
  itemsRun_of_resolveItems (runs_visit (Nat.lt_succ_self input.next)) input.listed rfl

end ModelLang.Resolution
