import ModelLang.Proofs.Resolution.Evaluation
import ModelLang.Proofs.Resolution.Relocation

/-!
# Calls without parentheses

A name without parentheses is a call with no arguments, unless it stands for a parameter or a dim.
Where it does not, it is resolved like the name with empty parentheses: both names are bound alike,
the list that is made for the bare name selects the same overload as the written one, and the rest
of the call goes the same way from the identity after that of the new list.
-/

namespace ModelLang

/-- A list without items compares with the nodes of a graph as such, whatever its identity is. -/
theorem Node.compare_emptyList {id : NodeId} {place : Span} {b : Node}
    (same : b.id = id → b = .list ⟨id, [], place⟩) :
    (Node.list ⟨id, [], place⟩).compare b =
      (Outline.product .list []).compareWith compare b.outline := by
  by_cases h : b.id = id
  · rw [same h, compare_self]
    rfl
  · exact compare_of_ne (Ne.symm h)

namespace Resolution

/-- Two use sites differ only in their identities and in how a call without arguments is written:
one has no parentheses, and the other one has empty ones. -/
structure NullaryPair (bare written : Reference) : Prop where
  receiver : written.receiver = bare.receiver
  name : written.name = bare.name
  brackets : written.brackets = bare.brackets
  noParens : bare.parens = none
  emptyParens : ∃ list place, written.parens = some (.list ⟨list, [], place⟩)
  ty : written.ty = bare.ty
  target : written.target = bare.target
  span : written.span = bare.span

/-- A name without parentheses stands for a call: it is qualified, or it is no parameter, and it is
a method of the visible receiver or no dim. -/
def CallsBare (scope : Scope) (stack : Stack) (site : Reference) : Prop :=
  site.receiver.isSome ∨ stack.param? site.name = none ∧
    ((stack.receiver?.bind (scope.method? · site.name)).isSome ∨ scope.dim? site.name = none)

section Visits

variable {input : Input} {stack : Stack} {bare written : Reference} {s s' t t' : State}

/-- A name that stands for a call is bound like the call. -/
theorem NullaryPair.lookup_eq {scope : Scope} (pair : NullaryPair bare written)
    (calls : CallsBare scope stack bare) :
    lookup scope stack bare = lookup scope stack written := by
  obtain ⟨list, place, hasParens⟩ := pair.emptyParens
  have isBare : bare.isCall = false := by simp [ReferenceOf.isCall, pair.noParens]
  have isCall : written.isCall = true := by simp [ReferenceOf.isCall, hasParens]
  rw [lookup, lookup, pair.receiver, pair.name, pair.span, isBare, isCall]
  cases qualified : bare.receiver with
  | some receiver => rfl
  | none =>
      obtain ⟨noParam, methodOrNoDim⟩ : stack.param? bare.name = none ∧ _ :=
        calls.resolve_left (by simp [qualified])
      have here :
          lookupHere? scope stack bare.name false = lookupHere? scope stack bare.name true := by
        rcases methodOrNoDim with isMethod | noDim
        · obtain ⟨method, found⟩ := Option.isSome_iff_exists.mp isMethod
          simp [lookupHere?, noParam, found]
        · simp [lookupHere?, noParam, noDim]
      simp only [here]

/-- The empty parentheses are a list of the graph. -/
theorem NullaryPair.exists_list (pair : NullaryPair bare written)
    (inside : .reference written ∈ input.graph) : ∃ list place,
      written.parens = some (.list ⟨list, [], place⟩) ∧ .list ⟨list, [], place⟩ ∈ input.graph := by
  obtain ⟨list, place, hasParens⟩ := pair.emptyParens
  exact ⟨list, place, hasParens,
    input.graph.mem_child inside (by simp [Node.children, hasParens])⟩

/-- Empty parentheses are returned as they are, and nothing happens on the way. -/
theorem NullaryPair.parensRun (pair : NullaryPair bare written) (proper : stack.Of input.graph)
    (inside : .reference written ∈ input.graph) :
    Run input stack s (.child written.parens written.parens) s := by
  obtain ⟨list, place, hasParens, listInside⟩ := pair.exists_list inside
  rw [hasParens]
  exact .child ⟨proper, by simpa [Job.In] using listInside⟩
    (.list ⟨proper, listInside⟩ (.nil ⟨proper, by simp [Job.In]⟩) rfl)

/-- The list that is made for a bare name selects like a written list without items. -/
theorem Binding.Calls.resolve_emptyList {site : Reference} {binding : Binding} {c : Callable}
    {receiver : Option String} {overloads : OverloadSet (Signature c)}
    {resolve : Node → Span → Except Diagnostic (Signature c)} {fresh list : NodeId}
    {freshPlace place : Span} (calls : binding.Calls receiver overloads resolve)
    (found : Found input.scope stack site binding) (new : input.next ≤ fresh)
    (inside : .list ⟨list, [], place⟩ ∈ input.graph) (reported : Span) :
    resolve (.list ⟨fresh, [], freshPlace⟩) reported =
      resolve (.list ⟨list, [], place⟩) reported := by
  have files := calls.files found input.declares.within
  have compare_eq : ∀ params ∈ input.graph,
      (Node.list ⟨fresh, [], freshPlace⟩).compare params =
        (Node.list ⟨list, [], place⟩).compare params := by
    intro params below
    have isNew : params.id ≠ fresh := (Nat.lt_of_lt_of_le (input.below below) new).ne
    have isWritten (same : params.id = list) : params = .list ⟨list, [], place⟩ :=
      input.graph.eq_of_id below inside same
    rw [Node.compare_emptyList isWritten, Node.compare_emptyList fun same => absurd same isNew]
  have text_eq : (Node.list ⟨fresh, [], freshPlace⟩).text = (Node.list ⟨list, [], place⟩).text :=
    rfl
  cases calls with
  | function | method =>
      exact OverloadSet.resolveAs_eq_of_compare
        (fun candidate member => (files.mem candidate member).1) text_eq compare_eq _ reported

/-- Empty parentheses mean what no parentheses mean. -/
theorem NullaryPair.meaning (pair : NullaryPair bare written)
    (calls : CallsBare input.scope stack bare) (inside : .reference written ∈ input.graph)
    (new : input.next ≤ s.next) {meaning : Option Meaning}
    (run : Run input stack s (.meaning bare none meaning) s') :
    ∃ meaning' t', Run input stack s (.meaning written written.parens meaning') t' ∧
      meaning.map (Meaning.rename input.blur) = meaning'.map (Meaning.rename input.blur) ∧
      input.SameState s' t' := by
  have boundAlike := pair.lookup_eq calls
  obtain ⟨list, place, hasParens, listInside⟩ := pair.exists_list inside
  have known' : Known written.parens := by rw [hasParens]; rfl
  have allowed (meaning' : Option Meaning) :
      input.Allows stack (.meaning written written.parens meaning') :=
    ⟨run.allowed.stack, inside, rfl⟩
  have applied' : argumentsOf written written.parens s = (.list ⟨list, [], place⟩, s) := by
    rw [hasParens]
    rfl
  have same : input.SameState s s := ⟨new, new, fun _ => rfl, fun _ _ => rfl, fun _ => rfl, rfl⟩
  have advanced : input.SameState s.advance s := same.of_allots (.inr rfl) (.inl rfl)
  -- The written call is no parameter and no dim, so the bare name is bound to neither.  A call of
  -- the bare name starts one identity later than the written one, and is followed from there.
  cases run with
  | skipped _ unknown => exact absurd rfl unknown
  | unbound _ _ failed =>
      exact ⟨none, _, .unbound (allowed _) known' (boundAlike ▸ failed), rfl, same.withError _⟩
  | paramMeant _ _ bound =>
      rw [boundAlike] at bound
      cases found_of_lookup bound with
      | param _ noCall => simp [hasParens] at noCall
  | dimMeant _ _ bound =>
      rw [boundAlike] at bound
      cases found_of_lookup bound with
      | dim _ noCall => simp [hasParens] at noCall
  | refused _ _ bound called applied failed =>
      cases applied
      rw [called.resolve_emptyList (found_of_lookup bound) new listInside, ← pair.span] at failed
      exact ⟨none, _, .refused (allowed _) known' (boundAlike ▸ bound) called applied' failed, rfl,
        (advanced.withEvent _ _).withError _⟩
  | recursive _ _ bound called applied selects resolving =>
      cases applied
      rw [called.resolve_emptyList (found_of_lookup bound) new listInside, ← pair.span] at selects
      exact ⟨_, _, .recursive (allowed _) known' (boundAlike ▸ bound) called applied' selects
        resolving, rfl, (advanced.withEvent _ _).withEvent _ _⟩
  | entered _ _ bound called applied selects idle run =>
      cases applied
      rw [called.resolve_emptyList (found_of_lookup bound) new listInside, ← pair.span] at selects
      obtain ⟨resolved, t₁, run', alike, same⟩ :=
        run.follows (Nat.le_refl input.next) (advanced.withEvent _ _)
      exact ⟨_, _, .entered (allowed _) known' (boundAlike ▸ bound) called applied' selects idle
        run', congrArg some (rename_meaning_congr alike), same.withEvent _ _⟩

/-- With one meaning, the two use sites are returned with one type and one target. -/
theorem NullaryPair.rebuilt (pair : NullaryPair bare written) {f : NodeId → NodeId}
    {brackets : Option Node} {meaning meaning' : Option Meaning} {resolved resolved' : Reference}
    (alike : meaning.map (Meaning.rename f) = meaning'.map (Meaning.rename f))
    (rebuilt : rebuildReference bare brackets none meaning s = (resolved, s'))
    (rebuilt' : rebuildReference written brackets written.parens meaning' t = (resolved', t')) :
    resolved.ty = resolved'.ty ∧
      resolved.target.map (TargetOf.rename f) = resolved'.target.map (TargetOf.rename f) := by
  obtain ⟨isNone_eq, types, targets⟩ := meanings_congr alike
  have sameParens :
      Node.sameChild none bare.parens = Node.sameChild written.parens written.parens := by
    obtain ⟨list, place, hasParens⟩ := pair.emptyParens
    rw [pair.noParens, hasParens]
    simp [Node.sameChild, Node.same]
  unfold rebuildReference at rebuilt rebuilt'
  rw [isNone_eq, sameParens, ← pair.brackets] at rebuilt
  split at rebuilt'
  case isTrue same =>
    rw [if_pos same] at rebuilt
    cases rebuilt
    cases rebuilt'
    exact ⟨pair.ty.symm, by rw [pair.target]⟩
  case isFalse same =>
    rw [if_neg same] at rebuilt
    cases rebuilt
    cases rebuilt'
    exact ⟨congrArg (·.getD .unknown) types, targets⟩

/-- A name without parentheses that stands for a call is resolved like the call with empty ones.
Whatever the state remembers, neither of the two use sites being remembered yet, both are returned
with the same type and with the same target up to the identities of new nodes; the same errors are
found, and the same declarations are resolved, up to the identities of new nodes. -/
theorem Input.visit_nullaryCall (input : Input) {stack : Stack} (depth : Nat) (s : State)
    {bare written : Reference} (proper : stack.Of input.graph)
    (enough : input.next < depth + stack.length) (new : input.next ≤ s.next)
    (bareInside : .reference bare ∈ input.graph) (inside : .reference written ∈ input.graph)
    (pair : NullaryPair bare written) (calls : CallsBare input.scope stack bare)
    (missing : s.uses.find? (bare.id, stack.owner?) = none)
    (missing' : s.uses.find? (written.id, stack.owner?) = none) :
    ∃ resolved resolved' s' t',
      visit input.scope depth stack (.reference bare) s = (.reference resolved, s') ∧
      visit input.scope depth stack (.reference written) s = (.reference resolved', t') ∧
      resolved.ty = resolved'.ty ∧
      resolved.target.map (TargetOf.rename input.blur) =
        resolved'.target.map (TargetOf.rename input.blur) ∧
      s'.errors = t'.errors ∧
      (∀ id, (s'.dims.find? id).map (DimOf.rename input.blur) =
        (t'.dims.find? id).map (DimOf.rename input.blur)) ∧
      ∀ (c : Callable) id, (s'.signature? c id).map (SignatureOf.rename input.blur) =
        (t'.signature? c id).map (SignatureOf.rename input.blur) := by
  rcases visited : visit input.scope depth stack (.reference bare) s with ⟨returned, s'⟩
  rcases visited' : visit input.scope depth stack (.reference written) s with ⟨returned', t'⟩
  have run := runs_visit enough rfl proper bareInside visited
  have evaluated := (runs_visit enough rfl proper inside visited').evaluates
  cases run with
  | remembered _ found => simp [missing] at found
  | @reference _ _ s₁ _ _ _ _ brackets _ _ resolved _ _ bracketsRun parensRun meaningRun rebuilt =>
      rw [pair.noParens] at parensRun
      cases parensRun
      obtain ⟨meaning', s₂, meaningRun', alike, same⟩ :=
        pair.meaning calls inside (new.trans bracketsRun.grows.next) meaningRun
      rcases rebuilt' : rebuildReference written brackets written.parens meaning' s₂ with
        ⟨resolved', s₃⟩
      have bracketsRun' : Run input stack s (.child written.brackets brackets) s₁ := by
        rwa [pair.brackets]
      have run' : Run input stack s (.node (.reference written) (.reference resolved')) _ :=
        .reference ⟨proper, inside⟩ missing' bracketsRun' (pair.parensRun proper inside) meaningRun'
          rebuilt'
      obtain ⟨rfl, rfl⟩ := Prod.mk.inj (evaluated.symm.trans run'.evaluates)
      obtain ⟨types, targets⟩ := pair.rebuilt alike rebuilt rebuilt'
      have last := same.of_allots (allots_of_rebuildReference rebuilt)
        (allots_of_rebuildReference rebuilt')
      exact ⟨resolved, resolved', _, _, rfl, rfl, types, targets, last.errors, last.dims,
        by simpa using last.signatures⟩

end Visits

/-! ## A name that is a method and a dim -/

namespace MethodAndDim

def one : Node := .literal ⟨0, .int 1, {}⟩
def noParams : Node := .list ⟨1, [], {}⟩
def dim : Dim := ⟨2, "help", one, {}⟩
def help : Signature .method := ⟨4, "help", noParams, .block ⟨3, [one], {}⟩, {}⟩
def bare : Reference := ⟨5, none, "help", none, none, .unknown, none, {}⟩
def written : Reference :=
  ⟨7, none, "help", none, some (.list ⟨6, [], {}⟩), .unknown, none, {}⟩
def run : Signature .method :=
  ⟨9, "run", noParams, .block ⟨8, [.reference bare, .reference written], {}⟩, {}⟩

def nodes : List Node :=
  [one, noParams, .dim dim, help.body, .method help, .reference bare, .list ⟨6, [], {}⟩,
    .reference written, run.body, .method run]

def graph : Graph :=
  .ofList nodes (by simp [nodes, one, noParams, dim, help, bare, written, run, Node.children])
    (by decide)

theorem mem_graph {item : Item} (h : item ∈ [.dim dim, .method "A" help, .method "A" run]) :
    item.node ∈ graph := by
  change item.node ∈ nodes
  simp only [List.mem_cons, List.not_mem_nil, or_false] at h
  rcases h with rfl | rfl | rfl <;> simp [nodes, Item.node]

def owner : Receiver := ⟨"A", ⟨[("help", ⟨"A", ⟨"help", [help]⟩⟩)]⟩⟩

def scope₁ : Scope := { dims := ⟨[("help", dim)]⟩ }
def scope : Scope := { dims := ⟨[("help", dim)]⟩, receivers := ⟨[("A", owner)]⟩ }

theorem scope_declares : scope.Declares graph := by
  have first : scope₁.Declares graph := .declare .empty (mem_graph (by simp))
    (rfl : Scope.declare {} true (.dim dim) = .ok scope₁)
  exact .declare first (mem_graph (by simp))
    (rfl : Scope.declare scope₁ true (.method "A" help) = .ok scope)

def input : Input where
  graph
  scope
  items := [.method "A" run]
  next := 10
  declares := scope_declares
  listed item member := by
    rw [List.mem_singleton.mp member]
    exact mem_graph (by simp)
  below {node} inside := (by decide : ∀ node ∈ nodes, node.id < 10) node inside

/-- The body of `run` is being resolved. -/
def stack : Stack := [.body run.id (some "A") run.formals]

theorem stack_of : stack.Of graph :=
  .push .nil (.signature run (some "A"))
    (mem_graph (by simp) : (Item.method "A" run).node ∈ graph) (by simp [Stack.Resolving])

theorem pair : NullaryPair bare written :=
  ⟨rfl, rfl, rfl, rfl, ⟨6, {}, rfl⟩, rfl, rfl, rfl⟩

theorem callsBare : CallsBare scope stack bare := .inr ⟨rfl, .inl rfl⟩

end MethodAndDim

open MethodAndDim in
/-- In the receiver `A` with `method help() {1}` the names `help` and `help()` call that method,
also where there is a dim `help`. -/
theorem visit_nullaryCall_methodAndDim :
    scope.dim? bare.name = some dim ∧ ∃ resolved resolved' s' t',
      visit scope 10 stack (.reference bare) input.initial = (.reference resolved, s') ∧
      visit scope 10 stack (.reference written) input.initial = (.reference resolved', t') ∧
      resolved.ty = .int ∧ resolved'.ty = .int ∧
      resolved.target = some (.method help) ∧ resolved'.target = some (.method help) ∧
      s'.errors = t'.errors := by
  obtain ⟨resolved, resolved', s', t', visited, visited', types, -, errors, -⟩ :=
    input.visit_nullaryCall 10 input.initial stack_of (by decide) (Nat.le_refl input.next)
      (by simp [nodes] : Node.reference bare ∈ nodes)
      (by simp [nodes] : Node.reference written ∈ nodes) pair callsBare rfl rfl
  have isResolved : resolved = { bare with id := 11, ty := .int, target := some (.method help) } :=
    Node.reference.inj (congrArg Prod.fst visited).symm
  have isResolved' :
      resolved' = { written with id := 10, ty := .int, target := some (.method help) } :=
    Node.reference.inj (congrArg Prod.fst visited').symm
  have isInt : resolved.ty = .int := by rw [isResolved]
  exact ⟨rfl, resolved, resolved', s', t', visited, visited', isInt, types ▸ isInt,
    by rw [isResolved], by rw [isResolved'], errors⟩

end Resolution

end ModelLang
