import ModelLang.Proofs.Resolution.Failure
import ModelLang.Proofs.Resolution.Recursion
import ModelLang.Proofs.Resolution.Termination

/-!
# Declarations are shared

A declaration is opened once, and from then on it is in progress or remembered, never both.  What
is remembered for it stays, so all who ask for it when it is not in progress obtain one node: the
items that list it, however often they do, and the use sites that stand for it.
-/

namespace ModelLang.Resolution

/-- A lookup chooses a declaration: the dim of its name, or the overload that its arguments
select. -/
inductive Call.Chooses (scope : Scope) : Call → Node → Prop
  | dim {stack : Stack} {before after : State} {site : Reference} {parens : Option Node}
      {meaning : Option Meaning} {dim : Dim} :
      verdict scope stack site parens before.next = .dim dim →
        Chooses scope ⟨stack, before, .meaning site parens meaning, after⟩ (.dim dim)
  | signature {stack : Stack} {before after : State} {site : Reference} {parens : Option Node}
      {meaning : Option Meaning} {receiver : Option String} {c : Callable}
      {selected : Signature c} :
      verdict scope stack site parens before.next = .signature receiver selected →
        Chooses scope ⟨stack, before, .meaning site parens meaning, after⟩ selected.node

section Runs

variable {input : Input}

/-- A use site that chooses a declaration that is not in progress means what is remembered for it
at the end. -/
theorem Input.Makes.meaning_of_chooses {stack : Stack} {s s' : State} {site : Reference}
    {parens : Option Node} {meaning : Option Meaning} {declaration : Node}
    (made : input.Makes ⟨stack, s, .meaning site parens meaning, s'⟩)
    (chooses : Call.Chooses input.scope ⟨stack, s, .meaning site parens meaning, s'⟩ declaration)
    (idle : ¬ stack.Resolving declaration.id) :
    ∃ ty target, meaning = some (ty, target) ∧ input.Resolves declaration target.node := by
  have acts := made.run.acts
  cases chooses with
  | dim decided =>
      simp only [decided] at acts
      cases acts with
      | dim starts =>
          have inner := made.starts starts
          exact ⟨_, _, rfl, .dim inner.run.allowed.job
            (inner.after.grows.dims (inner.run.find?_dims idle))⟩
  | signature decided =>
      rw [SignatureOf.id_node] at idle
      simp only [decided] at acts
      cases acts with
      | recursive resolving => exact absurd resolving idle
      | entered starts =>
          have inner := made.starts starts
          refine ⟨_, _, rfl, ?_⟩
          rw [TargetOf.node_signature]
          exact .signature inner.run.allowed.job
            (inner.after.grows.signatures (Run.signature?_eq inner.run idle))

/-- A use site whose lookup chooses a declaration that is not in progress has as its target what is
remembered for the declaration at the end. -/
theorem Input.Answers.target_of_chooses {visit lookup : Call} {site found : Reference}
    {declaration : Node} (answers : input.Answers lookup visit)
    (job : visit.job = .node (.reference site) (.reference found))
    (chooses : lookup.Chooses input.scope declaration)
    (idle : ¬ lookup.stack.Resolving declaration.id) :
    ∃ target, found.target = some target ∧ input.Resolves declaration target.node := by
  obtain ⟨⟨stack, s, job', s'⟩, origin, same, -, -, starts⟩ := answers
  cases same.trans job
  have looking := origin.starts starts
  cases starts with
  | meaning visits =>
      obtain ⟨ty, target, rfl, resolves⟩ := looking.meaning_of_chooses chooses idle
      refine ⟨target, ?_, resolves⟩
      rcases rebuildReference_cases (Prod.ext visits.rebuilt rfl) with ⟨none, -⟩ | ⟨isNew, -⟩
      · cases none
      · rw [isNew]
        rfl

/-- A use site in the resolved contents of a declaration was returned by a visit. -/
theorem Input.Resolves.exists_visit {declared resolved : Node} {found : Reference}
    (resolves : input.Resolves declared resolved)
    (encloses : resolved.Encloses (.reference found)) :
    ∃ visit site, input.Makes visit ∧
      visit.job = .node (.reference site) (.reference found) := by
  obtain ⟨contents, isContents, reaches⟩ := encloses
  obtain ⟨given, isGiven⟩ : ∃ given, declared.contents? = some given := by
    cases resolves with
    | dim => exact ⟨_, rfl⟩
    | signature => exact ⟨_, Node.contents?_signature _⟩
  obtain ⟨returned, isReturned, returns⟩ := resolves.returns isGiven
  cases isContents.symm.trans isReturned
  obtain ⟨origin, -, returns⟩ := returns.of_reaches reaches
  obtain ⟨site, rfl⟩ := returns.eq_reference
  obtain ⟨visit, made, -, job, -⟩ := returns
  exact ⟨visit, site, made, job⟩

/-- Every item is returned with what is remembered for it at the end. -/
theorem Input.resolves_item {item output : Item}
    (listed : (item, output) ∈ input.items.zip input.resolved.items) :
    input.Resolves item.node output.node :=
  (List.forall₂_iff_zip.mp input.resolves_items).2 listed

/-- Every declaration is opened once and shared.  At all moments of a pass there is one mark for
each frame, no declaration is marked and remembered, and no contents were walked over twice; what
is remembered is never replaced, and at the end nothing is in progress.  So one declaration has one
resolved form among the items.  Every use site in the contents of a resolved form was answered by a
lookup, and where this lookup chose the declaration of an item that was not in progress, the use
site has the resolved form of the item as its target. -/
theorem Input.declarations_shared (input : Input) :
    (∀ {levels}, input.declarations.ncard ≤ levels →
      ∃ history, input.pass levels = some (input.resolved.items, history) ∧
        history.now.frames = [] ∧ history.now.inProgress = ∅ ∧ history.now.state = input.final ∧
        (∀ moment ∈ history.now :: history.past,
          moment.inProgress = (moment.frames.map Frame.declaration).toFinset ∧
            moment.inProgress.card = moment.frames.length ∧
            (∀ {declaration}, declaration ∈ input.graph →
              declaration.id ∈ moment.inProgress → ¬ moment.state.Knows declaration) ∧
            moment.opened.Nodup) ∧
        (history.now :: history.past).Pairwise fun later earlier =>
          earlier.state.Grows later.state) ∧
      (∀ {item output item' output'}, (item, output) ∈ input.items.zip input.resolved.items →
        (item', output') ∈ input.items.zip input.resolved.items → item.node = item'.node →
          output.node = output'.node) ∧
      (∀ {declared resolved found}, input.Resolves declared resolved →
        resolved.Encloses (.reference found) → ∃ visit lookup site, input.Makes visit ∧
          visit.job = .node (.reference site) (.reference found) ∧
            input.Answers lookup visit) ∧
      ∀ {visit lookup site found item output},
        visit.job = .node (.reference site) (.reference found) → input.Answers lookup visit →
        (item, output) ∈ input.items.zip input.resolved.items →
        lookup.Chooses input.scope item.node → ¬ lookup.stack.Resolving item.node.id →
          ∃ target, found.target = some target ∧ target.node = output.node := by
  refine ⟨fun enough => ?pass, ?items, ?answered, ?targets⟩
  case pass =>
    obtain ⟨history, passes, orderly, stands⟩ := input.pass_eq_some enough
    have present := orderly.moments history.now List.mem_cons_self
    refine ⟨history, passes, stands.frames, ?_, stands.state, fun moment member => ?_,
      orderly.grows⟩
    · rw [present.marks, stands.frames]
      rfl
    · have proper := orderly.moments moment member
      refine ⟨proper.marks, ?_, proper.unknown, proper.once⟩
      rw [proper.marks, List.toFinset_card_of_nodup proper.frames.distinct, List.length_map]
  case items =>
    intro item output item' output' listed listed' same
    have resolves' := input.resolves_item listed'
    rw [← same] at resolves'
    exact (input.resolves_item listed).unique resolves'
  case answered =>
    intro declared resolved found resolves encloses
    obtain ⟨visit, site, made, job⟩ := resolves.exists_visit encloses
    obtain ⟨lookup, -, -, answers⟩ := made.answered job
    exact ⟨visit, lookup, site, made, job, answers⟩
  case targets =>
    intro visit lookup site found item output job answers listed chooses idle
    obtain ⟨target, isTarget, resolves⟩ := answers.target_of_chooses job chooses idle
    exact ⟨target, isTarget, resolves.unique (input.resolves_item listed)⟩

end Runs

/-! ## A dim that is listed twice and used before -/

namespace ListedTwice

def three : Node := .literal ⟨0, .int 3, {}⟩
def n : Dim := ⟨1, "n", three, {}⟩
def useN : Reference := ⟨2, none, "n", none, none, .unknown, none, {}⟩
def m : Dim := ⟨3, "m", .reference useN, {}⟩
def noParams : Node := .list ⟨4, [], {}⟩
def useM : Reference := ⟨5, none, "m", none, none, .unknown, none, {}⟩
def main : Signature .function :=
  ⟨7, "main", noParams, .block ⟨6, [.reference useM], {}⟩, {}⟩

def nodes : List Node :=
  [three, .dim n, .reference useN, .dim m, noParams, .reference useM, main.body, .function main]

def graph : Graph :=
  .ofList nodes (by simp [nodes, three, n, useN, m, noParams, useM, main, Node.children])
    (by decide)

def items : List Item := [.function main, .dim m, .dim m]

theorem mem_graph {item : Item} (h : item ∈ [.dim n, .dim m, .function main]) :
    item.node ∈ graph := by
  change item.node ∈ nodes
  simp only [List.mem_cons, List.not_mem_nil, or_false] at h
  rcases h with rfl | rfl | rfl <;> simp [nodes, Item.node]

def scope₁ : Scope := { dims := ⟨[("n", n)]⟩ }
def scope : Scope := { dims := ⟨[("n", n), ("m", m)]⟩ }

theorem scope_declares : scope.Declares graph := by
  have first : scope₁.Declares graph := .declare .empty
    (mem_graph (by simp) : (Item.dim n).node ∈ _)
    (rfl : Scope.declare {} true _ = .ok scope₁)
  exact .declare first (mem_graph (by simp) : (Item.dim m).node ∈ _)
    (rfl : Scope.declare scope₁ true _ = .ok scope)

def input : Input where
  graph
  scope
  items
  next := 8
  declares := scope_declares
  listed item member := by
    refine mem_graph ?_
    simp only [items, List.mem_cons, List.not_mem_nil, or_false] at member
    rcases member with rfl | rfl | rfl <;> simp
  below {node} inside := (by decide : ∀ node ∈ nodes, node.id < 8) node inside

def resolvedUseN : Reference := { useN with id := 8, ty := .int, target := some (.dim n) }
def resolvedM : Dim := { m with id := 9, extent := .reference resolvedUseN }
def resolvedUseM : Reference := { useM with id := 10, ty := .int, target := some (.dim resolvedM) }
def resolvedMain : Signature .function :=
  { main with id := 12, body := .block ⟨11, [.reference resolvedUseM], {}⟩ }

theorem items_eq :
    input.resolved.items = [.function resolvedMain, .dim resolvedM, .dim resolvedM] := rfl

/-- The use site of `m` is visited in the body of `main`, outside of the extent of `m`. -/
theorem exists_visit_useM : ∃ visit lookup found, input.Makes visit ∧
    visit.job = .node (.reference useM) (.reference found) ∧ input.Answers lookup visit ∧
      lookup.Chooses input.scope (Item.dim m).node ∧ ¬ lookup.stack.Resolving m.id := by
  have run : Run input [] input.initial (.signature none main resolvedMain) _ :=
    run_of_resolveSignature (runs_visit (Nat.lt_succ_self 8)) .nil
      (input.listed (.function main) List.mem_cons_self) rfl
  have opened : input.Makes ⟨[], _, _, _⟩ := .of_opens (.here .function run)
  obtain ⟨body, s, t, starts, -⟩ := run.body rfl List.not_mem_nil
  have block := opened.starts starts
  have bodyRun : Run input _ _ (.node (.block ⟨6, [.reference useM], {}⟩) body) s := block.run
  cases bodyRun with
  | block _ itemsRun rebuilt =>
      have items := block.starts (.block itemsRun rebuilt)
      cases itemsRun with
      | cons _ itemRun itemsRun =>
          have visit := items.starts (.head itemRun itemsRun)
          cases itemRun with
          | remembered _ found => cases found
          | reference _ missing =>
              obtain ⟨s₁, s₂, s₃, brackets, parens, meaning, visits⟩ := Run.visits visit.run missing
              obtain rfl : parens = none := by simpa [useM] using visits.parensRun.isSome_child
              have starts := Input.Starts.meaning visits
              refine ⟨_, _, _, visit, rfl, ⟨_, visit, rfl, rfl, .refl _, starts⟩, .dim rfl, ?_⟩
              simp [Stack.Resolving, Frame.declaration, m, main]

theorem mem_declarations {node : Node} (inside : node ∈ graph)
    (isDeclaration : node.contents?.isSome) : node ∈ [.dim n, .dim m, .function main] := by
  replace inside : node ∈ nodes := inside
  simp only [nodes, List.mem_cons, List.not_mem_nil, or_false] at inside
  rcases inside with rfl | rfl | rfl | rfl | rfl | rfl | rfl | rfl <;>
    simp_all [Node.contents?, three, noParams, main]

end ListedTwice

open ListedTwice in
/-- The items are `main`, `m` and `m` again, where `function main() {m}` is resolved first.  The use
site in it has the resolved `m` as its target, which is the second and the third node of the
output. -/
theorem declarations_shared_listedTwice :
    input.resolved.items = [.function resolvedMain, .dim resolvedM, .dim resolvedM] ∧
      (∃ history, input.pass 3 = some (input.resolved.items, history) ∧
        history.now.frames = [] ∧ history.now.inProgress = ∅) ∧
      ∃ visit lookup found target, input.Makes visit ∧
        visit.job = .node (.reference useM) (.reference found) ∧ input.Answers lookup visit ∧
          lookup.Chooses input.scope (Item.dim m).node ∧ ¬ lookup.stack.Resolving m.id ∧
            found.target = some target ∧ target.node = .dim resolvedM := by
  obtain ⟨passes, -, -, targets⟩ := input.declarations_shared
  refine ⟨items_eq, ?_, ?_⟩
  · obtain ⟨history, passes, frames, inProgress, -⟩ :=
      passes (input.ncard_declarations_le mem_declarations)
    exact ⟨history, passes, frames, inProgress⟩
  · obtain ⟨visit, lookup, found, made, job, answers, chooses, idle⟩ := exists_visit_useM
    have listed : (Item.dim m, Item.dim resolvedM) ∈ input.items.zip input.resolved.items := by
      rw [items_eq]
      simp [input, items]
    obtain ⟨target, isTarget, same⟩ := targets job answers listed chooses idle
    exact ⟨visit, lookup, found, target, made, job, answers, chooses, idle, isTarget, same⟩

end ModelLang.Resolution
