import ModelLang.Proofs.Resolution.Adequacy
import ModelLang.Proofs.Resolution.Binding

/-!
# What stays unresolved

A use site is left without a target in silence only when its arguments have a type with a
placeholder.  Every other way to fail is reported, so when a resolution reports nothing, the use
sites without a target are exactly those.  They need not come from a reported failure: a call of
the declaration in progress has a placeholder for its type, so a call with such an argument is not
looked up.
-/

namespace ModelLang

namespace Node

/-- The use sites in the context of a node have a target, unless their arguments have a type with a
placeholder. -/
def Settled (node : Node) : Prop :=
  ∀ {site : Reference}, node.Reaches (.reference site) →
    (site.target = none ↔ ¬ Resolution.Known site.parens)

theorem settled_of_locals_eq_nil {node : Node} (alone : node.locals = [])
    (other : ∀ site, node ≠ .reference site) : node.Settled := by
  intro site reaches
  exact absurd (reaches.eq_of_locals_eq_nil alone).symm (other site)

theorem settled_list {list : Sequence} (items : ∀ item ∈ list.items, item.Settled) :
    (Node.list list).Settled := by
  intro site reaches
  cases reaches with
  | step member reaches => exact items _ member reaches

theorem settled_block {block : Sequence} (items : ∀ item ∈ block.items, item.Settled) :
    (Node.block block).Settled := by
  intro site reaches
  cases reaches with
  | step member reaches => exact items _ member reaches

theorem settled_reference {site : Reference} (brackets : ∀ child ∈ site.brackets, child.Settled)
    (parens : ∀ child ∈ site.parens, child.Settled)
    (self : site.target = none ↔ ¬ Resolution.Known site.parens) :
    (Node.reference site).Settled := by
  intro other reaches
  cases reaches with
  | self => exact self
  | step member reaches =>
      simp only [locals, List.mem_append, Option.mem_toList] at member
      rcases member with member | member
      · exact brackets _ member reaches
      · exact parens _ member reaches

end Node

namespace Resolution

namespace Input

variable {input : Input}

/-- A node is kept, or rebuilt under a new identity. -/
def Renews (input : Input) (given returned : Node) : Prop :=
  returned = given ∨ input.next ≤ returned.id

/-- A node that bears the identity it was given with was kept. -/
theorem Renews.eq_of_id_eq {given returned : Node} (renews : input.Renews given returned)
    (inside : given ∈ input.graph) (same : returned.id = given.id) : returned = given := by
  rcases renews with kept | new
  · exact kept
  · rw [same] at new
    exact absurd (input.below inside) (Nat.not_lt.mpr new)

/-- Items that bear the identities they were given with were kept. -/
theorem eq_of_all_same {given returned : List Node}
    (renews : List.Forall₂ input.Renews given returned)
    (inside : ∀ node ∈ given, node ∈ input.graph)
    (same : (List.zipWith Node.same returned given).all id = true) : returned = given := by
  induction renews with
  | nil => rfl
  | cons head tail induction =>
      obtain ⟨headInside, tailInside⟩ := List.forall_mem_cons.mp inside
      simp only [List.zipWith_cons_cons, List.all_cons, Bool.and_eq_true, id_eq] at same
      rw [head.eq_of_id_eq headInside (by simpa [Node.same] using same.1),
        induction tailInside same.2]

/-- A child that bears the identity it was given with was kept. -/
theorem eq_of_sameChild {given returned : Option Node}
    (renews : List.Forall₂ input.Renews given.toList returned.toList)
    (inside : ∀ node ∈ given, node ∈ input.graph)
    (same : Node.sameChild returned given = true) : returned = given := by
  cases given with
  | none =>
      cases returned with
      | none => rfl
      | some => cases same
  | some given =>
      cases returned with
      | none => cases same
      | some returned =>
          obtain ⟨head, -⟩ := List.forall₂_cons.mp renews
          rw [head.eq_of_id_eq (inside given rfl) (by simpa [Node.sameChild, Node.same] using same)]

/-- A resolved node whose contents are settled is remembered for the node that it renews. -/
structure Settles (input : Input) (id : NodeId) (resolved contents : Node) : Prop where
  settled : contents.Settled
  renews : ∀ {declared}, declared ∈ input.graph → declared.id = id →
    input.Renews declared resolved

/-- Everything remembered is settled. -/
abbrev SettledState (input : Input) (state : State) : Prop :=
  state.Remembers input.next (fun id resolved => input.Settles id (.dim resolved) resolved.extent)
    (fun id resolved => input.Settles id resolved.node resolved.body)
    (fun site _ resolved => input.Settles site (.reference resolved) (.reference resolved))

/-- What is returned for a node is settled, and it renews the node. -/
def SettlesNode (input : Input) (given returned : Node) : Prop :=
  returned.Settled ∧ input.Renews given returned

end Input

/-- A job returns what is settled.  A declaration in progress is settled only later. -/
def Job.Settled (input : Input) (stack : Stack) : Job → Prop
  | node given returned => input.SettlesNode given returned
  | items given returned => List.Forall₂ input.SettlesNode given returned
  | child given returned => List.Forall₂ input.SettlesNode given.toList returned.toList
  | dim given returned =>
      input.Renews (.dim given) (.dim returned) ∧
        (stack.Resolving given.id ∨ returned.extent.Settled)
  | signature _ given returned =>
      input.Renews given.node returned.node ∧
        (stack.Resolving given.id ∨ returned.body.Settled)
  | meaning _ parens returned => returned = none ↔ ¬ Known parens

section Runs

variable {input : Input} {stack : Stack} {s s' : State} {job : Job}

theorem settled_of_mem {given returned : List Node}
    (settles : List.Forall₂ input.SettlesNode given returned) :
    ∀ node ∈ returned, node.Settled := by
  induction settles with
  | nil => simp
  | cons head _ induction => exact List.forall_mem_cons.mpr ⟨head.1, induction⟩

/-- The identity of a renewed node stands for one node of the graph. -/
theorem Input.Renews.settles {given returned contents : Node} (renews : input.Renews given returned)
    (inside : given ∈ input.graph) (settled : contents.Settled) :
    input.Settles given.id returned contents where
  settled := settled
  renews other same := by rwa [input.graph.eq_of_id other inside same]

section Rebuilding

variable (begins : input.next ≤ s.next)

include begins

theorem settles_of_rebuildSequence {sequence resolved : Sequence} {items : List Node}
    (inside : ∀ item ∈ sequence.items, item ∈ input.graph)
    (settles : List.Forall₂ input.SettlesNode sequence.items items)
    (rebuilt : rebuildSequence sequence items s = (resolved, s')) :
    (∀ item ∈ resolved.items, item.Settled) ∧
      (resolved = sequence ∨ input.next ≤ resolved.id) := by
  rcases rebuildSequence_cases rebuilt with ⟨same, rfl, -⟩ | ⟨rfl, -⟩
  · have kept := Input.eq_of_all_same (settles.imp fun _ _ node => node.2) inside same
    rw [kept] at settles
    exact ⟨settled_of_mem settles, .inl rfl⟩
  · exact ⟨settled_of_mem settles, .inr begins⟩

theorem settles_of_rebuildDim {dim resolved : Dim} {extent : Node}
    (inside : .dim dim ∈ input.graph) (settles : input.SettlesNode dim.extent extent)
    (rebuilt : rebuildDim dim extent s = (resolved, s')) :
    input.Renews (.dim dim) (.dim resolved) ∧ resolved.extent.Settled := by
  rcases rebuildDim_cases rebuilt with ⟨same, rfl, -⟩ | ⟨rfl, -⟩
  · have extentInside := input.graph.mem_child inside (Node.mem_children_of_contents? rfl)
    have kept := settles.2.eq_of_id_eq extentInside same
    exact ⟨.inl rfl, kept ▸ settles.1⟩
  · exact ⟨.inr begins, settles.1⟩

theorem settles_of_rebuildSignature {c : Callable} {signature resolved : Signature c} {body : Node}
    (inside : signature.node ∈ input.graph) (settles : input.SettlesNode signature.body body)
    (rebuilt : rebuildSignature signature body s = (resolved, s')) :
    input.Renews signature.node resolved.node ∧ resolved.body.Settled := by
  rcases rebuildSignature_cases rebuilt with ⟨same, rfl, -⟩ | ⟨rfl, -⟩
  · have bodyInside := input.graph.mem_child inside
      (Node.mem_children_of_contents? (Node.contents?_signature resolved))
    have kept := settles.2.eq_of_id_eq bodyInside same
    exact ⟨.inl rfl, kept ▸ settles.1⟩
  · refine ⟨.inr ?_, settles.1⟩
    rw [SignatureOf.id_node]
    exact begins

theorem settles_of_rebuildReference (plain : input.Plain) {site resolved : Reference}
    {brackets parens : Option Node} {meaning : Option Meaning}
    (inside : .reference site ∈ input.graph)
    (bracketsSettle : List.Forall₂ input.SettlesNode site.brackets.toList brackets.toList)
    (parensSettle : List.Forall₂ input.SettlesNode site.parens.toList parens.toList)
    (silent : meaning = none ↔ ¬ Known parens)
    (rebuilt : rebuildReference site brackets parens meaning s = (resolved, s')) :
    input.SettlesNode (.reference site) (.reference resolved) := by
  have bracketsSettled : ∀ child ∈ brackets, child.Settled := by
    simpa using settled_of_mem bracketsSettle
  have parensSettled : ∀ child ∈ parens, child.Settled := by
    simpa using settled_of_mem parensSettle
  rcases rebuildReference_cases rebuilt with ⟨unmeant, bracketsSame, parensSame, rfl, -⟩ | ⟨rfl, -⟩
  · have bracketsKept := Input.eq_of_sameChild (bracketsSettle.imp fun _ _ node => node.2)
      (fun child member => input.graph.mem_child inside (by simp_all [Node.children])) bracketsSame
    have parensKept := Input.eq_of_sameChild (parensSettle.imp fun _ _ node => node.2)
      (fun child member => input.graph.mem_child inside (by simp_all [Node.children])) parensSame
    subst bracketsKept parensKept
    refine ⟨Node.settled_reference bracketsSettled parensSettled ?_, .inl rfl⟩
    simp [(plain inside).2, silent.mp unmeant]
  · refine ⟨Node.settled_reference bracketsSettled parensSettled ?_, .inr begins⟩
    simpa using silent

end Rebuilding

/-- A run inside a whole resolution without errors settles what it returns and remembers. -/
theorem Run.settled (plain : input.Plain) (clean : input.final.errors = [])
    (run : Run input stack s job s') (ends : s'.Grows input.final)
    (memory : input.SettledState s) : input.SettledState s' ∧ job.Settled input stack := by
  induction run with
  | literal allowed =>
      exact ⟨memory, Node.settled_of_locals_eq_nil rfl (by simp), .inl rfl⟩
  | typeRef allowed =>
      exact ⟨memory, Node.settled_of_locals_eq_nil rfl (by simp), .inl rfl⟩
  | param allowed =>
      exact ⟨memory, Node.settled_of_locals_eq_nil rfl (by simp), .inl rfl⟩
  | list allowed run rebuilt induction =>
      have allots := allots_of_rebuildSequence rebuilt
      have below : ∀ item ∈ _, item ∈ input.graph :=
        fun item member => input.graph.mem_child allowed.job member
      obtain ⟨memory, items⟩ := induction (allots.grows.trans ends) memory
      obtain ⟨settled, renews⟩ := settles_of_rebuildSequence memory.next below items rebuilt
      exact ⟨memory.of_allots allots, Node.settled_list settled, renews.imp (congrArg _) id⟩
  | block allowed run rebuilt induction =>
      have allots := allots_of_rebuildSequence rebuilt
      have below : ∀ item ∈ _, item ∈ input.graph :=
        fun item member => input.graph.mem_child allowed.job member
      obtain ⟨memory, items⟩ := induction (allots.grows.trans ends) memory
      obtain ⟨settled, renews⟩ := settles_of_rebuildSequence memory.next below items rebuilt
      exact ⟨memory.of_allots allots, Node.settled_block settled, renews.imp (congrArg _) id⟩
  | dim allowed run induction =>
      obtain ⟨memory, renews, -⟩ := induction ends memory
      exact ⟨memory, Node.settled_of_locals_eq_nil rfl (by simp), renews⟩
  | function allowed run induction =>
      obtain ⟨memory, renews, -⟩ := induction ends memory
      exact ⟨memory, Node.settled_of_locals_eq_nil rfl (by simp), renews⟩
  | method allowed run induction =>
      obtain ⟨memory, renews, -⟩ := induction ends memory
      exact ⟨memory, Node.settled_of_locals_eq_nil rfl (by simp), renews⟩
  | remembered allowed found =>
      have settles := memory.uses found
      exact ⟨memory, settles.settled, settles.renews allowed.job rfl⟩
  | @reference stack s₀ s₁ s₂ s₃ s₄ site _ _ _ resolved allowed missing bracketsRun parensRun
      meaningRun rebuilt brackets parens meaning =>
      have allots := allots_of_rebuildReference rebuilt
      have ends₃ : s₃.Grows input.final :=
        allots.grows.trans ((State.Grows.rememberUse _ _ _ _).trans ends)
      have ends₂ := meaningRun.grows.trans ends₃
      obtain ⟨memory, brackets⟩ := brackets (parensRun.grows.trans ends₂) memory
      obtain ⟨memory, parens⟩ := parens ends₂ memory
      obtain ⟨memory, meaning⟩ := meaning ends₃ memory
      have settles := settles_of_rebuildReference memory.next plain allowed.job brackets parens
        meaning rebuilt
      exact ⟨(memory.of_allots allots).rememberUse (settles.2.settles allowed.job settles.1),
        settles⟩
  | nil => exact ⟨memory, .nil⟩
  | cons allowed itemRun itemsRun item items =>
      obtain ⟨memory, item⟩ := item (itemsRun.grows.trans ends) memory
      obtain ⟨memory, items⟩ := items ends memory
      exact ⟨memory, .cons item items⟩
  | noChild => exact ⟨memory, .nil⟩
  | child allowed run induction =>
      obtain ⟨memory, child⟩ := induction ends memory
      exact ⟨memory, .cons child .nil⟩
  | dimRemembered allowed found =>
      have settles := memory.dims found
      exact ⟨memory, settles.renews allowed.job rfl, .inr settles.settled⟩
  | dimInProgress allowed missing resolving => exact ⟨memory, .inl rfl, .inl resolving⟩
  | dimFresh allowed missing idle run rebuilt induction =>
      have kept := run.grows_rememberDim missing rebuilt
      obtain ⟨memory, extent⟩ := induction (kept.trans ends) memory
      obtain ⟨renews, settled⟩ := settles_of_rebuildDim memory.next allowed.job extent rebuilt
      have settles := renews.settles allowed.job settled
      exact ⟨(memory.of_allots (allots_of_rebuildDim rebuilt)).rememberDim settles, renews,
        .inr settled⟩
  | signatureRemembered allowed found =>
      have settles := memory.signatures found
      exact ⟨memory, settles.renews allowed.job (by simp), .inr settles.settled⟩
  | signatureInProgress allowed missing resolving => exact ⟨memory, .inl rfl, .inl resolving⟩
  | signatureFresh allowed missing idle run rebuilt induction =>
      have kept := run.grows_rememberSignature missing rebuilt
      obtain ⟨memory, body⟩ := induction (kept.trans ends) memory
      obtain ⟨renews, settled⟩ := settles_of_rebuildSignature memory.next allowed.job body rebuilt
      have settles := renews.settles allowed.job settled
      rw [SignatureOf.id_node] at settles
      exact ⟨(memory.of_allots (allots_of_rebuildSignature rebuilt)).rememberSignature settles,
        renews, .inr settled⟩
  | skipped allowed unknown => exact ⟨memory, by simpa [Job.Settled] using unknown⟩
  | unbound => exact absurd (ends.errors_eq_nil clean) (by simp [State.withError])
  | paramMeant allowed known =>
      exact ⟨memory.withEvent _, by simpa [Job.Settled] using known⟩
  | dimMeant allowed known bound run induction =>
      obtain ⟨memory, -⟩ := induction ((State.Grows.withEvent _ _).trans ends) memory
      exact ⟨memory.withEvent _, by simpa [Job.Settled] using known⟩
  | refused => exact absurd (ends.errors_eq_nil clean) (by simp [State.withError])
  | recursive allowed known bound calls applied =>
      have allots := allots_of_argumentsOf applied
      exact ⟨((memory.of_allots allots).withEvent _).withEvent _,
        by simpa [Job.Settled] using known⟩
  | entered allowed known bound calls applied selects idle run induction =>
      have allots := allots_of_argumentsOf applied
      have eventEnds := (State.Grows.withEvent _ _).trans ends
      obtain ⟨memory, -⟩ := induction eventEnds ((memory.of_allots allots).withEvent _)
      exact ⟨memory.withEvent _, by simpa [Job.Settled] using known⟩

theorem ItemRun.settled (plain : input.Plain) (clean : input.final.errors = [])
    {item resolved : Item} (run : ItemRun input s item resolved s')
    (ends : s'.Grows input.final) (memory : input.SettledState s) :
    input.SettledState s' ∧
      ∃ contents, resolved.node.contents? = some contents ∧ contents.Settled := by
  -- Outside of all declarations none is in progress.
  have idle {id : NodeId} : ¬ Stack.Resolving [] id := List.not_mem_nil
  cases run with
  | dim run =>
      obtain ⟨memory, -, busy | settled⟩ := run.settled plain clean ends memory
      · exact absurd busy idle
      · exact ⟨memory, _, rfl, settled⟩
  | function run | method run =>
      obtain ⟨memory, -, busy | settled⟩ := run.settled plain clean ends memory
      · exact absurd busy idle
      · exact ⟨memory, _, rfl, settled⟩

theorem ItemsRun.settled (plain : input.Plain) (clean : input.final.errors = [])
    {items resolved : List Item} (run : ItemsRun input s items resolved s')
    (ends : s'.Grows input.final) (memory : input.SettledState s) :
    ∀ item ∈ resolved, ∃ contents, item.node.contents? = some contents ∧ contents.Settled := by
  induction run with
  | nil => simp
  | cons itemRun itemsRun induction =>
      obtain ⟨memory, settled⟩ := itemRun.settled plain clean (itemsRun.grows.trans ends) memory
      exact List.forall_mem_cons.mpr ⟨settled, induction ends memory⟩

/-- After a resolution without errors, a use site in the contents of a resolved item is without a
target exactly when its arguments have a type with a placeholder. -/
theorem Input.target_eq_none_iff (input : Input) (plain : input.Plain)
    (clean : input.resolved.errors = []) {item : Item} (member : item ∈ input.resolved.items)
    {site : Reference} (encloses : item.node.Encloses (.reference site)) :
    site.target = none ↔ ∃ parens, site.parens = some parens ∧ parens.ty.hasUnknown = true := by
  rw [errors_resolved] at clean
  obtain ⟨contents, isContents, settled⟩ :=
    input.itemsRun.settled plain clean (.refl _) .initial item member
  obtain ⟨contents', isContents', reaches⟩ := encloses
  obtain rfl := Option.some.inj (isContents.symm.trans isContents')
  rw [settled reaches, Known, Bool.not_eq_false, Option.any_eq_true]

end Runs

/-! ## A function that calls itself with a call of itself -/

namespace SelfCall

def n : Param := ⟨1, "n", ⟨0, .int, {}⟩, {}⟩
def params : Node := .list ⟨2, [.param n], {}⟩
def use : Reference := ⟨3, none, "n", none, none, .unknown, none, {}⟩
def innerArguments : Node := .list ⟨4, [.reference use], {}⟩
def inner : Reference := ⟨5, none, "loop", none, some innerArguments, .unknown, none, {}⟩
def outerArguments : Node := .list ⟨6, [.reference inner], {}⟩
def outer : Reference := ⟨7, none, "loop", none, some outerArguments, .unknown, none, {}⟩
def body : Node := .block ⟨8, [.reference outer], {}⟩
def loop : Signature .function := ⟨9, "loop", params, body, {}⟩
def item : Item := .function loop

def nodes : List Node :=
  [.typeRef n.typeRef, .param n, params, .reference use, innerArguments, .reference inner,
    outerArguments, .reference outer, body, loop.node]

def graph : Graph :=
  .ofList nodes
    (by simp [nodes, params, use, innerArguments, inner, outerArguments, outer, body, loop,
      SignatureOf.node, Node.children])
    (by decide)

theorem mem_graph : item.node ∈ graph := by
  change loop.node ∈ nodes
  simp [nodes]

def scope : Scope := { functions := ⟨[("loop", ⟨"loop", [loop]⟩)]⟩ }

theorem scope_declares : scope.Declares graph :=
  .declare .empty mem_graph (rfl : Scope.declare {} true item = .ok scope)

def input : Input where
  graph
  scope
  items := [item]
  next := 10
  declares := scope_declares
  listed := List.forall_mem_singleton.mpr mem_graph
  below {node} inside := (by decide : ∀ node ∈ nodes, node.id < 10) node inside

theorem plain : input.Plain := by
  intro site inside
  replace inside : .reference site ∈ nodes := inside
  simp only [nodes, params, innerArguments, outerArguments, body, loop, SignatureOf.node,
    List.mem_cons, List.not_mem_nil, or_false, reduceCtorEq, false_or, Node.reference.injEq]
    at inside
  rcases inside with rfl | rfl | rfl <;> exact ⟨rfl, rfl⟩

def resolvedUse : Reference := { use with id := 10, ty := .int, target := some (.param n) }
def resolvedUses : Node := .list ⟨11, [.reference resolvedUse], {}⟩

theorem known_types {written : TypeRef} (inside : .typeRef written ∈ input.graph) :
    written.ty.hasUnknown = false := by
  replace inside : .typeRef written ∈ nodes := inside
  simp only [nodes, params, innerArguments, outerArguments, body, loop, SignatureOf.node,
    List.mem_cons, List.not_mem_nil, or_false, reduceCtorEq, Node.typeRef.injEq] at inside
  subst inside
  rfl

/-- The inner call is given the declaration in progress, whose type is not known yet. -/
def resolvedInner : Reference :=
  { inner with
    id := 12
    parens := some resolvedUses
    target := some (.function loop) }

def resolvedArguments : Node := .list ⟨13, [.reference resolvedInner], {}⟩
def resolvedOuter : Reference := { outer with id := 14, parens := some resolvedArguments }
def resolvedBody : Node := .block ⟨15, [.reference resolvedOuter], {}⟩
def resolvedLoop : Signature .function := { loop with id := 16, body := resolvedBody }

theorem items_eq : input.resolved.items = [.function resolvedLoop] := rfl

theorem encloses_outer : (Item.function resolvedLoop).node.Encloses (.reference resolvedOuter) :=
  ⟨resolvedBody, rfl, .step (by simp [resolvedBody, Node.locals]) (.self _)⟩

end SelfCall

open SelfCall in
/-- All written types of `function loop(n:Int) {loop(loop(n))}` are known and nothing is reported
for it, and yet its outer call is without a target. -/
theorem target_eq_none_iff_selfCall :
    input.Plain ∧ (∀ {written}, .typeRef written ∈ input.graph → written.ty.hasUnknown = false) ∧
      input.resolved.errors = [] ∧ ∃ item ∈ input.resolved.items, ∃ site,
        item.node.Encloses (.reference site) ∧ site.target = none := by
  have clean : input.resolved.errors = [] := rfl
  have member : .function resolvedLoop ∈ input.resolved.items := by simp [items_eq]
  have silent := input.target_eq_none_iff plain clean member encloses_outer
  exact ⟨plain, known_types, clean, _, member, resolvedOuter, encloses_outer,
    silent.mpr ⟨resolvedArguments, rfl, rfl⟩⟩

end Resolution

end ModelLang
