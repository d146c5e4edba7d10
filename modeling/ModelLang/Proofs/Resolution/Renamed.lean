import ModelLang.Proofs.Renaming
import ModelLang.Proofs.Resolution.Recursion

/-!
# Steps of the resolution under other identities

Two resolutions go on alike from nodes with one renamed form.  A node is rebuilt in both of them or
in none, since a rebuilt node is told from a node of the graph by its identity, and what is decided
about a use site is the same in both.
-/

namespace ModelLang.Resolution

/-- A meaning with other identities in its target. -/
def Meaning.rename (f : NodeId → NodeId) (meaning : Meaning) : Meaning :=
  (meaning.1, meaning.2.rename f)

@[simp]
theorem rename_targetSignature {c : Callable} (f : NodeId → NodeId) (signature : Signature c) :
    (TargetOf.signature signature : Target).rename f = TargetOf.signature (signature.rename f) := by
  cases c <;> rfl

/-- The meaning of a call is told by the renamed form of the overload. -/
theorem rename_meaning_congr {c : Callable} {f : NodeId → NodeId} {resolved resolved' : Signature c}
    (alike : resolved.rename f = resolved'.rename f) :
    Meaning.rename f (resolved.body.ty, .signature resolved) =
      Meaning.rename f (resolved'.body.ty, .signature resolved') := by
  have bodies : resolved.body.rename f = resolved'.body.rename f :=
    congrArg SignatureOf.body alike
  have types : resolved.body.ty = resolved'.body.ty := by
    rw [← Node.ty_rename (f := f), bodies, Node.ty_rename]
  simp [Meaning.rename, types, alike]

/-- Of meanings with one renamed form both are missing or none is, and they have one type and one
renamed target. -/
theorem meanings_congr {f : NodeId → NodeId} {meaning meaning' : Option Meaning}
    (alike : meaning.map (Meaning.rename f) = meaning'.map (Meaning.rename f)) :
    meaning.isNone = meaning'.isNone ∧ meaning.map Prod.fst = meaning'.map Prod.fst ∧
      (meaning.map Prod.snd).map (TargetOf.rename f) =
        (meaning'.map Prod.snd).map (TargetOf.rename f) := by
  cases meaning <;> cases meaning' <;> simp_all [Meaning.rename]

section Congruence

variable {graph : Graph} {f : NodeId → NodeId} (apart : graph.KeepsApart f) {s s' t t' : State}
  (new : f s.next = f t.next)

include apart new

theorem rebuildDim_congr {dim resolved resolved' : Dim} {extent extent' : Node}
    (inside : .dim dim ∈ graph) (alike : extent.rename f = extent'.rename f)
    (rebuilt : rebuildDim dim extent s = (resolved, s'))
    (rebuilt' : rebuildDim dim extent' t = (resolved', t')) :
    resolved.rename f = resolved'.rename f := by
  have below : dim.extent ∈ graph := graph.mem_child inside (by simp [Node.children])
  unfold rebuildDim at rebuilt rebuilt'
  rw [Node.same_congr apart alike below] at rebuilt
  split at rebuilt'
  case isTrue same =>
    rw [if_pos same] at rebuilt
    cases rebuilt
    cases rebuilt'
    rfl
  case isFalse same =>
    rw [if_neg same] at rebuilt
    cases rebuilt
    cases rebuilt'
    simp only [DimOf.rename, alike, new]

theorem rebuildSignature_congr {c : Callable} {signature resolved resolved' : Signature c}
    {body body' : Node} (inside : signature.node ∈ graph) (alike : body.rename f = body'.rename f)
    (rebuilt : rebuildSignature signature body s = (resolved, s'))
    (rebuilt' : rebuildSignature signature body' t = (resolved', t')) :
    resolved.rename f = resolved'.rename f := by
  have below : signature.body ∈ graph :=
    graph.mem_child inside (Node.mem_children_of_contents? (Node.contents?_signature signature))
  unfold rebuildSignature at rebuilt rebuilt'
  rw [Node.same_congr apart alike below] at rebuilt
  split at rebuilt'
  case isTrue same =>
    rw [if_pos same] at rebuilt
    cases rebuilt
    cases rebuilt'
    rfl
  case isFalse same =>
    rw [if_neg same] at rebuilt
    cases rebuilt
    cases rebuilt'
    simp only [SignatureOf.rename, alike, new]

omit new in
theorem zipWith_same_congr {items items' given : List Node} (inside : ∀ item ∈ given, item ∈ graph)
    (alike : items.map (Node.rename f) = items'.map (Node.rename f)) :
    List.zipWith Node.same items given = List.zipWith Node.same items' given := by
  induction items generalizing items' given with
  | nil =>
      rw [List.map_nil, eq_comm, List.map_eq_nil_iff] at alike
      rw [alike]
  | cons item items induction =>
      obtain ⟨item', items', rfl, head, tail⟩ := List.map_eq_cons_iff.mp alike.symm
      cases given with
      | nil => rfl
      | cons first given =>
          rw [List.zipWith_cons_cons, List.zipWith_cons_cons,
            Node.same_congr apart head.symm (inside first (by simp)),
            induction (fun item member => inside item (by simp [member])) tail.symm]

theorem rebuildSequence_congr {sequence resolved resolved' : Sequence} {items items' : List Node}
    (inside : ∀ item ∈ sequence.items, item ∈ graph)
    (alike : items.map (Node.rename f) = items'.map (Node.rename f))
    (rebuilt : rebuildSequence sequence items s = (resolved, s'))
    (rebuilt' : rebuildSequence sequence items' t = (resolved', t')) :
    resolved.rename f = resolved'.rename f := by
  unfold rebuildSequence at rebuilt rebuilt'
  rw [zipWith_same_congr apart inside alike] at rebuilt
  split at rebuilt'
  case isTrue same =>
    rw [if_pos same] at rebuilt
    cases rebuilt
    cases rebuilt'
    rfl
  case isFalse same =>
    rw [if_neg same] at rebuilt
    cases rebuilt
    cases rebuilt'
    simp only [SequenceOf.rename, alike, new]

omit new in
theorem sameChild_congr {child child' given : Option Node} (inside : ∀ node ∈ given, node ∈ graph)
    (alike : child.map (Node.rename f) = child'.map (Node.rename f)) :
    Node.sameChild child given = Node.sameChild child' given := by
  cases child <;> cases child' <;> cases given <;> simp_all [Node.sameChild]
  exact Node.same_congr apart alike inside

theorem rebuildReference_congr {site resolved resolved' : Reference}
    {brackets brackets' parens parens' : Option Node} {meaning meaning' : Option Meaning}
    (inside : .reference site ∈ graph)
    (bracketsAlike : brackets.map (Node.rename f) = brackets'.map (Node.rename f))
    (parensAlike : parens.map (Node.rename f) = parens'.map (Node.rename f))
    (alike : meaning.map (Meaning.rename f) = meaning'.map (Meaning.rename f))
    (rebuilt : rebuildReference site brackets parens meaning s = (resolved, s'))
    (rebuilt' : rebuildReference site brackets' parens' meaning' t = (resolved', t')) :
    resolved.rename f = resolved'.rename f := by
  have below : ∀ child ∈ (Node.reference site).children, child ∈ graph :=
    fun child member => graph.mem_child inside member
  simp only [Node.children, List.mem_append, Option.mem_toList] at below
  obtain ⟨isNone_eq, types, targets⟩ := meanings_congr alike
  unfold rebuildReference at rebuilt rebuilt'
  rw [isNone_eq,
    sameChild_congr apart (fun child member => below child (.inl member)) bracketsAlike,
    sameChild_congr apart (fun child member => below child (.inr member)) parensAlike] at rebuilt
  split at rebuilt'
  case isTrue same =>
    rw [if_pos same] at rebuilt
    cases rebuilt
    cases rebuilt'
    rfl
  case isFalse same =>
    rw [if_neg same] at rebuilt
    cases rebuilt
    cases rebuilt'
    simp only [ReferenceOf.rename, bracketsAlike, parensAlike, types, targets, new]

end Congruence

/-- A lookup depends on the visible parameters and the visible receiver. -/
theorem lookup_congr {scope : Scope} {stack stack' : Stack} {site : Reference}
    (param : stack.param? site.name = stack'.param? site.name)
    (receiver : stack.receiver? = stack'.receiver?) :
    lookup scope stack site = lookup scope stack' site := by
  simp only [lookup, lookupHere?, param, receiver]

/-- Whether the type of the arguments is known does not depend on identities. -/
theorem known_congr {f : NodeId → NodeId} {parens parens' : Option Node}
    (alike : parens.map (Node.rename f) = parens'.map (Node.rename f)) :
    Known parens ↔ Known parens' := by
  have types : parens.map Node.ty = parens'.map Node.ty := by
    simpa [Function.comp_def, Node.ty_rename] using congrArg (Option.map Node.ty) alike
  cases parens <;> cases parens' <;> simp_all [Known]

/-- The overloads that a use site calls select the same for arguments with one renamed form. -/
theorem Binding.Calls.resolve_congr {graph : Graph} {scope : Scope} {f : NodeId → NodeId}
    {stack : Stack} {site : Reference} {binding : Binding} {c : Callable} {receiver : Option String}
    {overloads : OverloadSet (Signature c)}
    {resolve : Node → Span → Except Diagnostic (Signature c)} {arguments arguments' : Node}
    (calls : binding.Calls receiver overloads resolve) (apart : graph.KeepsApart f)
    (within : scope.Within graph) (found : Found scope stack site binding)
    (alike : arguments.rename f = arguments'.rename f) (place : Span) :
    resolve arguments place = resolve arguments' place := by
  have files := calls.files found within
  cases calls with
  | function | method =>
      exact OverloadSet.resolveAs_congr apart
        (fun candidate member => (files.mem candidate member).1) alike _ place

/-- The same is decided about a use site where its name is bound alike and its arguments have one
renamed form. -/
theorem verdict_congr {graph : Graph} {scope : Scope} {f : NodeId → NodeId} {stack stack' : Stack}
    {site : Reference} {parens parens' : Option Node} {free free' : NodeId}
    (apart : graph.KeepsApart f) (within : scope.Within graph)
    (bound : lookup scope stack site = lookup scope stack' site)
    (alike : parens.map (Node.rename f) = parens'.map (Node.rename f)) (new : f free = f free') :
    verdict scope stack site parens free = verdict scope stack' site parens' free' := by
  have known := known_congr alike
  have supplied :
      (suppliedTo site parens free).rename f = (suppliedTo site parens' free').rename f := by
    cases parens <;> cases parens' <;> simp_all [suppliedTo, SequenceOf.rename]
  by_cases isKnown : Known parens
  · rw [verdict_of_known isKnown, verdict_of_known (known.mp isKnown), bound]
    cases outcome : lookup scope stack' site with
    | error error => rfl
    | ok binding =>
        have found := found_of_lookup outcome
        cases binding with
        | param | dim => rfl
        | function overloads =>
            dsimp only
            rw [(Binding.Calls.function overloads).resolve_congr apart within found supplied]
        | method method =>
            dsimp only
            rw [(Binding.Calls.method method).resolve_congr apart within found supplied]
  · rw [verdict_of_unknown isKnown, verdict_of_unknown (isKnown ∘ known.mpr)]

end ModelLang.Resolution
