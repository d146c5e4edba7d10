import ModelLang.Proofs.Resolution.Extension
import ModelLang.Proofs.Resolution.Replay

/-!
# Where the identities of new nodes start

A resolution hands out identities for the nodes that it rebuilds, from the first one that no node
bears.  It never looks at them but to tell them from those of the graph, so it goes the same way
from any later identity: every call that is made from one first identity is followed, step by step,
by a call that is made from the other one, and the two return the same up to the identities of new
nodes.  Both find the same errors.
-/

namespace ModelLang.Resolution

/-- The input with the identities of new nodes from a later one on. -/
def Input.startingAt (input : Input) (first : NodeId) (later : input.next ≤ first) : Input :=
  { input with
    next := first
    below := fun inside => Nat.lt_of_lt_of_le (input.below inside) later }

/-- Two states remember the same up to the identities of new nodes, and found the same errors. -/
structure Input.SameState (input : Input) (s t : State) : Prop where
  next : input.next ≤ s.next
  next' : input.next ≤ t.next
  dims : ∀ id, (s.dims.find? id).map (DimOf.rename input.blur) =
    (t.dims.find? id).map (DimOf.rename input.blur)
  signatures : ∀ (c : Callable) id, (s.signature? c id).map (SignatureOf.rename input.blur) =
    (t.signature? c id).map (SignatureOf.rename input.blur)
  uses : ∀ key, (s.uses.find? key).map (ReferenceOf.rename input.blur) =
    (t.uses.find? key).map (ReferenceOf.rename input.blur)
  errors : s.errors = t.errors

variable {input : Input} {s s' t t' : State}

namespace Input.SameState

theorem blur_eq (same : input.SameState s t) : input.blur s.next = input.blur t.next :=
  input.blur_congr same.next same.next'

theorem of_allots (same : input.SameState s t) (allots : s.Allots s') (allots' : t.Allots t') :
    input.SameState s' t' where
  next := same.next.trans allots.grows.next
  next' := same.next'.trans allots'.grows.next
  dims := by rcases allots with rfl | rfl <;> rcases allots' with rfl | rfl <;> exact same.dims
  signatures := by
    rcases allots with rfl | rfl <;> rcases allots' with rfl | rfl <;>
      simpa using same.signatures
  uses := by rcases allots with rfl | rfl <;> rcases allots' with rfl | rfl <;> exact same.uses
  errors := by rw [allots.errors_eq, allots'.errors_eq, same.errors]

theorem withEvent (same : input.SameState s t) (event event' : Event) :
    input.SameState (s.withEvent event) (t.withEvent event') where
  next := same.next
  next' := same.next'
  dims := same.dims
  signatures := by simpa using same.signatures
  uses := same.uses
  errors := same.errors

theorem withError (same : input.SameState s t) (error : Diagnostic) :
    input.SameState (s.withError error) (t.withError error) where
  next := same.next
  next' := same.next'
  dims := same.dims
  signatures := by simpa using same.signatures
  uses := same.uses
  errors := congrArg (· ++ [error]) same.errors

theorem rememberDim (same : input.SameState s t) {dim dim' : Dim}
    (alike : dim.rename input.blur = dim'.rename input.blur) (declared : NodeId) :
    input.SameState (s.rememberDim declared dim) (t.rememberDim declared dim') where
  next := same.next
  next' := same.next'
  dims id := by
    rw [State.rememberDim, State.rememberDim, Table.find?_insert, Table.find?_insert]
    split
    · exact congrArg some alike
    · exact same.dims id
  signatures := by simpa using same.signatures
  uses := same.uses
  errors := same.errors

theorem rememberSignature (same : input.SameState s t) {c : Callable}
    {signature signature' : Signature c}
    (alike : signature.rename input.blur = signature'.rename input.blur) (declared : NodeId) :
    input.SameState (s.rememberSignature declared signature)
      (t.rememberSignature declared signature') where
  next := by simpa using same.next
  next' := by simpa using same.next'
  dims := by simpa using same.dims
  signatures c' id := by
    by_cases other : id ≠ declared ∨ c' ≠ c
    · rw [State.signature?_rememberSignature_of_ne s signature other,
        State.signature?_rememberSignature_of_ne t signature' other]
      exact same.signatures c' id
    · obtain ⟨rfl, rfl⟩ : id = declared ∧ c' = c := by simpa [not_or] using other
      simpa using alike
  uses := by simpa using same.uses
  errors := by simpa using same.errors

theorem rememberUse (same : input.SameState s t) {resolved resolved' : Reference}
    (alike : resolved.rename input.blur = resolved'.rename input.blur) (site : NodeId)
    (owner : Option NodeId) :
    input.SameState (s.rememberUse site owner resolved) (t.rememberUse site owner resolved') where
  next := same.next
  next' := same.next'
  dims := same.dims
  signatures := by simpa using same.signatures
  uses key := by
    rw [State.rememberUse, State.rememberUse, Table.find?_insert, Table.find?_insert]
    split
    · exact congrArg some alike
    · exact same.uses key
  errors := same.errors

end Input.SameState

/-! ## Calls from another first identity -/

/-- From another state a job of another input returns the same, and leaves the same state, up to the
identities of new nodes. -/
def Input.Follows (input other : Input) (stack : Stack) (t s' : State) {ρ : Type} (rename : ρ → ρ)
    (job : ρ → Job) (returned : ρ) : Prop :=
  ∃ returned' t', Run other stack t (job returned') t' ∧ rename returned = rename returned' ∧
    input.SameState s' t'

/-- A job is followed in another input, where it is given the same up to the identities of new
nodes. -/
def Job.Followed (input other : Input) (stack : Stack) (t s' : State) : Job → Prop
  | .node given returned =>
      input.Follows other stack t s' (Node.rename input.blur) (.node given) returned
  | .items given returned =>
      input.Follows other stack t s' (List.map (Node.rename input.blur)) (.items given) returned
  | .child given returned =>
      input.Follows other stack t s' (Option.map (Node.rename input.blur)) (.child given) returned
  | .dim given returned =>
      input.Follows other stack t s' (DimOf.rename input.blur) (.dim given) returned
  | .signature receiver given returned =>
      input.Follows other stack t s' (SignatureOf.rename input.blur) (.signature receiver given)
        returned
  | .meaning site parens returned => ∀ parens',
      parens.map (Node.rename input.blur) = parens'.map (Node.rename input.blur) →
        input.Follows other stack t s' (Option.map (Meaning.rename input.blur))
          (.meaning site parens') returned

/-- A table that remembers nothing under a key remembers nothing there in the same state. -/
theorem find?_eq_none_of_map_eq {ρ : Type} {rename : ρ → ρ} {found found' : Option ρ}
    (same : found.map rename = found'.map rename) (missing : found = none) : found' = none := by
  rw [missing] at same
  exact Option.map_eq_none_iff.mp same.symm

theorem exists_of_map_eq {ρ : Type} {rename : ρ → ρ} {found found' : Option ρ} {resolved : ρ}
    (same : found.map rename = found'.map rename) (isFound : found = some resolved) :
    ∃ resolved', found' = some resolved' ∧ rename resolved = rename resolved' := by
  rw [isFound, Option.map_some] at same
  obtain ⟨resolved', isFound', alike⟩ := Option.map_eq_some_iff.mp same.symm
  exact ⟨resolved', isFound', alike.symm⟩

/-- The arguments of a use site are the same up to the identity of a fresh empty list. -/
theorem argumentsOf_congr {f : NodeId → NodeId} {site : Reference} {parens parens' : Option Node}
    {arguments arguments' : Node} (new : f s.next = f t.next)
    (alike : parens.map (Node.rename f) = parens'.map (Node.rename f))
    (applied : argumentsOf site parens s = (arguments, s'))
    (applied' : argumentsOf site parens' t = (arguments', t')) :
    arguments.rename f = arguments'.rename f := by
  rcases argumentsOf_cases applied with ⟨rfl, -⟩ | ⟨rfl, rfl, -⟩ <;>
    rcases argumentsOf_cases applied' with ⟨rfl, -⟩ | ⟨rfl, rfl, -⟩
  · simpa using alike
  · simp at alike
  · simp at alike
  · simp [SequenceOf.rename, new]

/-- A call selects the same from both states, for arguments that are the same up to the identities
of new nodes. -/
theorem Input.SameState.applied {stack : Stack} {site : Reference} {parens parens' : Option Node}
    {binding : Binding} {c : Callable} {receiver : Option String}
    {overloads : OverloadSet (Signature c)}
    {resolve : Node → Span → Except Diagnostic (Signature c)} {arguments : Node}
    (same : input.SameState s t) (bound : lookup input.scope stack site = .ok binding)
    (calls : binding.Calls receiver overloads resolve)
    (alike : parens.map (Node.rename input.blur) = parens'.map (Node.rename input.blur))
    (applied : argumentsOf site parens s = (arguments, s')) :
    ∃ arguments' t', argumentsOf site parens' t = (arguments', t') ∧
      resolve arguments site.span = resolve arguments' site.span ∧ input.SameState s' t' := by
  rcases applied' : argumentsOf site parens' t with ⟨arguments', t'⟩
  have supplied := argumentsOf_congr same.blur_eq alike applied applied'
  exact ⟨arguments', t', rfl,
    calls.resolve_congr input.keepsApart_blur input.declares.within (found_of_lookup bound) supplied
      site.span,
    same.of_allots (allots_of_argumentsOf applied) (allots_of_argumentsOf applied')⟩

/-- A list or a block is rebuilt to the same from both states. -/
theorem Input.SameState.sequence {node resolved : Sequence} {items items' : List Node}
    (same : input.SameState s t) (below : ∀ item ∈ node.items, item ∈ input.graph)
    (alike : items.map (Node.rename input.blur) = items'.map (Node.rename input.blur))
    (rebuilt : rebuildSequence node items s = (resolved, s')) :
    ∃ resolved' t', rebuildSequence node items' t = (resolved', t') ∧
      resolved.rename input.blur = resolved'.rename input.blur ∧ input.SameState s' t' := by
  rcases rebuilt' : rebuildSequence node items' t with ⟨resolved', t'⟩
  exact ⟨resolved', t', rfl,
    rebuildSequence_congr input.keepsApart_blur same.blur_eq below alike rebuilt rebuilt',
    same.of_allots (allots_of_rebuildSequence rebuilt) (allots_of_rebuildSequence rebuilt')⟩

/-- A dim is rebuilt to the same from both states. -/
theorem Input.SameState.dim {dim resolved : Dim} {extent extent' : Node}
    (same : input.SameState s t) (inside : .dim dim ∈ input.graph)
    (alike : extent.rename input.blur = extent'.rename input.blur)
    (rebuilt : rebuildDim dim extent s = (resolved, s')) :
    ∃ resolved' t', rebuildDim dim extent' t = (resolved', t') ∧
      resolved.rename input.blur = resolved'.rename input.blur ∧ input.SameState s' t' := by
  rcases rebuilt' : rebuildDim dim extent' t with ⟨resolved', t'⟩
  exact ⟨resolved', t', rfl,
    rebuildDim_congr input.keepsApart_blur same.blur_eq inside alike rebuilt rebuilt',
    same.of_allots (allots_of_rebuildDim rebuilt) (allots_of_rebuildDim rebuilt')⟩

/-- A signature is rebuilt to the same from both states. -/
theorem Input.SameState.signature {c : Callable} {signature resolved : Signature c}
    {body body' : Node} (same : input.SameState s t) (inside : signature.node ∈ input.graph)
    (alike : body.rename input.blur = body'.rename input.blur)
    (rebuilt : rebuildSignature signature body s = (resolved, s')) :
    ∃ resolved' t', rebuildSignature signature body' t = (resolved', t') ∧
      resolved.rename input.blur = resolved'.rename input.blur ∧ input.SameState s' t' := by
  rcases rebuilt' : rebuildSignature signature body' t with ⟨resolved', t'⟩
  exact ⟨resolved', t', rfl,
    rebuildSignature_congr input.keepsApart_blur same.blur_eq inside alike rebuilt rebuilt',
    same.of_allots (allots_of_rebuildSignature rebuilt) (allots_of_rebuildSignature rebuilt')⟩

/-- A use site is rebuilt to the same from both states. -/
theorem Input.SameState.reference {site resolved : Reference}
    {brackets brackets' parens parens' : Option Node} {meaning meaning' : Option Meaning}
    (same : input.SameState s t) (inside : .reference site ∈ input.graph)
    (bracketsAlike :
      brackets.map (Node.rename input.blur) = brackets'.map (Node.rename input.blur))
    (parensAlike : parens.map (Node.rename input.blur) = parens'.map (Node.rename input.blur))
    (alike : meaning.map (Meaning.rename input.blur) = meaning'.map (Meaning.rename input.blur))
    (rebuilt : rebuildReference site brackets parens meaning s = (resolved, s')) :
    ∃ resolved' t', rebuildReference site brackets' parens' meaning' t = (resolved', t') ∧
      resolved.rename input.blur = resolved'.rename input.blur ∧ input.SameState s' t' := by
  rcases rebuilt' : rebuildReference site brackets' parens' meaning' t with ⟨resolved', t'⟩
  exact ⟨resolved', t', rfl,
    rebuildReference_congr input.keepsApart_blur same.blur_eq inside bracketsAlike parensAlike
      alike rebuilt rebuilt',
    same.of_allots (allots_of_rebuildReference rebuilt) (allots_of_rebuildReference rebuilt')⟩

section Follows

variable {first : NodeId} {later : input.next ≤ first}

/-- A use site is met with arguments that are the same up to the identities of new nodes. -/
theorem Input.Allows.follow {stack : Stack} {site : Reference} {parens parens' : Option Node}
    {meaning : Option Meaning} (allowed : input.Allows stack (.meaning site parens meaning))
    (alike : parens.map (Node.rename input.blur) = parens'.map (Node.rename input.blur))
    (meaning' : Option Meaning) :
    (input.startingAt first later).Allows stack (.meaning site parens' meaning') where
  stack := allowed.stack
  job := by
    obtain ⟨inside, isSome⟩ := allowed.job
    exact ⟨inside, by rw [← isSome, ← Option.isSome_map, ← alike, Option.isSome_map]⟩

variable (later) in
/-- A run is followed from every later first identity. -/
theorem Run.follows {stack : Stack} {job : Job} (run : Run input stack s job s')
    (same : input.SameState s t) :
    job.Followed input (input.startingAt first later) stack t s' := by
  induction run generalizing t with
  | @literal stack _ node allowed =>
      exact ⟨.literal node, t, .literal ⟨allowed.stack, allowed.job⟩, rfl, same⟩
  | @typeRef stack _ node allowed =>
      exact ⟨.typeRef node, t, .typeRef ⟨allowed.stack, allowed.job⟩, rfl, same⟩
  | @param stack _ node allowed =>
      exact ⟨.param node, t, .param ⟨allowed.stack, allowed.job⟩, rfl, same⟩
  | @list _ _ _ _ node _ _ allowed run rebuilt induction =>
      obtain ⟨items, t₁, run', alike, same⟩ := induction same
      have below : ∀ item ∈ node.items, item ∈ input.graph :=
        fun item member => input.graph.mem_child allowed.job member
      obtain ⟨resolved, t₂, rebuilt', alike, same⟩ := same.sequence below alike rebuilt
      exact ⟨.list resolved, t₂, .list ⟨allowed.stack, allowed.job⟩ run' rebuilt',
        by simp [alike], same⟩
  | @block _ _ _ _ node _ _ allowed run rebuilt induction =>
      obtain ⟨items, t₁, run', alike, same⟩ := induction same
      have below : ∀ item ∈ node.items, item ∈ input.graph :=
        fun item member => input.graph.mem_child allowed.job member
      obtain ⟨resolved, t₂, rebuilt', alike, same⟩ := same.sequence below alike rebuilt
      exact ⟨.block resolved, t₂, .block ⟨allowed.stack, allowed.job⟩ run' rebuilt',
        by simp [alike], same⟩
  | dim allowed run induction =>
      obtain ⟨resolved, t₁, run', alike, same⟩ := induction same
      exact ⟨.dim resolved, t₁, .dim ⟨allowed.stack, allowed.job⟩ run', congrArg Node.dim alike,
        same⟩
  | function allowed run induction =>
      obtain ⟨resolved, t₁, run', alike, same⟩ := induction same
      exact ⟨.function resolved, t₁, .function ⟨allowed.stack, allowed.job⟩ run',
        congrArg Node.function alike, same⟩
  | method allowed run induction =>
      obtain ⟨resolved, t₁, run', alike, same⟩ := induction same
      exact ⟨.method resolved, t₁, .method ⟨allowed.stack, allowed.job⟩ run',
        congrArg Node.method alike, same⟩
  | remembered allowed found =>
      obtain ⟨resolved, found', alike⟩ := exists_of_map_eq (same.uses _) found
      exact ⟨.reference resolved, t, .remembered ⟨allowed.stack, allowed.job⟩ found',
        by simp [alike], same⟩
  | reference allowed missing bracketsRun parensRun meaningRun rebuilt brackets parens meaning =>
      have missing' := find?_eq_none_of_map_eq (same.uses _) missing
      obtain ⟨brackets', t₁, bracketsRun', bracketsAlike, same⟩ := brackets same
      obtain ⟨parens', t₂, parensRun', parensAlike, same⟩ := parens same
      obtain ⟨meaning', t₃, meaningRun', alike, same⟩ := meaning same parens' parensAlike
      obtain ⟨resolved, t₄, rebuilt', alike, same⟩ :=
        same.reference allowed.job bracketsAlike parensAlike alike rebuilt
      exact ⟨.reference resolved, _, .reference ⟨allowed.stack, allowed.job⟩ missing' bracketsRun'
        parensRun' meaningRun' rebuilt', by simp [alike], same.rememberUse alike _ _⟩
  | nil allowed => exact ⟨[], t, .nil ⟨allowed.stack, allowed.job⟩, rfl, same⟩
  | cons allowed itemRun itemsRun item items =>
      obtain ⟨resolved, t₁, itemRun', itemAlike, same⟩ := item same
      obtain ⟨resolvedItems, t₂, itemsRun', itemsAlike, same⟩ := items same
      exact ⟨resolved :: resolvedItems, t₂, .cons ⟨allowed.stack, allowed.job⟩ itemRun' itemsRun',
        congrArg₂ List.cons itemAlike itemsAlike, same⟩
  | noChild allowed => exact ⟨none, t, .noChild ⟨allowed.stack, allowed.job⟩, rfl, same⟩
  | child allowed run induction =>
      obtain ⟨resolved, t₁, run', alike, same⟩ := induction same
      exact ⟨some resolved, t₁, .child ⟨allowed.stack, allowed.job⟩ run', congrArg some alike,
        same⟩
  | dimRemembered allowed found =>
      obtain ⟨resolved, found', alike⟩ := exists_of_map_eq (same.dims _) found
      exact ⟨resolved, t, .dimRemembered ⟨allowed.stack, allowed.job⟩ found', alike, same⟩
  | @dimInProgress _ _ dim allowed missing resolving =>
      have missing' := find?_eq_none_of_map_eq (same.dims _) missing
      exact ⟨dim, t, .dimInProgress ⟨allowed.stack, allowed.job⟩ missing' resolving, rfl, same⟩
  | dimFresh allowed missing idle run rebuilt induction =>
      have missing' := find?_eq_none_of_map_eq (same.dims _) missing
      obtain ⟨extent, t₁, run', alike, same⟩ := induction same
      obtain ⟨resolved, t₂, rebuilt', alike, same⟩ := same.dim allowed.job alike rebuilt
      exact ⟨resolved, _, .dimFresh ⟨allowed.stack, allowed.job⟩ missing' idle run' rebuilt', alike,
        same.rememberDim alike _⟩
  | signatureRemembered allowed found =>
      obtain ⟨resolved, found', alike⟩ := exists_of_map_eq (same.signatures _ _) found
      exact ⟨resolved, t, .signatureRemembered ⟨allowed.stack, allowed.job⟩ found', alike, same⟩
  | @signatureInProgress _ _ _ _ signature allowed missing resolving =>
      have missing' := find?_eq_none_of_map_eq (same.signatures _ _) missing
      exact ⟨signature, t, .signatureInProgress ⟨allowed.stack, allowed.job⟩ missing' resolving, rfl,
        same⟩
  | signatureFresh allowed missing idle run rebuilt induction =>
      have missing' := find?_eq_none_of_map_eq (same.signatures _ _) missing
      obtain ⟨body, t₁, run', alike, same⟩ := induction same
      obtain ⟨resolved, t₂, rebuilt', alike, same⟩ := same.signature allowed.job alike rebuilt
      exact ⟨resolved, _, .signatureFresh ⟨allowed.stack, allowed.job⟩ missing' idle run' rebuilt',
        alike, same.rememberSignature alike _⟩
  | skipped allowed unknown =>
      intro parens' alike
      have unknown' := unknown ∘ (known_congr alike).mpr
      exact ⟨none, t, .skipped (allowed.follow alike _) unknown', rfl, same⟩
  | unbound allowed known failed =>
      intro parens' alike
      have known' := (known_congr alike).mp known
      exact ⟨none, _, .unbound (allowed.follow alike _) known' failed, rfl, same.withError _⟩
  | paramMeant allowed known bound =>
      intro parens' alike
      have known' := (known_congr alike).mp known
      exact ⟨_, _, .paramMeant (allowed.follow alike _) known' bound, rfl, same.withEvent _ _⟩
  | dimMeant allowed known bound run induction =>
      intro parens' alike
      have known' := (known_congr alike).mp known
      obtain ⟨resolved, t₁, run', alike', same⟩ := induction same
      exact ⟨_, _, .dimMeant (allowed.follow alike _) known' bound run',
        by simp [Meaning.rename, TargetOf.rename, alike'], same.withEvent _ _⟩
  | refused allowed known bound calls applied failed =>
      intro parens' alike
      have known' := (known_congr alike).mp known
      obtain ⟨arguments, t₁, applied', answers, same⟩ := same.applied bound calls alike applied
      exact ⟨none, _, .refused (allowed.follow alike _) known' bound calls applied'
        (answers ▸ failed), rfl, (same.withEvent _ _).withError _⟩
  | recursive allowed known bound calls applied selects resolving =>
      intro parens' alike
      have known' := (known_congr alike).mp known
      obtain ⟨arguments, t₁, applied', answers, same⟩ := same.applied bound calls alike applied
      exact ⟨_, _, .recursive (allowed.follow alike _) known' bound calls applied'
        (answers ▸ selects) resolving, rfl, (same.withEvent _ _).withEvent _ _⟩
  | entered allowed known bound calls applied selects idle run induction =>
      intro parens' alike
      have known' := (known_congr alike).mp known
      obtain ⟨arguments, t₁, applied', answers, same⟩ := same.applied bound calls alike applied
      obtain ⟨resolved, t₂, run', alike', same⟩ := induction (same.withEvent _ _)
      exact ⟨_, _, .entered (allowed.follow alike _) known' bound calls applied'
        (answers ▸ selects) idle run', congrArg some (rename_meaning_congr alike'),
        same.withEvent _ _⟩

variable (later) in
theorem ItemRun.follows {item resolved : Item} (run : ItemRun input s item resolved s')
    (same : input.SameState s t) :
    ∃ resolved' t', ItemRun (input.startingAt first later) t item resolved' t' ∧
      resolved.rename input.blur = resolved'.rename input.blur ∧ input.SameState s' t' := by
  cases run with
  | dim run =>
      obtain ⟨resolved', t', run', alike, same⟩ := run.follows later same
      exact ⟨.dim resolved', t', .dim run', congrArg Item.dim alike, same⟩
  | function run =>
      obtain ⟨resolved', t', run', alike, same⟩ := run.follows later same
      exact ⟨.function resolved', t', .function run', congrArg Item.function alike, same⟩
  | @method _ receiver _ _ run =>
      obtain ⟨resolved', t', run', alike, same⟩ := run.follows later same
      exact ⟨.method receiver resolved', t', .method run', congrArg (Item.method receiver) alike,
        same⟩

variable (later) in
theorem ItemsRun.follows {items resolved : List Item} (run : ItemsRun input s items resolved s')
    (same : input.SameState s t) :
    ∃ resolved' t', ItemsRun (input.startingAt first later) t items resolved' t' ∧
      resolved.map (Item.rename input.blur) = resolved'.map (Item.rename input.blur) ∧
      input.SameState s' t' := by
  induction run generalizing t with
  | nil => exact ⟨[], t, .nil, rfl, same⟩
  | cons itemRun _ induction =>
      obtain ⟨resolved, t₁, itemRun', alike, same⟩ := itemRun.follows later same
      obtain ⟨resolvedItems, t₂, itemsRun', itemsAlike, same⟩ := induction same
      exact ⟨resolved :: resolvedItems, t₂, .cons itemRun' itemsRun',
        congrArg₂ List.cons alike itemsAlike, same⟩

theorem Input.sameState_initial :
    input.SameState input.initial (input.startingAt first later).initial where
  next := Nat.le_refl input.next
  next' := later
  dims _ := rfl
  signatures c _ := by cases c <;> rfl
  uses _ := rfl
  errors := rfl

end Follows

/-- From every later first identity the items are resolved to the same, up to the identities of new
nodes, and with the same errors. -/
theorem Input.resolved_startingAt (input : Input) {first : NodeId} (later : input.next ≤ first) :
    (input.startingAt first later).resolved.items.map (Item.rename input.blur) =
        input.resolved.items.map (Item.rename input.blur) ∧
      (input.startingAt first later).resolved.errors = input.resolved.errors := by
  obtain ⟨resolved, final, run, alike, same⟩ := input.itemsRun.follows later input.sameState_initial
  obtain ⟨items, last⟩ := ItemsRun.unique (input.startingAt first later).itemsRun run
  rw [errors_resolved, errors_resolved, items, last]
  exact ⟨alike.symm, same.errors.symm⟩

end ModelLang.Resolution
