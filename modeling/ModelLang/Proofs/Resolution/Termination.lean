import ModelLang.Proofs.Resolution.Pass

/-!
# The pass ends

The pass goes one level deeper only where it opens a declaration, and it opens one only if it is
not marked.  So the declarations of the frames are different ones, and a pass through as many
levels as there are declarations comes to its end, whatever calls what.  What it returns is what
the walk returns.
-/

namespace ModelLang.Resolution

open Pass

/-- The pass through the levels that are left above a stack. -/
def Input.passAbove (input : Input) (levels : Nat) (stack : Stack) : Pass.Walk :=
  Pass.visit input.scope (levels - stack.length)

/-- The pass over a node that is met on top of a stack. -/
def Input.passHere (input : Input) (levels : Nat) (stack : Stack) (node : Node) : PassM Node :=
  (Pass.resolving input.scope (input.passAbove levels stack)).visit node

/-- The pass carries out a job. -/
def Job.Passes (input : Input) (levels : Nat) (stack : Stack) (s s' : State) : Job → Prop
  | node given returned => Yields input stack s (input.passHere levels stack given) returned s'
  | items given returned =>
      Yields input stack s
        (Traversal.runAll (given.map fun item _ => input.passHere levels stack item)) returned s'
  | child given returned =>
      Yields input stack s
        (Traversal.runChild (given.map fun child _ => input.passHere levels stack child)) returned
        s'
  | dim given returned =>
      Yields input stack s (Pass.resolveDim (input.passAbove levels stack) given) returned s'
  | signature receiver given returned =>
      Yields input stack s (Pass.resolveSignature (input.passAbove levels stack) receiver given)
        returned s'
  | meaning site parens returned =>
      Yields input stack s
        (Pass.findMeaning input.scope (input.passAbove levels stack) site parens) returned s'

section Runs

variable {input : Input} {levels : Nat} {stack : Stack} {s s' s₁ s₂ : State} {job : Job}

/-! ## The declarations of the frames -/

/-- A call opens only declarations that are met. -/
theorem Job.Met.opened {call : Call} {declaration : Node} (met : call.job.Met input call.stack)
    (opens : call.Opens declaration) : declaration ∈ input.declarations := by
  cases opens with
  | dim | signature => exact ⟨_, met⟩

/-- A call is made in frames of different declarations that are met. -/
theorem Input.Makes.frames_met {call : Call} (made : input.Makes call) :
    call.stack.Met input := by
  refine made.induct (P := fun call => call.stack.Met input) ?_ ?_
  · intro index call opens
    rw [opens.stack_eq]
    exact ⟨.nil, by simp⟩
  · intro call index inner made met starts
    rcases starts.same_or_opens with same | ⟨-, declaration, frame, opens, isFrame, pushed⟩
    · rwa [same]
    · rw [pushed]
      exact met.push (made.met.opened opens) (opens.frame isFrame) opens.idle

/-- The contents of a declaration that is opened are walked over one level deeper. -/
theorem Input.passAbove_push (enough : input.declarations.ncard ≤ levels) {frame : Frame}
    (met : Stack.Met input (frame :: stack)) (node : Node) :
    input.passAbove levels stack node = input.passHere levels (frame :: stack) node := by
  have room : stack.length + 1 ≤ levels := met.length_le.trans enough
  have here : levels - stack.length = levels - (frame :: stack).length + 1 := by
    rw [List.length_cons]
    omega
  rw [passAbove, here]
  rfl

/-! ## One more declaration -/

theorem State.adds_rememberDim {dim resolved : Dim} (unknown : ¬ s.Knows (.dim dim)) :
    s.Adds (.dim dim) (s.rememberDim dim.id resolved) where
  grows := by
    refine .rememberDim (.refl s) ?_ resolved
    exact Option.eq_none_iff_forall_ne_some.mpr fun found isFound => unknown ⟨found, isFound⟩
  knows := ⟨resolved, Table.find?_insert_self _ _ _⟩
  others other := ⟨Table.find?_insert_ne _ _ other, fun _ => s.signature?_rememberDim _ _ _⟩

theorem State.adds_rememberSignature {c : Callable} {signature resolved : Signature c}
    (unknown : ¬ s.Knows signature.node) :
    s.Adds signature.node (s.rememberSignature signature.id resolved) where
  grows := by
    refine .rememberSignature (.refl s) ?_ resolved
    refine Option.eq_none_iff_forall_ne_some.mpr fun found isFound => unknown ?_
    exact State.knows_signature.mpr ⟨found, isFound⟩
  knows := State.knows_signature.mpr ⟨resolved, s.signature?_rememberSignature_self _ _⟩
  others other := by
    rw [SignatureOf.id_node] at other
    refine ⟨by rw [s.dims_rememberSignature], fun _ => ?_⟩
    exact s.signature?_rememberSignature_of_ne _ (.inl other)

/-! ## Use sites -/

namespace Pass.Yields

variable {walk : Pass.Walk} {site : Reference} {parens : Option Node}

theorem conclude_ok (ty : Ty) (target : Target) :
    Yields input stack s (conclude site (.ok (ty, target))) (some (ty, target))
      (s.withEvent (.resolved site target ty)) :=
  (record _).bind (.pure _)

theorem conclude_error (error : Diagnostic) :
    Yields input stack s (conclude site (.error error)) none (s.withError error) :=
  (lift rfl (.withError _ _) fun _ => ⟨rfl, fun _ => s.signature?_withError error _⟩ :
    Yields input stack s (Pass.lift (report error)) () (s.withError error)).bind (.pure _)

/-- A use site with a binding has the meaning of the binding. -/
theorem findMeaning {binding : Binding} {outcome : Except Diagnostic Meaning}
    {meaning : Option Meaning} (known : Known parens)
    (bound : lookup input.scope stack site = .ok binding)
    (meant : Yields input stack s (interpret walk site parens binding) outcome s₁)
    (concludes : Yields input stack s₁ (conclude site outcome) meaning s') :
    Yields input stack s (findMeaning input.scope walk site parens) meaning s' := by
  rw [Pass.findMeaning, if_neg (by simpa [Known] using known)]
  refine .read fun moment frames _ _ => ?_
  rw [frames, bound]
  exact meant.bind concludes

/-- A call means what is made of the overload that it selects. -/
theorem interpret {binding : Binding} {c : Callable} {receiver : Option String}
    {overloads : OverloadSet (Signature c)}
    {resolve : Node → Span → Except Diagnostic (Signature c)} {arguments : Node}
    {outcome : Except Diagnostic Meaning} (calls : binding.Calls receiver overloads resolve)
    (applied : argumentsOf site parens s = (arguments, s₁))
    (meant : Yields input stack (s₁.withEvent (overloads.choosing arguments))
      (match resolve arguments site.span with
        | .ok selected => do return .ok (← enter walk receiver selected)
        | .error error => return .error error) outcome s') :
    Yields input stack s (interpret walk site parens binding) outcome s' := by
  have called :
      Yields input stack s (call walk site parens receiver overloads resolve) outcome s' :=
    (lift_allots applied (allots_of_argumentsOf applied)).bind ((record _).bind meant)
  cases calls <;> exact called

end Pass.Yields

/-! ## The pass follows the run -/

theorem Run.passes (enough : input.declarations.ncard ≤ levels) (run : Run input stack s job s')
    (made : input.Makes ⟨stack, s, job, s'⟩) : job.Passes input levels stack s s' := by
  induction run with
  | literal | typeRef => exact .pure _
  | param => exact ⟨fun orderly stands => ⟨_, rfl, orderly, stands⟩⟩
  | list allowed run rebuilt induction =>
      have items := induction (made.starts (.list run rebuilt))
      simp only [Job.Passes, Input.passHere] at items ⊢
      rw [Traversal.visit_list]
      exact (items.bind (.lift_allots rebuilt (allots_of_rebuildSequence rebuilt))).map _
  | block allowed run rebuilt induction =>
      have items := induction (made.starts (.block run rebuilt))
      simp only [Job.Passes, Input.passHere] at items ⊢
      rw [Traversal.visit_block]
      exact (items.bind (.lift_allots rebuilt (allots_of_rebuildSequence rebuilt))).map _
  | dim allowed run induction => exact (induction (made.starts (.dim run))).map _
  | function allowed run induction => exact (induction (made.starts (.function run))).map _
  | method allowed run induction =>
      have method := induction (made.starts (.method run))
      exact .read fun moment frames _ _ => by
        rw [frames]
        exact method.map _
  | remembered allowed found =>
      simp only [Job.Passes, Input.passHere]
      rw [Traversal.visit_reference]
      refine .map _ (.read fun moment frames state _ => ?_)
      rw [state, frames, found]
      exact .pure _
  | reference allowed missing bracketsRun parensRun meaningRun rebuilt brackets parens meaning =>
      have visits : input.Visits _ _ _ _ _ _ _ _ _ _ _ :=
        ⟨missing, bracketsRun, parensRun, meaningRun, by rw [rebuilt], by rw [rebuilt]⟩
      have brackets := brackets (made.starts (.brackets visits))
      have parens := parens (made.starts (.parens visits))
      have meaning := meaning (made.starts (.meaning visits))
      simp only [Job.Passes, Input.passHere] at brackets parens meaning ⊢
      rw [Traversal.visit_reference]
      refine .map _ (.read fun moment frames state _ => ?_)
      rw [state, frames, missing]
      refine brackets.bind (parens.bind (meaning.bind ?_))
      refine (Yields.lift_allots rebuilt (allots_of_rebuildReference rebuilt)).bind ?_
      refine .bind (.lift rfl (.rememberUse _ _ _ _) fun _ => ?_) (.pure _)
      exact ⟨rfl, fun _ => State.signature?_rememberUse _ _ _ _ _⟩
  | nil => exact .pure _
  | cons allowed itemRun itemsRun item items =>
      have item := item (made.starts (.head itemRun itemsRun))
      have items := items (made.starts (.tail itemRun itemsRun))
      exact item.bind (items.bind (.pure _))
  | noChild => exact .pure _
  | child allowed run induction => exact (induction (made.starts (.child run))).map _
  | dimRemembered allowed found =>
      refine .read fun moment _ state _ => ?_
      rw [state, found]
      exact .pure _
  | dimInProgress allowed missing resolving =>
      refine .read fun moment _ state marks => ?_
      rw [state, missing]
      dsimp only
      rw [if_pos (marks.mpr resolving)]
      exact .pure _
  | @dimFresh stack s₀ s₁ s₂ dim extent resolved allowed missing idle run rebuilt induction =>
      have opens : Call.Opens ⟨stack, s₀, .dim dim resolved, s₂.rememberDim dim.id resolved⟩
          (.dim dim) := .dim missing idle
      have walked := made.starts (.extent missing idle run rebuilt rfl)
      refine .read fun moment _ state marks => ?_
      rw [state, missing]
      dsimp only
      rw [if_neg (fun marked => idle (marks.mp marked))]
      refine .openContents (made.met.opened opens) (.dim dim) idle opens.unknown ?_ rebuilt
        (allots_of_rebuildDim rebuilt) State.adds_rememberDim
      rw [input.passAbove_push enough walked.frames_met]
      exact induction walked
  | signatureRemembered allowed found =>
      refine .read fun moment _ state _ => ?_
      rw [state, found]
      exact .pure _
  | signatureInProgress allowed missing resolving =>
      refine .read fun moment _ state marks => ?_
      rw [state, missing]
      dsimp only
      rw [if_pos (marks.mpr resolving)]
      exact .pure _
  | @signatureFresh stack s₀ s₁ s₂ receiver body c signature resolved allowed missing idle run
      rebuilt induction =>
      have opens : Call.Opens ⟨stack, s₀, .signature receiver signature resolved,
          s₂.rememberSignature signature.id resolved⟩ signature.node := .signature missing idle
      have walked := made.starts (.body missing idle run rebuilt rfl)
      refine .read fun moment _ state marks => ?_
      rw [state, missing]
      dsimp only
      rw [if_neg (fun marked => idle (marks.mp marked))]
      refine .openContents (made.met.opened opens) (.signature signature receiver) opens.idle
        opens.unknown ?_ rebuilt (allots_of_rebuildSignature rebuilt) State.adds_rememberSignature
      rw [input.passAbove_push enough walked.frames_met]
      exact induction walked
  | skipped allowed unknown =>
      simp only [Job.Passes, Pass.findMeaning]
      rw [if_pos (by simpa [Known] using unknown)]
      exact .pure _
  | unbound allowed known failed =>
      simp only [Job.Passes, Pass.findMeaning]
      rw [if_neg (by simpa [Known] using known)]
      refine .read fun moment frames _ _ => ?_
      rw [frames, failed]
      exact .conclude_error _
  | paramMeant allowed known bound =>
      exact .findMeaning known bound (.pure _) (.conclude_ok _ _)
  | dimMeant allowed known bound run induction =>
      have dim := induction (made.starts (.target known bound run rfl rfl))
      exact .findMeaning known bound (dim.bind (.pure _)) (.conclude_ok _ _)
  | refused allowed known bound calls applied failed =>
      refine .findMeaning known bound (.interpret calls applied ?_) (.conclude_error _)
      rw [failed]
      exact .pure _
  | recursive allowed known bound calls applied selects resolving =>
      refine .findMeaning known bound (.interpret calls applied ?_) (.conclude_ok _ _)
      rw [selects]
      refine .bind (.read fun moment _ _ marks => ?_) (.pure _)
      rw [if_pos (marks.mpr resolving)]
      exact .pure _
  | entered allowed known bound calls applied selects idle run induction =>
      have enters := made.starts (.entered known bound calls applied selects idle run rfl rfl)
      refine .findMeaning known bound (.interpret calls applied ?_) (.conclude_ok _ _)
      rw [selects]
      refine .bind (.read fun moment _ _ marks => ?_) (.pure _)
      rw [if_neg fun marked => idle (marks.mp marked)]
      exact (induction enters).bind (.pure _)

theorem ItemRun.passes (enough : input.declarations.ncard ≤ levels) {item resolved : Item}
    (run : ItemRun input s item resolved s')
    (made : ∀ {job : Job}, job.Resolves item resolved → Run input [] s job s' →
      input.Makes ⟨[], s, job, s'⟩) :
    Yields input [] s (Pass.resolveItem (Pass.visit input.scope levels) item) resolved s' := by
  cases run with
  | dim run => exact (run.passes enough (made .dim run)).map _
  | function run => exact (run.passes enough (made .function run)).map _
  | method run => exact (run.passes enough (made .method run)).map _

theorem ItemsRun.passes (enough : input.declarations.ncard ≤ levels) {items resolved : List Item}
    (run : ItemsRun input s items resolved s')
    (made : ∀ {index call}, input.Opens s items index call → input.Makes call) :
    Yields input [] s (Pass.resolveItems (Pass.visit input.scope levels) items) resolved s' := by
  induction run with
  | nil => exact .pure _
  | cons itemRun _ induction =>
      have item := itemRun.passes enough fun resolves run => made (.here resolves run)
      have items := induction fun opens => made (.later itemRun opens)
      exact item.bind (items.bind (.pure _))

/-- The pass over the items ends outside of all declarations. -/
theorem Input.pass_eq_some (input : Input) (enough : input.declarations.ncard ≤ levels) :
    ∃ history, input.pass levels = some (input.resolved.items, history) ∧
      history.Orderly input ∧ history.now.Stands input [] input.final := by
  have yields := input.itemsRun.passes enough Input.Makes.of_opens
  have orderly : History.Orderly input { now := { state := input.initial } } := by
    refine ⟨fun moment member => ?_, List.pairwise_singleton _ _⟩
    obtain rfl := List.mem_singleton.mp member
    exact ⟨⟨.nil, by simp⟩, rfl, fun _ marked => absurd marked (Finset.notMem_empty _), .nil⟩
  exact yields.outcome orderly ⟨rfl, rfl, fun _ opened => absurd opened List.not_mem_nil⟩

/-- A resolution ends, whatever calls what: through as many levels as there are declarations to
meet, the pass returns what is resolved.  No two of its frames are for one declaration, so there
are never more frames than declarations. -/
theorem Input.pass_terminates (input : Input) :
    input.declarations.Finite ∧ ∀ {levels}, input.declarations.ncard ≤ levels →
      ∃ history, input.pass levels = some (input.resolved.items, history) ∧
        history.now.state = input.final ∧
          ∀ moment ∈ history.now :: history.past,
            (moment.frames.map Frame.declaration).Nodup ∧
              (∀ frame ∈ moment.frames, ∃ declaration ∈ input.declarations,
                Frame.Opens declaration frame) ∧
              moment.frames.length ≤ input.declarations.ncard := by
  refine ⟨input.finite_declarations, fun enough => ?_⟩
  obtain ⟨history, passes, orderly, stands⟩ := input.pass_eq_some enough
  refine ⟨history, passes, stands.state, fun moment member => ?_⟩
  have met := (orderly.moments moment member).frames
  exact ⟨met.distinct, met.opens, met.length_le⟩

end Runs

/-! ## Two functions that call each other -/

namespace MutualCalls

def noParams : Node := .list ⟨0, [], {}⟩
def callOdd : Reference := ⟨2, none, "odd", none, some (.list ⟨1, [], {}⟩), .unknown, none, {}⟩
def even : Signature .function :=
  ⟨4, "even", noParams, .block ⟨3, [.reference callOdd], {}⟩, {}⟩
def callEven : Reference := ⟨6, none, "even", none, some (.list ⟨5, [], {}⟩), .unknown, none, {}⟩
def odd : Signature .function :=
  ⟨8, "odd", noParams, .block ⟨7, [.reference callEven], {}⟩, {}⟩

def nodes : List Node :=
  [noParams, .list ⟨1, [], {}⟩, .reference callOdd, even.body, .function even,
    .list ⟨5, [], {}⟩, .reference callEven, odd.body, .function odd]

def graph : Graph :=
  .ofList nodes (by simp [nodes, noParams, callOdd, even, callEven, odd, Node.children])
    (by decide)

def overloads (candidate : Signature .function) : OverloadSet (Signature .function) :=
  ⟨candidate.name, [candidate]⟩

def scope₁ : Scope := { functions := ⟨[("even", overloads even)]⟩ }
def scope : Scope := { functions := ⟨[("even", overloads even), ("odd", overloads odd)]⟩ }

theorem mem_graph {signature : Signature .function} (h : signature ∈ [even, odd]) :
    (Item.function signature).node ∈ graph := by
  change Node.function signature ∈ nodes
  simp only [List.mem_cons, List.not_mem_nil, or_false] at h
  rcases h with rfl | rfl <;> simp [nodes]

theorem scope_declares : scope.Declares graph := by
  have first : scope₁.Declares graph := .declare .empty (mem_graph (by simp))
    (rfl : Scope.declare {} true (.function even) = .ok scope₁)
  exact .declare first (mem_graph (by simp))
    (rfl : Scope.declare scope₁ true (.function odd) = .ok scope)

def input : Input where
  graph
  scope
  items := [.function even]
  next := 9
  declares := scope_declares
  listed item member := by
    rw [List.mem_singleton.mp member]
    exact mem_graph (by simp)
  below {node} inside := (by decide : ∀ node ∈ nodes, node.id < 9) node inside

theorem mem_declarations {node : Node} (inside : node ∈ graph)
    (isDeclaration : node.contents?.isSome) : node ∈ [.function even, .function odd] := by
  replace inside : node ∈ nodes := inside
  simp only [nodes, List.mem_cons, List.not_mem_nil, or_false] at inside
  rcases inside with rfl | rfl | rfl | rfl | rfl | rfl | rfl | rfl | rfl <;>
    simp_all [Node.contents?, noParams, even, odd]

theorem ncard_declarations_le : input.declarations.ncard ≤ 2 :=
  input.ncard_declarations_le mem_declarations

end MutualCalls

open MutualCalls in
/-- The functions `even() {odd()}` and `odd() {even()}` are resolved on two levels; one level is not
enough for them. -/
theorem pass_terminates_mutualCalls :
    input.declarations.ncard ≤ 2 ∧ input.pass 1 = none ∧
      ∃ history, input.pass 2 = some (input.resolved.items, history) ∧
        ∀ moment ∈ history.now :: history.past, moment.frames.length ≤ 2 := by
  obtain ⟨history, passes, -, frames⟩ := input.pass_terminates.2 ncard_declarations_le
  refine ⟨ncard_declarations_le, rfl, history, passes, fun moment member => ?_⟩
  exact (frames moment member).2.2.trans ncard_declarations_le

end ModelLang.Resolution
