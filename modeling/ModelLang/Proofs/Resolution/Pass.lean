import Mathlib.Data.Set.Card
import ModelLang.Proofs.Resolution.Receivers

/-!
# A pass that keeps its own record of what is in progress

The walk is told which declarations are in progress: they are those of the frames that it is given.
A pass that runs on one store has no such argument.  It pushes a frame and marks a declaration
before it walks over the contents, and takes both back afterwards; whether a declaration is in
progress it reads from the marks, and the name of a use site it looks up in the top frame.  The pass
has no result when it runs out of levels, and it keeps every moment that it comes through.

The central statement is a triple: carried out by the pass, a part of a resolution returns what the
walk returns, and leaves the frames and the marks as they were; all moments on the way are orderly.
-/

namespace ModelLang.Resolution

/-- Where a pass stands. -/
structure Moment where
  /-- The frames that were pushed and not popped, the innermost first. -/
  frames : Stack := []
  /-- The declarations that are marked as in progress. -/
  inProgress : Finset NodeId := ∅
  /-- The declarations whose contents were ever walked over, the last one first. -/
  opened : List NodeId := []
  state : State

namespace Moment

/-- Push a frame and mark its declaration. -/
def enter (frame : Frame) (moment : Moment) : Moment :=
  { moment with
    frames := frame :: moment.frames
    inProgress := insert frame.declaration moment.inProgress
    opened := frame.declaration :: moment.opened }

/-- Pop a frame and take the mark of its declaration back. -/
def leave (frame : Frame) (moment : Moment) : Moment :=
  { moment with
    frames := moment.frames.tail
    inProgress := moment.inProgress.erase frame.declaration }

end Moment

/-- The moment at which a pass stands, and those that it came through, the last one first. -/
structure History where
  now : Moment
  past : List Moment := []

/-- A computation of the pass; it may end without a result. -/
abbrev PassM := StateT History Option

namespace Pass

/-- The present moment. -/
def now : PassM Moment := do
  return (← get).now

/-- Move on to another moment. -/
def move (f : Moment → Moment) : PassM Unit :=
  modify fun history => { now := f history.now, past := history.now :: history.past }

/-- Compute with what is known. -/
def lift {α : Type} (x : ResolveM α) : PassM α := fun history =>
  let (result, state) := x history.now.state
  some (result, { now := { history.now with state }, past := history.now :: history.past })

/-- Walk over a node. -/
abbrev Walk := Node → PassM Node

/-- Resolve the contents of a declaration in a frame of their own, and remember the outcome. -/
def openContents {α : Type} (walk : Walk) (frame : Frame) (contents : Node)
    (rebuild : Node → ResolveM α) (remember : α → State → State) : PassM α := do
  move (.enter frame)
  let returned ← walk contents
  move (.leave frame)
  let resolved ← lift (rebuild returned)
  lift (modify (remember resolved))
  return resolved

/-- Resolve the extent of a dim. -/
def resolveDim (walk : Walk) (dim : Dim) : PassM Dim := do
  let moment ← now
  match moment.state.dims.find? dim.id with
  | some resolved => return resolved
  | none =>
      if dim.id ∈ moment.inProgress then return dim
      else
        openContents walk (.extent dim.id) dim.extent (rebuildDim dim) (State.rememberDim dim.id)

/-- Resolve the body of a signature inside a receiver. -/
def resolveSignature {c : Callable} (walk : Walk) (receiver : Option String)
    (signature : Signature c) : PassM (Signature c) := do
  let moment ← now
  match moment.state.signature? c signature.id with
  | some resolved => return resolved
  | none =>
      if signature.id ∈ moment.inProgress then return signature
      else
        openContents walk (.body signature.id receiver signature.formals) signature.body
          (rebuildSignature signature) (State.rememberSignature signature.id)

/-- Use the overload that a call selected. -/
def enter {c : Callable} (walk : Walk) (receiver : Option String) (selected : Signature c) :
    PassM Meaning := do
  let moment ← now
  if selected.id ∈ moment.inProgress then return (.unknown, .signature selected)
  else
    let resolved ← resolveSignature walk receiver selected
    return (resolved.body.ty, .signature resolved)

/-- Call the overload that `resolve` selects from overloads inside a receiver. -/
def call {c : Callable} (walk : Walk) (site : Reference) (parens : Option Node)
    (receiver : Option String) (overloads : OverloadSet (Signature c))
    (resolve : Node → Span → Except Diagnostic (Signature c)) :
    PassM (Except Diagnostic Meaning) := do
  let arguments ← lift (argumentsOf site parens)
  lift (record (overloads.choosing arguments))
  match resolve arguments site.span with
  | .ok selected => return .ok (← enter walk receiver selected)
  | .error error => return .error error

/-- The meaning of a use site from what its name stands for. -/
def interpret (walk : Walk) (site : Reference) (parens : Option Node) :
    Binding → PassM (Except Diagnostic Meaning)
  | .param param => return .ok (param.ty, .param param)
  | .dim dim => do
      let resolved ← resolveDim walk dim
      return .ok (.int, .dim resolved)
  | .function overloads => call walk site parens none overloads overloads.resolve
  | .method method => call walk site parens (some method.receiver) method.overloads method.resolve

/-- Record the outcome of a lookup, or report its error. -/
def conclude (site : Reference) : Except Diagnostic Meaning → PassM (Option Meaning)
  | .ok (ty, target) => do
      lift (record (.resolved site target ty))
      return some (ty, target)
  | .error error => do
      lift (report error)
      return none

/-- The meaning of a use site whose children are resolved. -/
def findMeaning (scope : Scope) (walk : Walk) (site : Reference) (parens : Option Node) :
    PassM (Option Meaning) := do
  if parens.any (·.ty.hasUnknown) then return none
  else
    let moment ← now
    match lookup scope moment.frames site with
    | .ok binding => conclude site (← interpret walk site parens binding)
    | .error error => conclude site (.error error)

/-- Resolve a use site, unless the outcome for its owner is remembered. -/
def resolveReference (scope : Scope) (walk : Walk) (site : Reference)
    (brackets parens : Option (ChildWalk PassM)) : PassM Reference := do
  let moment ← now
  match moment.state.uses.find? (site.id, moment.frames.owner?) with
  | some resolved => return resolved
  | none =>
      let brackets ← Traversal.runChild brackets
      let parens ← Traversal.runChild parens
      let meaning ← findMeaning scope walk site parens
      let resolved ← lift (rebuildReference site brackets parens meaning)
      lift (modify (State.rememberUse site.id moment.frames.owner? resolved))
      return resolved

/-- Resolve the items of a sequence. -/
def resolveSequence (sequence : Sequence) (items : List (ChildWalk PassM)) : PassM Sequence := do
  let items ← Traversal.runAll items
  lift (rebuildSequence sequence items)

/-- The pass as a traversal. -/
def resolving (scope : Scope) (walk : Walk) : Traversal PassM :=
  { Traversal.keeping with
    reference := fun site brackets parens =>
      .reference <$> resolveReference scope walk site brackets parens
    list := fun list items => .list <$> resolveSequence list items
    block := fun block items => .block <$> resolveSequence block items
    dim := fun dim _ => .dim <$> resolveDim walk dim
    function := fun signature _ _ => .function <$> resolveSignature walk none signature
    method := fun signature _ _ => do
      let moment ← now
      .method <$> resolveSignature walk moment.frames.receiver? signature }

/-- The pass through at most so many levels of declarations; on a deeper level it has no result. -/
def visit (scope : Scope) : Nat → Walk
  | 0, _ => failure
  | levels + 1, node => (resolving scope (visit scope levels)).visit node

/-- Resolve the declaration of an item. -/
def resolveItem (walk : Walk) : Item → PassM Item
  | .dim declared => .dim <$> resolveDim walk declared
  | .function declared => .function <$> resolveSignature walk none declared
  | .method receiver declared =>
      .method receiver <$> resolveSignature walk (some receiver) declared

/-- Resolve the declarations of items from first to last. -/
def resolveItems (walk : Walk) : List Item → PassM (List Item)
  | [] => pure []
  | item :: items => do
      let resolved ← resolveItem walk item
      let rest ← resolveItems walk items
      pure (resolved :: rest)

end Pass

/-- The pass over the items of an input, through at most so many levels of declarations. -/
def Input.pass (input : Input) (levels : Nat) : Option (List Item × History) :=
  (Pass.resolveItems (Pass.visit input.scope levels) input.items).run
    { now := { state := input.initial } }

/-! ## Orderly moments -/

section Orderly

variable (input : Input)

/-- The declarations that a resolution may open: those that are met. -/
def Input.declarations : Set Node :=
  {declaration | ∃ receiver, input.Meets declaration receiver}

variable {input} in
theorem Input.mem_graph_of_mem_declarations {declaration : Node}
    (member : declaration ∈ input.declarations) : declaration ∈ input.graph := by
  obtain ⟨receiver, met⟩ := member
  exact met.mem_graph

/-- There are finitely many declarations to open. -/
theorem Input.finite_declarations : input.declarations.Finite := by
  refine Set.Finite.of_injOn (f := Node.id) ?_ ?_ (Finset.range input.next).finite_toSet
  · intro declaration member
    exact Finset.mem_range.mpr (input.below (mem_graph_of_mem_declarations member))
  · intro declaration member other member' same
    exact input.graph.eq_of_id (mem_graph_of_mem_declarations member)
      (mem_graph_of_mem_declarations member') same

/-- There are no more declarations to open than there are in the graph. -/
theorem Input.ncard_declarations_le {nodes : List Node}
    (listed : ∀ {node}, node ∈ input.graph → node.contents?.isSome → node ∈ nodes) :
    input.declarations.ncard ≤ nodes.length := by
  classical
  have declarations : input.declarations ⊆ ↑nodes.toFinset := by
    rintro node ⟨receiver, met⟩
    exact List.mem_toFinset.mpr (listed met.mem_graph met.isSome_contents?)
  calc
    input.declarations.ncard ≤ (↑nodes.toFinset : Set Node).ncard :=
      Set.ncard_le_ncard declarations nodes.toFinset.finite_toSet
    _ = nodes.toFinset.card := Set.ncard_coe_finset _
    _ ≤ nodes.length := nodes.toFinset_card_le

/-- One more declaration is remembered in a later state. -/
structure State.Adds (declaration : Node) (s t : State) : Prop where
  grows : s.Grows t
  knows : t.Knows declaration
  others : ∀ {id}, id ≠ declaration.id → s.Agrees id t

/-- The frames of a stack are contexts of different declarations that are met. -/
structure Stack.Met (stack : Stack) : Prop where
  distinct : (stack.map Frame.declaration).Nodup
  opens : ∀ frame ∈ stack, ∃ declaration ∈ input.declarations, Frame.Opens declaration frame

/-- A moment is orderly: the frames are contexts of different declarations, and just these are
marked; none of them is remembered, and no contents were walked over twice. -/
structure Moment.Orderly (moment : Moment) : Prop where
  frames : moment.frames.Met input
  marks : moment.inProgress = (moment.frames.map Frame.declaration).toFinset
  unknown : ∀ {declaration}, declaration ∈ input.graph → declaration.id ∈ moment.inProgress →
    ¬ moment.state.Knows declaration
  once : moment.opened.Nodup

/-- All moments of a history are orderly, and nothing that is remembered is replaced later. -/
structure History.Orderly (history : History) : Prop where
  moments : ∀ moment ∈ history.now :: history.past, moment.Orderly input
  grows : (history.now :: history.past).Pairwise fun later earlier =>
    earlier.state.Grows later.state

/-- The pass stands on a stack in a state; the contents that were walked over are those of the
declarations in progress and of the declarations that are remembered. -/
structure Moment.Stands (stack : Stack) (s : State) (moment : Moment) : Prop where
  frames : moment.frames = stack
  state : moment.state = s
  settled : ∀ {declaration}, declaration ∈ input.graph → declaration.id ∈ moment.opened →
    stack.Resolving declaration.id ∨ s.Knows declaration

end Orderly

section Triples

variable {input : Input} {stack : Stack} {s s' s₁ s₂ : State} {history : History} {moment : Moment}

theorem Stack.Met.push {declaration : Node} {frame : Frame} (met : stack.Met input)
    (member : declaration ∈ input.declarations) (opens : Frame.Opens declaration frame)
    (idle : ¬ stack.Resolving declaration.id) : Stack.Met input (frame :: stack) where
  distinct := by
    rw [← opens.declaration_eq] at idle
    exact List.nodup_cons.mpr ⟨idle, met.distinct⟩
  opens := List.forall_mem_cons.mpr ⟨⟨declaration, member, opens⟩, met.opens⟩

theorem Stack.Met.pop {frame : Frame} (met : Stack.Met input (frame :: stack)) :
    stack.Met input where
  distinct := (List.nodup_cons.mp met.distinct).2
  opens := (List.forall_mem_cons.mp met.opens).2

/-- There are no more frames than declarations. -/
theorem Stack.Met.length_le (met : stack.Met input) :
    stack.length ≤ input.declarations.ncard := by
  have opened : ↑(stack.map Frame.declaration).toFinset ⊆ Node.id '' input.declarations := by
    intro id member
    obtain ⟨frame, here, rfl⟩ := List.mem_map.mp (List.mem_toFinset.mp member)
    obtain ⟨declaration, met, opens⟩ := met.opens frame here
    exact ⟨declaration, met, opens.declaration_eq.symm⟩
  calc
    stack.length = (stack.map Frame.declaration).toFinset.card := by
      rw [List.toFinset_card_of_nodup met.distinct, List.length_map]
    _ = (↑(stack.map Frame.declaration).toFinset : Set NodeId).ncard :=
      (Set.ncard_coe_finset _).symm
    _ ≤ (Node.id '' input.declarations).ncard :=
      Set.ncard_le_ncard opened (input.finite_declarations.image _)
    _ ≤ input.declarations.ncard := Set.ncard_image_le input.finite_declarations

/-- There is a mark for each frame. -/
theorem Moment.Orderly.mem_inProgress (orderly : moment.Orderly input) {id : NodeId} :
    id ∈ moment.inProgress ↔ moment.frames.Resolving id := by
  rw [orderly.marks, List.mem_toFinset]
  rfl

/-- The next moment of a history. -/
theorem History.Orderly.next (orderly : history.Orderly input) (proper : moment.Orderly input)
    (grows : history.now.state.Grows moment.state) :
    History.Orderly input ⟨moment, history.now :: history.past⟩ where
  moments := List.forall_mem_cons.mpr ⟨proper, orderly.moments⟩
  grows := by
    refine List.pairwise_cons.mpr ⟨List.forall_mem_cons.mpr ⟨grows, ?_⟩, orderly.grows⟩
    intro earlier member
    exact ((List.pairwise_cons.mp orderly.grows).1 earlier member).trans grows

/-- A state that remembers the same declarations is as good. -/
theorem Moment.Orderly.withState (orderly : moment.Orderly input)
    (agrees : ∀ declared, moment.state.Agrees declared s') :
    Moment.Orderly input { moment with state := s' } where
  frames := orderly.frames
  marks := orderly.marks
  unknown inside marked := by
    rw [(agrees _).knows_iff]
    exact orderly.unknown inside marked
  once := orderly.once

/-- A declaration that is neither in progress nor remembered is opened. -/
theorem Moment.Orderly.enter {declaration : Node} {frame : Frame} (orderly : moment.Orderly input)
    (stands : moment.Stands input stack s) (member : declaration ∈ input.declarations)
    (opens : Frame.Opens declaration frame) (idle : ¬ stack.Resolving declaration.id)
    (unknown : ¬ s.Knows declaration) :
    (moment.enter frame).Orderly input ∧ (moment.enter frame).Stands input (frame :: stack) s := by
  obtain ⟨rfl, rfl, settled⟩ := stands
  have inside := input.mem_graph_of_mem_declarations member
  refine ⟨⟨orderly.frames.push member opens idle, ?marks, ?unknown, ?once⟩, rfl, rfl, ?settled⟩
  case marks => simp only [Moment.enter, orderly.marks, List.map_cons, List.toFinset_cons]
  case unknown =>
    intro other otherInside marked
    rcases Finset.mem_insert.mp marked with same | marked
    · rw [opens.declaration_eq] at same
      obtain rfl := input.graph.eq_of_id otherInside inside same
      exact unknown
    · exact orderly.unknown otherInside marked
  case once =>
    refine List.nodup_cons.mpr ⟨fun opened => ?_, orderly.once⟩
    rw [opens.declaration_eq] at opened
    exact (settled inside opened).elim idle unknown
  case settled =>
    intro other otherInside opened
    rcases List.mem_cons.mp opened with same | opened
    · exact .inl (same ▸ List.mem_cons_self)
    · exact (settled otherInside opened).imp_left (List.mem_cons_of_mem _)

/-- The declaration of the top frame is not remembered. -/
theorem Moment.Orderly.unknown_top {declaration : Node} {frame : Frame}
    (orderly : moment.Orderly input) (top : moment.frames = frame :: stack)
    (inside : declaration ∈ input.graph) (opens : Frame.Opens declaration frame) :
    ¬ moment.state.Knows declaration := by
  refine orderly.unknown inside (orderly.mem_inProgress.mpr ?_)
  rw [top, ← opens.declaration_eq]
  exact List.mem_cons_self

/-- The declaration of the top frame is closed. -/
theorem Moment.Orderly.leave {frame : Frame} (orderly : moment.Orderly input)
    (top : moment.frames = frame :: stack) : (moment.leave frame).Orderly input := by
  have frames := orderly.frames
  have marks := orderly.marks
  rw [top] at frames marks
  refine ⟨?frames, ?marks, ?unknown, orderly.once⟩
  case frames =>
    simp only [Moment.leave, top, List.tail_cons]
    exact frames.pop
  case marks =>
    have idle := (List.nodup_cons.mp frames.distinct).1
    simp only [Moment.leave, marks, top, List.tail_cons, List.map_cons, List.toFinset_cons]
    exact Finset.erase_insert (by simpa using idle)
  case unknown =>
    intro declaration inside marked
    exact orderly.unknown inside (Finset.mem_of_mem_erase marked)

/-- Once the closed declaration is remembered, the pass stands below its frame. -/
theorem Moment.Stands.leave {declaration : Node} {frame : Frame}
    (stands : moment.Stands input (frame :: stack) s) (inside : declaration ∈ input.graph)
    (opens : Frame.Opens declaration frame) (grows : s.Grows s') (knows : s'.Knows declaration) :
    Moment.Stands input stack s' { moment.leave frame with state := s' } where
  frames := by simp only [Moment.leave, stands.frames, List.tail_cons]
  state := rfl
  settled {other} otherInside opened := by
    rcases stands.settled otherInside opened with resolving | known
    · rcases List.mem_cons.mp resolving with same | resolving
      · rw [opens.declaration_eq] at same
        obtain rfl := input.graph.eq_of_id otherInside inside same
        exact .inr knows
      · exact .inl resolving
    · exact .inr (grows.knows known)

/-- A declaration that is not in progress is remembered. -/
theorem Moment.Orderly.remember {declaration : Node} (orderly : moment.Orderly input)
    (idle : declaration.id ∉ moment.inProgress) (adds : moment.state.Adds declaration s') :
    Moment.Orderly input { moment with state := s' } where
  frames := orderly.frames
  marks := orderly.marks
  unknown inside marked := by
    rw [(adds.others fun same => idle (same ▸ marked)).knows_iff]
    exact orderly.unknown inside marked
  once := orderly.once

namespace Pass

section Monad

variable {α β : Type} {x : PassM α} {f : α → PassM β}

theorem bind_eq_some {a : α} {result : Option (β × History)} {history' : History}
    (hx : x history = some (a, history')) (hf : f a history' = result) :
    (x >>= f) history = result := by
  change (x history).bind _ = _
  rw [hx]
  exact hf

end Monad

/-- From a stack and a state, the pass carries out a computation: it returns a result, on the same
stack and in a new state, and all moments stay orderly. -/
structure Yields (input : Input) (stack : Stack) (s : State) {α : Type} (x : PassM α) (result : α)
    (s' : State) : Prop where
  outcome : ∀ {history : History}, history.Orderly input → history.now.Stands input stack s →
    ∃ history', x history = some (result, history') ∧ history'.Orderly input ∧
      history'.now.Stands input stack s'

namespace Yields

variable {α β : Type} {x : PassM α} {f : α → PassM β} {a : α} {b : β}

theorem pure (a : α) : Yields input stack s (pure a) a s where
  outcome orderly stands := ⟨_, rfl, orderly, stands⟩

theorem bind (first : Yields input stack s x a s₁) (second : Yields input stack s₁ (f a) b s₂) :
    Yields input stack s (x >>= f) b s₂ := by
  refine ⟨fun orderly stands => ?_⟩
  obtain ⟨history₁, hx, orderly, stands⟩ := first.outcome orderly stands
  obtain ⟨history₂, hf, outcome⟩ := second.outcome orderly stands
  exact ⟨history₂, bind_eq_some hx hf, outcome⟩

theorem map (g : α → β) (yields : Yields input stack s x a s') :
    Yields input stack s (g <$> x) (g a) s' := by
  have mapped : g <$> x = x >>= fun a => Pure.pure (g a) := rfl
  rw [mapped]
  exact yields.bind (.pure _)

/-- What the pass reads from its own record is what the walk is told. -/
theorem read {f : Moment → PassM β}
    (yields : ∀ moment : Moment, moment.frames = stack → moment.state = s →
      (∀ {id}, id ∈ moment.inProgress ↔ stack.Resolving id) →
        Yields input stack s (f moment) b s') :
    Yields input stack s (now >>= f) b s' := by
  refine ⟨fun {history} orderly stands => ?_⟩
  have present := orderly.moments history.now List.mem_cons_self
  have marks {id : NodeId} : id ∈ history.now.inProgress ↔ stack.Resolving id := by
    rw [present.mem_inProgress, stands.frames]
  obtain ⟨history', hf, outcome⟩ :=
    (yields history.now stands.frames stands.state marks).outcome orderly stands
  exact ⟨history', bind_eq_some rfl hf, outcome⟩

/-- A computation that remembers no declaration. -/
theorem lift {x : ResolveM α} (computes : x s = (a, s')) (grows : s.Grows s')
    (agrees : ∀ declared, s.Agrees declared s') : Yields input stack s (lift x) a s' := by
  refine ⟨fun {history} orderly stands => ?_⟩
  obtain ⟨rfl, rfl, settled⟩ := stands
  have present := orderly.moments history.now List.mem_cons_self
  refine ⟨⟨{ history.now with state := s' }, history.now :: history.past⟩, ?_,
    orderly.next (present.withState agrees) grows, rfl, rfl, fun inside opened => ?_⟩
  · simp only [Pass.lift, computes]
  · rw [(agrees _).knows_iff]
    exact settled inside opened

theorem lift_allots {x : ResolveM α} (computes : x s = (a, s')) (allots : s.Allots s') :
    Yields input stack s (Pass.lift x) a s' :=
  lift computes allots.grows fun _ => .of_allots allots

theorem record (event : Event) :
    Yields input stack s (Pass.lift (record event)) () (s.withEvent event) :=
  lift rfl (.withEvent _ _) fun _ => .withEvent _ _ _

/-- The contents of a declaration that is neither in progress nor remembered. -/
theorem openContents {walk : Walk} {frame : Frame} {contents returned declaration : Node}
    {rebuild : Node → ResolveM α} {remember : α → State → State}
    (member : declaration ∈ input.declarations) (opens : Frame.Opens declaration frame)
    (idle : ¬ stack.Resolving declaration.id) (unknown : ¬ s.Knows declaration)
    (walked : Yields input (frame :: stack) s (walk contents) returned s₁)
    (rebuilt : rebuild returned s₁ = (a, s₂)) (allots : s₁.Allots s₂)
    (adds : ∀ {t : State}, ¬ t.Knows declaration → t.Adds declaration (remember a t)) :
    Yields input stack s (openContents walk frame contents rebuild remember) a (remember a s₂) := by
  refine ⟨fun {history} orderly stands => ?_⟩
  have inside := input.mem_graph_of_mem_declarations member
  obtain ⟨entered, above⟩ := (orderly.moments history.now List.mem_cons_self).enter stands member
    opens idle unknown
  obtain ⟨⟨last, past⟩, walks, orderly, stands⟩ :=
    walked.outcome (orderly.next entered (.refl _)) above
  have lastOrderly := orderly.moments last List.mem_cons_self
  obtain rfl := stands.state
  have left := lastOrderly.leave stands.frames
  have unmarked : declaration.id ∉ (last.leave frame).inProgress := by
    rw [← opens.declaration_eq]
    exact Finset.notMem_erase _ _
  -- The declaration was in progress until here, so it is not remembered yet.
  have added : s₂.Adds declaration (remember a s₂) := by
    refine adds ?_
    rw [(State.Agrees.of_allots allots).knows_iff]
    exact lastOrderly.unknown_top stands.frames inside opens
  have rebuiltOrderly := left.withState fun _ => .of_allots allots
  have lifted : Pass.lift (rebuild returned) ⟨last.leave frame, last :: past⟩ =
      some (a, ⟨{ last.leave frame with state := s₂ }, last.leave frame :: last :: past⟩) := by
    simp only [Pass.lift, Moment.leave, rebuilt]
  exact ⟨_, bind_eq_some rfl (bind_eq_some walks (bind_eq_some rfl (bind_eq_some lifted rfl))),
    ((orderly.next left (.refl _)).next rebuiltOrderly allots.grows).next
      (rebuiltOrderly.remember unmarked added) added.grows,
    stands.leave inside opens (allots.grows.trans added.grows) added.knows⟩

end Yields

end Pass

end Triples

end ModelLang.Resolution
