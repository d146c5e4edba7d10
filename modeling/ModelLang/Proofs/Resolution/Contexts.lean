import ModelLang.Proofs.Resolution.Origins

/-!
# The context of a call

A call is made in the context of the declaration that was opened last.  In one context the calls
that are nested are about ever smaller nodes; a call inside of another one that is about the same
node has opened a declaration in between.  A declaration is opened once in a whole resolution,
since it is in progress until it is remembered, so all its contents are resolved in one frame.
-/

namespace ModelLang.Resolution

variable {input : Input}

/-- How much of the nodes in the context of a job is still to be walked over. -/
noncomputable def Job.weight : Job → Nat
  | node given _ => sizeOf given + 1
  | items given _ => sizeOf given + 1
  | child given _ => sizeOf given + 1
  | dim _ _ => 0
  | signature _ _ _ => 0
  | meaning _ _ _ => 1

/-- The items of a sequence are smaller than the sequence. -/
theorem sizeOf_items_lt (given : Sequence) : sizeOf given.items < sizeOf given := by
  obtain ⟨id, items, span⟩ := given
  simp only [SequenceOf.mk.sizeOf_spec]
  omega

/-- The children of a use site are smaller than the use site. -/
theorem sizeOf_children_lt (site : Reference) :
    sizeOf site.brackets < sizeOf site ∧ sizeOf site.parens < sizeOf site := by
  obtain ⟨id, receiver, name, brackets, parens, ty, target, span⟩ := site
  simp only [ReferenceOf.mk.sizeOf_spec]
  omega

/-- A call that is made is about less in the same context, or opens another declaration. -/
theorem Input.Starts.weight_lt_or_push {call inner : Call} {index : Nat}
    (starts : input.Starts call index inner) :
    (inner.stack = call.stack ∧ inner.job.weight < call.job.weight) ∨
      ∃ frame, inner.stack = frame :: call.stack := by
  cases starts with
  | extent | body => exact .inr ⟨_, rfl⟩
  | @list stack s₀ s₁ s₂ given =>
      refine .inl ⟨rfl, ?_⟩
      have less := sizeOf_items_lt given
      simp only [Job.weight, Node.list.sizeOf_spec]
      omega
  | @block stack s₀ s₁ s₂ given =>
      refine .inl ⟨rfl, ?_⟩
      have less := sizeOf_items_lt given
      simp only [Job.weight, Node.block.sizeOf_spec]
      omega
  | @brackets stack site | @parens stack site | @meaning stack site =>
      refine .inl ⟨rfl, ?_⟩
      have less := sizeOf_children_lt site
      simp only [Job.weight, Node.reference.sizeOf_spec]
      omega
  | head | tail =>
      refine .inl ⟨rfl, ?_⟩
      simp only [Job.weight, List.cons.sizeOf_spec]
      omega
  | dim | function | method | child | target | entered =>
      exact .inl ⟨rfl, by simp [Job.weight]⟩

namespace Input.Within

variable {call inner : Call} {path : List Nat}

/-- Declarations are opened on top of those that are in progress. -/
theorem stack_suffix (within : input.Within call path inner) : call.stack <:+ inner.stack := by
  induction within with
  | self => exact List.suffix_rfl
  | step starts _ induction =>
      rcases starts.weight_lt_or_push with ⟨same, -⟩ | ⟨frame, pushed⟩
      · rwa [← same]
      · rw [pushed] at induction
        exact (List.suffix_cons _ _).trans induction

/-- In one context, the parts of a call are about less than the call. -/
theorem weight_lt (within : input.Within call path inner) (inside : path ≠ [])
    (same : inner.stack = call.stack) : inner.job.weight < call.job.weight := by
  induction within with
  | self => exact absurd rfl inside
  | @step call index middle path last starts rest induction =>
      rcases starts.weight_lt_or_push with ⟨here, less⟩ | ⟨frame, pushed⟩
      · by_cases done : path = []
        · subst done
          cases rest
          exact less
        · exact Nat.lt_trans (induction done (same.trans here.symm)) less
      · have deeper := rest.stack_suffix.length_le
        rw [pushed, same, List.length_cons] at deeper
        omega

end Input.Within

/-- A stack on top of another one is the same when its innermost declaration is. -/
theorem Stack.Of.eq_of_suffix {graph : Graph} {stack outer : Stack} (proper : stack.Of graph)
    (suffix : outer <:+ stack)
    (same : stack.head?.map Frame.declaration = outer.head?.map Frame.declaration) :
    stack = outer := by
  obtain ⟨opened, rfl⟩ := suffix
  cases opened with
  | nil => rfl
  | cons frame opened =>
      cases outer with
      | nil => cases same
      | cons other outer =>
          have declaration_eq : frame.declaration = other.declaration := Option.some.inj same
          have distinct := proper.distinct
          rw [List.cons_append, List.map_cons, List.nodup_cons] at distinct
          refine absurd ?_ distinct.1
          rw [declaration_eq]
          exact List.mem_map_of_mem (by simp)

theorem Stack.place_of_owner {stack : Stack} {owner : NodeId} (owned : stack.owner? = some owner) :
    stack.head?.map Frame.declaration = some owner := by
  cases stack with
  | nil => cases owned
  | cons frame stack =>
      cases frame with
      | extent => cases owned
      | body => exact owned

/-- A frame has the owner that its declaration gives to its contents. -/
theorem Frame.Opens.owner?_eq {declaration : Node} {frame : Frame}
    (opens : Frame.Opens declaration frame) : frame.owner? = declaration.owner? := by
  cases opens with
  | dim => rfl
  | signature signature => exact (Node.owner?_signature signature).symm

/-- The contents of one declaration have one owner. -/
theorem Stack.Of.owner_eq {graph : Graph} {stack stack' : Stack} (proper : stack.Of graph)
    (proper' : stack'.Of graph)
    (same : stack.head?.map Frame.declaration = stack'.head?.map Frame.declaration) :
    stack.owner? = stack'.owner? := by
  cases stack with
  | nil =>
      cases stack' with
      | nil => rfl
      | cons => cases same
  | cons frame stack =>
      cases stack' with
      | nil => cases same
      | cons frame' stack' =>
          replace same : frame.declaration = frame'.declaration := Option.some.inj same
          obtain ⟨declaration, inside, opens⟩ := proper.opens frame (by simp)
          obtain ⟨declaration', inside', opens'⟩ := proper'.opens frame' (by simp)
          rw [opens.declaration_eq, opens'.declaration_eq] at same
          obtain rfl := graph.eq_of_id inside inside' same
          exact opens.owner?_eq.trans opens'.owner?_eq.symm

/-! ## Declarations are opened once -/

/-- The parts of a call that opens a declaration are made while it is in progress. -/
theorem Call.Opens.resolving {call other : Call} {declaration : Node} {path : List Nat}
    (opens : call.Opens declaration) (within : input.Within call path other) (inside : path ≠ []) :
    other.stack.Resolving declaration.id := by
  cases within with
  | self => exact absurd rfl inside
  | @step _ _ inner _ _ starts within =>
      have opened : inner.stack.Resolving declaration.id := by
        cases opens with
        | dim =>
            cases starts with
            | extent => exact List.mem_cons_self
        | signature =>
            cases starts with
            | body =>
                rw [SignatureOf.id_node]
                exact List.mem_cons_self
      exact (within.stack_suffix.map Frame.declaration).mem opened

theorem Call.Opens.idle {call : Call} {declaration : Node} (opens : call.Opens declaration) :
    ¬ call.stack.Resolving declaration.id := by
  cases opens with
  | dim _ idle => exact idle
  | signature _ idle =>
      rw [SignatureOf.id_node]
      exact idle

/-- A declaration is remembered in a state. -/
def State.Knows (state : State) : Node → Prop
  | .dim declared => ∃ resolved, state.dims.find? declared.id = some resolved
  | .function declared => ∃ resolved, state.signature? .function declared.id = some resolved
  | .method declared => ∃ resolved, state.signature? .method declared.id = some resolved
  | _ => False

namespace State

variable {s t : State}

@[simp]
theorem knows_signature {c : Callable} {declared : Signature c} :
    s.Knows declared.node ↔ ∃ resolved, s.signature? c declared.id = some resolved := by
  cases c <;> rfl

theorem Grows.knows {declaration : Node} (grows : s.Grows t) (known : s.Knows declaration) :
    t.Knows declaration := by
  cases declaration with
  | dim => exact known.imp fun _ => grows.dims
  | function | method => exact known.imp fun _ => grows.signatures
  | literal | typeRef | param | reference | list | block => exact known

theorem Precedes.knows {declaration : Node} (precedes : s.Precedes t)
    (known : s.Knows declaration) : t.Knows declaration :=
  precedes.grows.knows known

/-- A declaration for which two states remember the same is known in both or in none. -/
theorem Agrees.knows_iff {declaration : Node} (agrees : s.Agrees declaration.id t) :
    t.Knows declaration ↔ s.Knows declaration := by
  cases declaration with
  | dim declared =>
      have dims : t.dims.find? declared.id = s.dims.find? declared.id := agrees.1
      simp only [Knows, dims]
  | function declared =>
      have signatures : t.signature? .function declared.id = s.signature? .function declared.id :=
        agrees.2 _
      simp only [Knows, signatures]
  | method declared =>
      have signatures : t.signature? .method declared.id = s.signature? .method declared.id :=
        agrees.2 _
      simp only [Knows, signatures]
  | literal | typeRef | param | reference | list | block => rfl

end State

theorem Input.Resolves.knows {declared resolved : Node}
    (resolves : input.Resolves declared resolved) :
    input.final.Knows declared := by
  cases resolves with
  | dim _ found => exact ⟨_, found⟩
  | signature _ found => exact State.knows_signature.mpr ⟨_, found⟩

namespace Call.Opens

variable {call other : Call} {declaration : Node}

theorem unknown (opens : call.Opens declaration) : ¬ call.before.Knows declaration := by
  cases opens with
  | dim missing => simp [State.Knows, missing]
  | signature missing => simp [missing]

theorem known (opens : call.Opens declaration)
    (run : Run input call.stack call.before call.job call.after) :
    call.after.Knows declaration := by
  cases opens with
  | dim _ idle => exact ⟨_, run.find?_dims idle⟩
  | signature _ idle => exact State.knows_signature.mpr ⟨_, run.signature?_eq idle⟩

end Call.Opens

/-- The frame in which a job resolves the contents of its declaration. -/
def Job.frame? : Job → Option Frame
  | dim given _ => some (.extent given.id)
  | signature receiver given _ => some (.body given.id receiver given.formals)
  | _ => none

/-- A call is made in the context of the one that makes it, or in a frame that this one opens. -/
theorem Input.Starts.same_or_opens {call inner : Call} {index : Nat}
    (starts : input.Starts call index inner) :
    inner.stack = call.stack ∨ inner.before = call.before ∧ ∃ declaration frame,
      call.Opens declaration ∧ call.job.frame? = some frame ∧
        inner.stack = frame :: call.stack := by
  cases starts with
  | extent missing idle => exact .inr ⟨rfl, _, _, .dim missing idle, rfl, rfl⟩
  | body missing idle => exact .inr ⟨rfl, _, _, .signature missing idle, rfl, rfl⟩
  | list | block | dim | function | method | brackets | parens | meaning | head | tail | child |
      target | entered => exact .inl rfl

/-- A declaration is opened in a frame of its own. -/
theorem Call.Opens.frame {call : Call} {declaration : Node} {frame : Frame}
    (opens : call.Opens declaration) (isFrame : call.job.frame? = some frame) :
    Frame.Opens declaration frame := by
  cases opens with
  | dim =>
      cases isFrame
      exact .dim _
  | signature =>
      cases isFrame
      exact .signature _ _

theorem Call.Opens.declaration_eq {call : Call} {declaration : Node} {frame : Frame}
    (opens : call.Opens declaration) (isFrame : call.job.frame? = some frame) :
    frame.declaration = declaration.id :=
  (opens.frame isFrame).declaration_eq

theorem Call.Opens.inside {call : Call} {declaration : Node} (opens : call.Opens declaration)
    (run : Run input call.stack call.before call.job call.after) : declaration ∈ input.graph := by
  cases opens with
  | dim | signature => exact run.allowed.job

/-- A declaration in progress is not remembered until a call is made. -/
theorem Input.Starts.agrees {call inner : Call} {index : Nat} {declared : NodeId}
    (starts : input.Starts call index inner) (resolving : call.stack.Resolving declared) :
    call.before.Agrees declared inner.before := by
  cases starts with
  | parens visits => exact visits.bracketsRun.agrees resolving
  | meaning visits =>
      exact (visits.bracketsRun.agrees resolving).trans (visits.parensRun.agrees resolving)
  | tail itemRun => exact itemRun.agrees resolving
  | entered _ _ _ applied =>
      exact (State.Agrees.of_allots (allots_of_argumentsOf applied)).trans (.withEvent _ _ _)
  | list | block | dim | function | method | brackets | head | child | extent | body | target =>
      exact .refl _ _

/-- A declaration in progress is not known. -/
theorem Input.Makes.unknown {call : Call} (made : input.Makes call) {declaration : Node}
    (inside : declaration ∈ input.graph) (resolving : call.stack.Resolving declaration.id) :
    ¬ call.after.Knows declaration := by
  rw [(made.run.agrees resolving).knows_iff]
  revert resolving
  refine made.induct
    (P := fun call => call.stack.Resolving declaration.id → ¬ call.before.Knows declaration) ?_ ?_
  · intro index call opens resolving
    rw [opens.stack_eq] at resolving
    exact absurd resolving List.not_mem_nil
  · intro call index inner made unknown starts resolving
    rcases starts.same_or_opens with same | ⟨same, opened, frame, opens, isFrame, pushed⟩
    · rw [same] at resolving
      rw [(starts.agrees resolving).knows_iff]
      exact unknown resolving
    · rw [pushed] at resolving
      rw [same]
      rcases List.mem_cons.mp resolving with here | resolving
      · rw [opens.declaration_eq isFrame] at here
        rw [input.graph.eq_of_id inside (opens.inside made.run) here]
        exact opens.unknown
      · exact unknown resolving

/-- Two calls that open a declaration are the same. -/
theorem Input.At.eq_of_opens {position position' : List Nat} {call other : Call}
    {declaration : Node} (first : input.At position call) (second : input.At position' other)
    (opens : call.Opens declaration) (again : other.Opens declaration) : position = position' := by
  rcases first.compare second with ⟨rest, rfl, within⟩ | ⟨rest, rfl, within⟩ | ordered
  · by_cases inside : rest = []
    · simp [inside]
    · exact absurd (opens.resolving within inside) again.idle
  · by_cases inside : rest = []
    · simp [inside]
    · exact absurd (again.resolving within inside) opens.idle
  · rcases ordered with ordered | ordered
    · exact absurd (ordered.knows (opens.known first.run)) again.unknown
    · exact absurd (ordered.knows (again.known second.run)) opens.unknown

/-- A part is made in the context of the call, or in a frame that a part opens. -/
theorem Input.Within.opening {call inner : Call} {path : List Nat}
    (within : input.Within call path inner) :
    inner.stack = call.stack ∨ ∃ start opening declaration frame, input.Within call start opening ∧
      opening.Opens declaration ∧ opening.job.frame? = some frame ∧
        inner.stack = frame :: opening.stack := by
  induction within with
  | self => exact .inl rfl
  | @step call index middle path inner starts _ induction =>
      rcases induction with same | ⟨start, opening, declaration, frame, outer, opened⟩
      · rw [same]
        exact starts.same_or_opens.imp_right fun ⟨_, declaration, frame, opened⟩ =>
          ⟨[], call, declaration, frame, .self call, opened⟩
      · exact .inr ⟨_, opening, declaration, frame, .step starts outer, opened⟩

/-- A call is made outside of all declarations, or in a frame that another call opens. -/
theorem Input.Makes.opening {call : Call} (made : input.Makes call) :
    call.stack = [] ∨ ∃ opening declaration frame, input.Makes opening ∧
      opening.Opens declaration ∧ opening.job.frame? = some frame ∧
        call.stack = frame :: opening.stack := by
  obtain ⟨position, opens, within⟩ := made
  rcases within.opening with same | ⟨start, opening, declaration, frame, outer, opened⟩
  · exact .inl (same.trans opens.stack_eq)
  · exact .inr ⟨opening, declaration, frame, ⟨_, .intro opens outer⟩, opened⟩

/-- A call that belongs to a signature is made in the frame in which the signature was opened. -/
theorem Input.Makes.head?_stack {call opening : Call} {c : Callable} {receiver : Option String}
    {declared resolved : Signature c} (made : input.Makes call)
    (owner : call.stack.owner? = some declared.id) (opened : input.Makes opening)
    (opens : opening.Opens declared.node)
    (job : opening.job = .signature receiver declared resolved) :
    call.stack.head? = some (.body declared.id receiver declared.formals) := by
  rcases made.opening with outside | ⟨other, declaration, frame, opened', opens', isFrame, pushed⟩
  · rw [outside] at owner
    cases owner
  · rw [pushed] at owner ⊢
    have same : declaration = declared.node := by
      refine input.graph.eq_of_id (opens'.inside opened'.run) (opens.inside opened.run) ?_
      rw [← opens'.declaration_eq isFrame, SignatureOf.id_node]
      exact Option.some.inj (Stack.place_of_owner owner)
    subst same
    obtain ⟨position, here⟩ := opened
    obtain ⟨position', here'⟩ := opened'
    obtain rfl := here.eq_of_opens here' opens opens'
    obtain rfl := here.unique here'
    rw [job] at isFrame
    exact isFrame.symm

end ModelLang.Resolution
