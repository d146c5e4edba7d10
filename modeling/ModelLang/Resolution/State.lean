import ModelLang.Event
import ModelLang.Table

/-!
# The state of a resolution

The tables of the state remember how declarations were resolved, and how use sites were resolved
for the signature that owns them; a use site may mean different things in the bodies of two
signatures. The state also hands out the identities of rebuilt nodes and collects errors and
events.
-/

namespace ModelLang.Resolution

/-- What is known in the middle of a resolution. -/
structure State where
  /-- The first identity that no node bears. -/
  next : NodeId
  /-- Resolved dims, by the identity of the dim that was declared. -/
  dims : Table NodeId Dim := {}
  /-- Resolved functions, by the identity of the overload that was declared. -/
  functions : Table NodeId (Signature .function) := {}
  /-- Resolved methods, by the identity of the overload that was declared. -/
  methods : Table NodeId (Signature .method) := {}
  /-- Resolved use sites, by their identity and the signature that owns them. -/
  uses : Table (NodeId × Option NodeId) Reference := {}
  /-- The errors, in the order they were found. -/
  errors : List Diagnostic := []
  events : List Event := []

namespace State

/-- The resolved form of an overload that was declared. -/
def signature? (state : State) : (c : Callable) → NodeId → Option (Signature c)
  | .function, declared => state.functions.find? declared
  | .method, declared => state.methods.find? declared

/-- Remember the resolved form of a dim that was declared. -/
def rememberDim (declared : NodeId) (resolved : Dim) (state : State) : State :=
  { state with dims := state.dims.insert declared resolved }

/-- Remember the resolved form of an overload that was declared. -/
def rememberSignature : {c : Callable} → NodeId → Signature c → State → State
  | .function, declared, resolved, state =>
      { state with functions := state.functions.insert declared resolved }
  | .method, declared, resolved, state =>
      { state with methods := state.methods.insert declared resolved }

/-- Remember the resolved form of a use site. -/
def rememberUse (site : NodeId) (owner : Option NodeId) (resolved : Reference) (state : State) :
    State :=
  { state with uses := state.uses.insert (site, owner) resolved }

/-- Collect an error. -/
def withError (error : Diagnostic) (state : State) : State :=
  { state with errors := state.errors ++ [error] }

/-- Record an event. -/
def withEvent (event : Event) (state : State) : State :=
  { state with events := state.events ++ [event] }

/-- Give the first free identity away. -/
def advance (state : State) : State :=
  { state with next := state.next + 1 }

/-- How many declarations are resolved. -/
def declarationCount (state : State) : Nat :=
  state.dims.size + state.functions.size + state.methods.size

section Fields

variable {c c' : Callable} (state : State)

@[simp]
theorem signature?_advance (id : NodeId) :
    state.advance.signature? c id = state.signature? c id := by
  cases c <;> rfl

@[simp]
theorem signature?_withEvent (event : Event) (id : NodeId) :
    (state.withEvent event).signature? c id = state.signature? c id := by
  cases c <;> rfl

@[simp]
theorem signature?_withError (error : Diagnostic) (id : NodeId) :
    (state.withError error).signature? c id = state.signature? c id := by
  cases c <;> rfl

@[simp]
theorem signature?_rememberDim (declared : NodeId) (dim : Dim) (id : NodeId) :
    (state.rememberDim declared dim).signature? c id = state.signature? c id := by
  cases c <;> rfl

@[simp]
theorem signature?_rememberUse (site : NodeId) (owner : Option NodeId) (resolved : Reference)
    (id : NodeId) :
    (state.rememberUse site owner resolved).signature? c id = state.signature? c id := by
  cases c <;> rfl

@[simp]
theorem signature?_rememberSignature_self (declared : NodeId) (signature : Signature c) :
    (state.rememberSignature declared signature).signature? c declared = some signature := by
  cases c <;> exact Table.find?_insert_self _ _ _

/-- Remembering a signature leaves the others alone. -/
theorem signature?_rememberSignature_of_ne {declared id : NodeId} (signature : Signature c')
    (h : id ≠ declared ∨ c ≠ c') :
    (state.rememberSignature declared signature).signature? c id = state.signature? c id := by
  cases c <;> cases c' <;>
    simp_all [rememberSignature, signature?, Table.find?_insert_ne]

@[simp]
theorem next_rememberSignature (declared : NodeId) (signature : Signature c) :
    (state.rememberSignature declared signature).next = state.next := by
  cases c <;> rfl

@[simp]
theorem errors_rememberSignature (declared : NodeId) (signature : Signature c) :
    (state.rememberSignature declared signature).errors = state.errors := by
  cases c <;> rfl

@[simp]
theorem dims_rememberSignature (declared : NodeId) (signature : Signature c) :
    (state.rememberSignature declared signature).dims = state.dims := by
  cases c <;> rfl

@[simp]
theorem uses_rememberSignature (declared : NodeId) (signature : Signature c) :
    (state.rememberSignature declared signature).uses = state.uses := by
  cases c <;> rfl

end Fields

end State

/-- A computation of the resolution. -/
abbrev ResolveM := StateM State

/-- Take an identity that no node bears. -/
def freshId : ResolveM NodeId := fun state =>
  (state.next, state.advance)

/-- Collect an error. -/
def report (error : Diagnostic) : ResolveM Unit :=
  modify (State.withError error)

/-- Record an event. -/
def record (event : Event) : ResolveM Unit :=
  modify (State.withEvent event)

end ModelLang.Resolution
