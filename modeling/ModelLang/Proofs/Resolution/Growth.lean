import ModelLang.Proofs.Resolution.Run

/-!
# Nothing is forgotten

A run gives identities away, collects errors and remembers declarations, and takes none of this
back: a declaration is resolved only where it is not remembered yet.
-/

namespace ModelLang.Resolution

/-- A later state: no identity, error or resolved declaration is lost. -/
structure State.Grows (s t : State) : Prop where
  next : s.next ≤ t.next
  errors : s.errors <+: t.errors
  dims : ∀ {id dim}, s.dims.find? id = some dim → t.dims.find? id = some dim
  signatures : ∀ {c : Callable} {id} {signature : Signature c},
    s.signature? c id = some signature → t.signature? c id = some signature

namespace State.Grows

variable {s t u : State}

theorem refl (s : State) : s.Grows s :=
  ⟨Nat.le_refl _, List.prefix_rfl, fun found => found, fun found => found⟩

theorem trans (first : s.Grows t) (second : t.Grows u) : s.Grows u where
  next := Nat.le_trans first.next second.next
  errors := first.errors.trans second.errors
  dims found := second.dims (first.dims found)
  signatures found := second.signatures (first.signatures found)

theorem advance (s : State) : s.Grows s.advance where
  next := Nat.le_succ _
  errors := List.prefix_rfl
  dims found := found
  signatures found := by rwa [signature?_advance]

theorem withEvent (s : State) (event : Event) : s.Grows (s.withEvent event) where
  next := Nat.le_refl _
  errors := List.prefix_rfl
  dims found := found
  signatures found := by rwa [signature?_withEvent]

theorem withError (s : State) (error : Diagnostic) : s.Grows (s.withError error) where
  next := Nat.le_refl _
  errors := List.prefix_append _ _
  dims found := found
  signatures found := by rwa [signature?_withError]

theorem rememberUse (s : State) (site : NodeId) (owner : Option NodeId) (resolved : Reference) :
    s.Grows (s.rememberUse site owner resolved) where
  next := Nat.le_refl _
  errors := List.prefix_rfl
  dims found := found
  signatures found := by rwa [signature?_rememberUse]

/-- Remembering a dim that was missing in an earlier state. -/
theorem rememberDim {declared : NodeId} (grows : s.Grows t) (missing : s.dims.find? declared = none)
    (dim : Dim) : s.Grows (t.rememberDim declared dim) where
  next := grows.next
  errors := grows.errors
  dims {id found} h := by
    have other : id ≠ declared := by
      rintro rfl
      rw [missing] at h
      cases h
    exact (Table.find?_insert_ne _ _ other).trans (grows.dims h)
  signatures found := by
    rw [signature?_rememberDim]
    exact grows.signatures found

/-- Remembering a signature that was missing in an earlier state. -/
theorem rememberSignature {c : Callable} {declared : NodeId} (grows : s.Grows t)
    (missing : s.signature? c declared = none) (signature : Signature c) :
    s.Grows (t.rememberSignature declared signature) where
  next := by
    rw [next_rememberSignature]
    exact grows.next
  errors := by
    rw [errors_rememberSignature]
    exact grows.errors
  dims found := by
    rw [dims_rememberSignature]
    exact grows.dims found
  signatures {c' id found} h := by
    have other : id ≠ declared ∨ c' ≠ c := by
      by_cases same : c' = c
      · subst same
        refine .inl ?_
        rintro rfl
        rw [missing] at h
        cases h
      · exact .inr same
    rw [signature?_rememberSignature_of_ne t signature other]
    exact grows.signatures h

/-- A later state without errors comes from one without errors. -/
theorem errors_eq_nil (grows : s.Grows t) (clean : t.errors = []) : s.errors = [] := by
  have start := grows.errors
  rw [clean] at start
  exact List.prefix_nil.mp start

end State.Grows

/-- Whatever the tables of a state remember has some property: dims and signatures under the
identity of their declaration, use sites under their own identity and their owner.  New nodes bear
identities from `first` on. -/
structure State.Remembers (first : NodeId) (dim : NodeId → Dim → Prop)
    (signature : ∀ {c : Callable}, NodeId → Signature c → Prop)
    (use : NodeId → Option NodeId → Reference → Prop) (state : State) : Prop where
  next : first ≤ state.next
  dims : ∀ {id resolved}, state.dims.find? id = some resolved → dim id resolved
  signatures : ∀ {c : Callable} {id} {resolved : Signature c},
    state.signature? c id = some resolved → signature id resolved
  uses : ∀ {site owner resolved}, state.uses.find? (site, owner) = some resolved →
    use site owner resolved

namespace State.Remembers

variable {first : NodeId} {dim : NodeId → Dim → Prop}
  {signature : ∀ {c : Callable}, NodeId → Signature c → Prop}
  {use : NodeId → Option NodeId → Reference → Prop} {state : State}

/-- The tables are empty at first. -/
theorem initial : Remembers first dim signature use { next := first } where
  next := Nat.le_refl _
  dims h := by cases h
  signatures {c} _ _ h := by cases c <;> cases h
  uses h := by cases h

theorem advance (remembers : state.Remembers first dim signature use) :
    state.advance.Remembers first dim signature use where
  next := Nat.le_succ_of_le remembers.next
  dims h := remembers.dims h
  signatures h := remembers.signatures (by rwa [signature?_advance] at h)
  uses h := remembers.uses h

theorem withEvent (remembers : state.Remembers first dim signature use) (event : Event) :
    (state.withEvent event).Remembers first dim signature use where
  next := remembers.next
  dims h := remembers.dims h
  signatures h := remembers.signatures (by rwa [signature?_withEvent] at h)
  uses h := remembers.uses h

theorem withError (remembers : state.Remembers first dim signature use) (error : Diagnostic) :
    (state.withError error).Remembers first dim signature use where
  next := remembers.next
  dims h := remembers.dims h
  signatures h := remembers.signatures (by rwa [signature?_withError] at h)
  uses h := remembers.uses h

theorem rememberDim {declared : NodeId} {resolved : Dim}
    (remembers : state.Remembers first dim signature use) (new : dim declared resolved) :
    (state.rememberDim declared resolved).Remembers first dim signature use where
  next := remembers.next
  dims {id found} h := by
    rw [State.rememberDim, Table.find?_insert] at h
    split at h
    case isTrue same =>
      cases h
      subst same
      exact new
    case isFalse => exact remembers.dims h
  signatures h := remembers.signatures (by rwa [signature?_rememberDim] at h)
  uses h := remembers.uses h

theorem rememberSignature {c : Callable} {declared : NodeId} {resolved : Signature c}
    (remembers : state.Remembers first dim signature use) (new : signature declared resolved) :
    (state.rememberSignature declared resolved).Remembers first dim signature use where
  next := by
    rw [next_rememberSignature]
    exact remembers.next
  dims h := remembers.dims (by rwa [dims_rememberSignature] at h)
  signatures {c' id found} h := by
    by_cases other : id ≠ declared ∨ c' ≠ c
    · rw [signature?_rememberSignature_of_ne state resolved other] at h
      exact remembers.signatures h
    · obtain ⟨rfl, rfl⟩ : id = declared ∧ c' = c := by simpa [not_or] using other
      rw [signature?_rememberSignature_self] at h
      cases h
      exact new
  uses h := remembers.uses (by rwa [uses_rememberSignature] at h)

theorem rememberUse {site : NodeId} {owner : Option NodeId} {resolved : Reference}
    (remembers : state.Remembers first dim signature use) (new : use site owner resolved) :
    (state.rememberUse site owner resolved).Remembers first dim signature use where
  next := remembers.next
  dims h := remembers.dims h
  signatures h := remembers.signatures (by rwa [signature?_rememberUse] at h)
  uses {site' owner' found} h := by
    rw [State.rememberUse, Table.find?_insert] at h
    split at h
    case isTrue same =>
      cases h
      cases same
      exact new
    case isFalse => exact remembers.uses h

end State.Remembers

/-- At most one identity is given away. -/
def State.Allots (s t : State) : Prop :=
  t = s ∨ t = s.advance

theorem State.Allots.grows {s t : State} (allots : s.Allots t) : s.Grows t := by
  rcases allots with rfl | rfl
  · exact .refl _
  · exact .advance s

theorem State.Allots.errors_eq {s t : State} (allots : s.Allots t) : t.errors = s.errors := by
  rcases allots with rfl | rfl <;> rfl

theorem State.Remembers.of_allots {first : NodeId} {dim : NodeId → Dim → Prop}
    {signature : ∀ {c : Callable}, NodeId → Signature c → Prop}
    {use : NodeId → Option NodeId → Reference → Prop} {s t : State}
    (remembers : s.Remembers first dim signature use) (allots : s.Allots t) :
    t.Remembers first dim signature use := by
  rcases allots with rfl | rfl
  · exact remembers
  · exact remembers.advance

section Rebuilding

variable {s s' : State}

theorem rebuildDim_cases {dim resolved : Dim} {extent : Node}
    (h : rebuildDim dim extent s = (resolved, s')) :
    (extent.id = dim.extent.id ∧ resolved = dim ∧ s' = s) ∨
      (resolved = { dim with id := s.next, extent } ∧ s' = s.advance) := by
  unfold rebuildDim at h
  split at h
  case isTrue same =>
    cases h
    exact .inl ⟨by simpa [Node.same] using same, rfl, rfl⟩
  case isFalse =>
    cases h
    exact .inr ⟨rfl, rfl⟩

theorem rebuildSignature_cases {c : Callable} {signature resolved : Signature c} {body : Node}
    (h : rebuildSignature signature body s = (resolved, s')) :
    (body.id = signature.body.id ∧ resolved = signature ∧ s' = s) ∨
      (resolved = { signature with id := s.next, body } ∧ s' = s.advance) := by
  unfold rebuildSignature at h
  split at h
  case isTrue same =>
    cases h
    exact .inl ⟨by simpa [Node.same] using same, rfl, rfl⟩
  case isFalse =>
    cases h
    exact .inr ⟨rfl, rfl⟩

theorem rebuildSequence_cases {sequence resolved : Sequence} {items : List Node}
    (h : rebuildSequence sequence items s = (resolved, s')) :
    ((List.zipWith Node.same items sequence.items).all id = true ∧ resolved = sequence ∧ s' = s) ∨
      (resolved = { sequence with id := s.next, items } ∧ s' = s.advance) := by
  unfold rebuildSequence at h
  split at h
  case isTrue same =>
    cases h
    exact .inl ⟨same, rfl, rfl⟩
  case isFalse =>
    cases h
    exact .inr ⟨rfl, rfl⟩

theorem rebuildReference_cases {site resolved : Reference} {brackets parens : Option Node}
    {meaning : Option Meaning}
    (h : rebuildReference site brackets parens meaning s = (resolved, s')) :
    (meaning = none ∧ Node.sameChild brackets site.brackets = true ∧
        Node.sameChild parens site.parens = true ∧ resolved = site ∧ s' = s) ∨
      (resolved =
          { site with
            id := s.next
            brackets
            parens
            ty := (meaning.map Prod.fst).getD .unknown
            target := meaning.map Prod.snd } ∧
        s' = s.advance) := by
  unfold rebuildReference at h
  split at h
  case isTrue same =>
    cases h
    simp only [Bool.and_eq_true, Option.isNone_iff_eq_none] at same
    exact .inl ⟨same.1.1, same.1.2, same.2, rfl, rfl⟩
  case isFalse =>
    cases h
    exact .inr ⟨rfl, rfl⟩

theorem argumentsOf_cases {site : Reference} {parens : Option Node} {arguments : Node}
    (h : argumentsOf site parens s = (arguments, s')) :
    (parens = some arguments ∧ s' = s) ∨
      (parens = none ∧ arguments = .list ⟨s.next, [], site.span⟩ ∧ s' = s.advance) := by
  cases parens with
  | some given =>
      cases h
      exact .inl ⟨rfl, rfl⟩
  | none =>
      cases h
      exact .inr ⟨rfl, rfl, rfl⟩

theorem allots_of_rebuildDim {dim resolved : Dim} {extent : Node}
    (h : rebuildDim dim extent s = (resolved, s')) : s.Allots s' := by
  rcases rebuildDim_cases h with ⟨-, -, rfl⟩ | ⟨-, rfl⟩
  · exact .inl rfl
  · exact .inr rfl

theorem allots_of_rebuildSignature {c : Callable} {signature resolved : Signature c} {body : Node}
    (h : rebuildSignature signature body s = (resolved, s')) : s.Allots s' := by
  rcases rebuildSignature_cases h with ⟨-, -, rfl⟩ | ⟨-, rfl⟩
  · exact .inl rfl
  · exact .inr rfl

theorem allots_of_rebuildSequence {sequence resolved : Sequence} {items : List Node}
    (h : rebuildSequence sequence items s = (resolved, s')) : s.Allots s' := by
  rcases rebuildSequence_cases h with ⟨-, -, rfl⟩ | ⟨-, rfl⟩
  · exact .inl rfl
  · exact .inr rfl

theorem allots_of_rebuildReference {site resolved : Reference} {brackets parens : Option Node}
    {meaning : Option Meaning}
    (h : rebuildReference site brackets parens meaning s = (resolved, s')) : s.Allots s' := by
  rcases rebuildReference_cases h with ⟨-, -, -, -, rfl⟩ | ⟨-, rfl⟩
  · exact .inl rfl
  · exact .inr rfl

theorem allots_of_argumentsOf {site : Reference} {parens : Option Node} {arguments : Node}
    (h : argumentsOf site parens s = (arguments, s')) : s.Allots s' := by
  rcases argumentsOf_cases h with ⟨-, rfl⟩ | ⟨-, -, rfl⟩
  · exact .inl rfl
  · exact .inr rfl

end Rebuilding

/-- A relation between the states before and after a run in a context.  It is enough to look at the
single changes of a state; a use site is remembered after its children and its meaning were
resolved, and a declaration after its contents were resolved in its own frame. -/
structure Effect (R : Stack → State → State → Prop) : Prop where
  refl : ∀ stack s, R stack s s
  trans : ∀ {stack s t u}, R stack s t → R stack t u → R stack s u
  advance : ∀ stack s, R stack s s.advance
  withEvent : ∀ stack s event, R stack s (s.withEvent event)
  withError : ∀ stack s error, R stack s (s.withError error)
  rememberUse : ∀ {stack : Stack} {s t site} resolved, s.uses.find? (site, stack.owner?) = none →
    R stack s t → R stack s (t.rememberUse site stack.owner? resolved)
  rememberDim : ∀ {stack : Stack} {s t declared} resolved, s.dims.find? declared = none →
    ¬ stack.Resolving declared → R (.extent declared :: stack) s t →
      R stack s (t.rememberDim declared resolved)
  rememberSignature : ∀ {stack : Stack} {s t declared receiver params} {c : Callable}
    (resolved : Signature c), s.signature? c declared = none → ¬ stack.Resolving declared →
      R (.body declared receiver params :: stack) s t →
        R stack s (t.rememberSignature declared resolved)

namespace Effect

variable {R : Stack → State → State → Prop} {input : Input} {stack : Stack} {s s' : State}

theorem of_allots (effect : Effect R) (allots : s.Allots s') : R stack s s' := by
  rcases allots with rfl | rfl
  · exact effect.refl _ _
  · exact effect.advance _ _

/-- A relation that holds of the single changes holds of whole runs. -/
theorem of_run (effect : Effect R) {job : Job} (run : Run input stack s job s') :
    R stack s s' := by
  induction run with
  | literal | typeRef | param | remembered | nil | noChild => exact effect.refl _ _
  | dimRemembered | dimInProgress | signatureRemembered | signatureInProgress | skipped =>
      exact effect.refl _ _
  | list allowed run rebuilt induction =>
      exact effect.trans induction (effect.of_allots (allots_of_rebuildSequence rebuilt))
  | block allowed run rebuilt induction =>
      exact effect.trans induction (effect.of_allots (allots_of_rebuildSequence rebuilt))
  | dim allowed run induction => exact induction
  | function allowed run induction => exact induction
  | method allowed run induction => exact induction
  | child allowed run induction => exact induction
  | reference allowed missing bracketsRun parensRun meaningRun rebuilt brackets parens meaning =>
      have meant := effect.trans (effect.trans brackets parens) meaning
      have rebuilds := effect.trans meant (effect.of_allots (allots_of_rebuildReference rebuilt))
      exact effect.rememberUse _ missing rebuilds
  | cons allowed itemRun itemsRun item items => exact effect.trans item items
  | dimFresh allowed missing idle run rebuilt induction =>
      have rebuilds := effect.trans induction (effect.of_allots (allots_of_rebuildDim rebuilt))
      exact effect.rememberDim _ missing idle rebuilds
  | signatureFresh allowed missing idle run rebuilt induction =>
      have rebuilds := effect.trans induction
        (effect.of_allots (allots_of_rebuildSignature rebuilt))
      exact effect.rememberSignature _ missing idle rebuilds
  | unbound => exact effect.withError _ _ _
  | paramMeant => exact effect.withEvent _ _ _
  | dimMeant allowed known bound run induction =>
      exact effect.trans induction (effect.withEvent _ _ _)
  | refused allowed known bound calls applied failed =>
      have applies := allots_of_argumentsOf applied
      exact effect.trans (effect.trans (effect.of_allots applies) (effect.withEvent _ _ _))
        (effect.withError _ _ _)
  | recursive allowed known bound calls applied selects resolving =>
      have applies := allots_of_argumentsOf applied
      exact effect.trans (effect.trans (effect.of_allots applies) (effect.withEvent _ _ _))
        (effect.withEvent _ _ _)
  | entered allowed known bound calls applied selects idle run induction =>
      have applies := allots_of_argumentsOf applied
      exact effect.trans (effect.trans (effect.of_allots applies) (effect.withEvent _ _ _))
        (effect.trans induction (effect.withEvent _ _ _))

end Effect

/-- A use site that is remembered stays as it is, since only one that is missing is visited. -/
theorem Run.uses_eq {input : Input} {stack : Stack} {s s' : State} {job : Job}
    (run : Run input stack s job s') {key : NodeId × Option NodeId} {resolved : Reference}
    (known : s.uses.find? key = some resolved) : s'.uses.find? key = some resolved := by
  have effect : Effect fun _ s t => ∀ {key resolved}, s.uses.find? key = some resolved →
      t.uses.find? key = some resolved :=
    { refl := fun _ _ _ _ known => known
      trans := fun first second _ _ known => second (first known)
      advance := fun _ _ _ _ known => known
      withEvent := fun _ _ _ _ _ known => known
      withError := fun _ _ _ _ _ known => known
      rememberUse := by
        intro stack s t site resolved missing inner key found known
        have other : key ≠ (site, stack.owner?) := by
          rintro rfl
          rw [missing] at known
          cases known
        exact (Table.find?_insert_ne _ _ other).trans (inner known)
      rememberDim := fun _ _ _ inner => inner
      rememberSignature := fun _ _ _ inner _ _ known => by
        rw [State.uses_rememberSignature]
        exact inner known }
  exact effect.of_run run known

/-- A run forgets nothing. -/
theorem Run.grows {input : Input} {stack : Stack} {s s' : State} {job : Job}
    (run : Run input stack s job s') : s.Grows s' := by
  have effect : Effect fun _ => State.Grows :=
    { refl := fun _ => .refl
      trans := State.Grows.trans
      advance := fun _ => .advance
      withEvent := fun _ => .withEvent
      withError := fun _ => .withError
      rememberUse := fun _ _ grows => grows.trans (.rememberUse _ _ _ _)
      rememberDim := fun resolved missing _ grows => grows.rememberDim missing resolved
      rememberSignature := fun resolved missing _ grows =>
        grows.rememberSignature missing resolved }
  exact effect.of_run run

/-- Two states remember the same for a declaration. -/
def State.Agrees (declared : NodeId) (s t : State) : Prop :=
  t.dims.find? declared = s.dims.find? declared ∧
    ∀ c, t.signature? c declared = s.signature? c declared

theorem State.Agrees.refl (declared : NodeId) (s : State) : s.Agrees declared s :=
  ⟨rfl, fun _ => rfl⟩

theorem State.Agrees.trans {declared : NodeId} {s t u : State} (first : s.Agrees declared t)
    (second : t.Agrees declared u) : s.Agrees declared u :=
  ⟨second.1.trans first.1, fun c => (second.2 c).trans (first.2 c)⟩

theorem State.Agrees.withEvent (declared : NodeId) (s : State) (event : Event) :
    s.Agrees declared (s.withEvent event) :=
  ⟨rfl, fun _ => s.signature?_withEvent event _⟩

theorem State.Agrees.of_allots {declared : NodeId} {s t : State} (allots : s.Allots t) :
    s.Agrees declared t := by
  rcases allots with rfl | rfl
  · exact .refl _ _
  · exact ⟨rfl, fun _ => s.signature?_advance _⟩

/-- A declaration in progress is not remembered by what it calls. -/
theorem Run.agrees {input : Input} {stack : Stack} {s s' : State} {job : Job}
    (run : Run input stack s job s') {declared : NodeId} (resolving : stack.Resolving declared) :
    s.Agrees declared s' := by
  have effect : Effect fun stack s t => stack.Resolving declared → s.Agrees declared t :=
    { refl := fun _ _ _ => .refl _ _
      trans := fun first second resolving => (first resolving).trans (second resolving)
      advance := fun _ s _ => .of_allots (.inr rfl)
      withEvent := fun _ s event _ => .withEvent _ s event
      withError := fun _ s error _ => ⟨rfl, fun _ => s.signature?_withError error _⟩
      rememberUse := fun resolved _ inner resolving =>
        ⟨(inner resolving).1,
          fun c => (State.signature?_rememberUse _ _ _ _ _).trans ((inner resolving).2 c)⟩
      rememberDim := by
        intro stack s t other resolved missing idle induction resolving
        obtain ⟨dims, signatures⟩ := induction (List.mem_cons_of_mem _ resolving)
        have ne : declared ≠ other := fun same => idle (same ▸ resolving)
        refine ⟨(Table.find?_insert_ne _ _ ne).trans dims, fun c => ?_⟩
        rw [State.signature?_rememberDim, signatures]
      rememberSignature := by
        intro stack s t other receiver params c resolved missing idle induction resolving
        obtain ⟨dims, signatures⟩ := induction (List.mem_cons_of_mem _ resolving)
        have ne : declared ≠ other := fun same => idle (same ▸ resolving)
        refine ⟨by rw [State.dims_rememberSignature, dims], fun c' => ?_⟩
        rw [State.signature?_rememberSignature_of_ne t resolved (.inl ne), signatures] }
  exact effect.of_run run resolving

/-- What is resolved inside of a dim is kept when the dim is remembered. -/
theorem Run.grows_rememberDim {input : Input} {stack : Stack} {s₀ s₁ s₂ : State} {job : Job}
    {dim resolved : Dim} {extent : Node} (run : Run input (.extent dim.id :: stack) s₀ job s₁)
    (missing : s₀.dims.find? dim.id = none)
    (rebuilt : rebuildDim dim extent s₁ = (resolved, s₂)) :
    s₁.Grows (s₂.rememberDim dim.id resolved) := by
  have still : s₁.dims.find? dim.id = none := by
    rw [(run.agrees (List.mem_cons_self : dim.id ∈ dim.id :: _)).1, missing]
  exact (allots_of_rebuildDim rebuilt).grows.rememberDim still resolved

/-- What is resolved inside of a signature is kept when the signature is remembered. -/
theorem Run.grows_rememberSignature {input : Input} {stack : Stack} {s₀ s₁ s₂ : State} {job : Job}
    {receiver : Option String} {c : Callable} {signature resolved : Signature c} {body : Node}
    (run : Run input (.body signature.id receiver signature.formals :: stack) s₀ job s₁)
    (missing : s₀.signature? c signature.id = none)
    (rebuilt : rebuildSignature signature body s₁ = (resolved, s₂)) :
    s₁.Grows (s₂.rememberSignature signature.id resolved) := by
  have still : s₁.signature? c signature.id = none := by
    rw [(run.agrees (List.mem_cons_self : signature.id ∈ signature.id :: _)).2, missing]
  exact (allots_of_rebuildSignature rebuilt).grows.rememberSignature still resolved

theorem ItemRun.grows {input : Input} {s s' : State} {item resolved : Item}
    (run : ItemRun input s item resolved s') : s.Grows s' := by
  cases run with
  | dim run | function run | method run => exact run.grows

theorem ItemsRun.grows {input : Input} {s s' : State} {items resolved : List Item}
    (run : ItemsRun input s items resolved s') : s.Grows s' := by
  induction run with
  | nil => exact .refl _
  | cons itemRun itemsRun induction => exact itemRun.grows.trans induction

end ModelLang.Resolution
