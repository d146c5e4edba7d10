import ModelLang.Proofs.Resolution.Evaluation
import ModelLang.Proofs.Resolution.Growth

/-!
# The parts of a resolution

A resolution consists of calls: each has a context, a job, and the states it starts and ends in,
and it makes other calls one after the other.  The position of a call is the path that leads to it,
from the index of an item down through the indices of the calls that are made.  The central
statement is that two calls are nested or one ends before the other starts, so whatever is
remembered at the end of the one is known at the start of the other.
-/

namespace ModelLang.Resolution

/-- A job in its context, with the states before and after it. -/
structure Call where
  stack : Stack
  before : State
  job : Job
  after : State

/-- The declaration whose contents are resolved where a call is made. -/
def Call.place (call : Call) : Option NodeId :=
  call.stack.head?.map Frame.declaration

/-- A use site that is not remembered is visited: its children are resolved, then its meaning. -/
structure Input.Visits (input : Input) (stack : Stack) (site : Reference) (s₀ s₁ s₂ s₃ s₄ : State)
    (brackets parens : Option Node) (meaning : Option Meaning) (resolved : Reference) : Prop where
  missing : s₀.uses.find? (site.id, stack.owner?) = none
  bracketsRun : Run input stack s₀ (.child site.brackets brackets) s₁
  parensRun : Run input stack s₁ (.child site.parens parens) s₂
  meaningRun : Run input stack s₂ (.meaning site parens meaning) s₃
  rebuilt : (rebuildReference site brackets parens meaning s₃).1 = resolved
  remembered :
    (rebuildReference site brackets parens meaning s₃).2.rememberUse site.id stack.owner? resolved =
      s₄

/-- A use site that is not remembered is visited by a run. -/
theorem Run.visits {input : Input} {stack : Stack} {s s' : State} {site resolved : Reference}
    (run : Run input stack s (.node (.reference site) (.reference resolved)) s')
    (missing : s.uses.find? (site.id, stack.owner?) = none) :
    ∃ s₁ s₂ s₃ brackets parens meaning,
      input.Visits stack site s s₁ s₂ s₃ s' brackets parens meaning resolved := by
  cases run with
  | remembered _ found =>
      rw [missing] at found
      cases found
  | reference _ missing bracketsRun parensRun meaningRun rebuilt =>
      exact ⟨_, _, _, _, _, _, missing, bracketsRun, parensRun, meaningRun, by rw [rebuilt],
        by rw [rebuilt]⟩

/-- A call makes another one, the first of which has the index 0. -/
inductive Input.Starts (input : Input) : Call → Nat → Call → Prop
  | list {stack s₀ s₁ s₂ node items resolved}
      (run : Run input stack s₀ (.items node.items items) s₁)
      (rebuilt : rebuildSequence node items s₁ = (resolved, s₂)) :
      Starts input ⟨stack, s₀, .node (.list node) (.list resolved), s₂⟩ 0
        ⟨stack, s₀, .items node.items items, s₁⟩
  | block {stack s₀ s₁ s₂ node items resolved}
      (run : Run input stack s₀ (.items node.items items) s₁)
      (rebuilt : rebuildSequence node items s₁ = (resolved, s₂)) :
      Starts input ⟨stack, s₀, .node (.block node) (.block resolved), s₂⟩ 0
        ⟨stack, s₀, .items node.items items, s₁⟩
  | dim {stack s₀ s₁ node resolved} (run : Run input stack s₀ (.dim node resolved) s₁) :
      Starts input ⟨stack, s₀, .node (.dim node) (.dim resolved), s₁⟩ 0
        ⟨stack, s₀, .dim node resolved, s₁⟩
  | function {stack s₀ s₁} {node resolved : Signature .function}
      (run : Run input stack s₀ (.signature none node resolved) s₁) :
      Starts input ⟨stack, s₀, .node (.function node) (.function resolved), s₁⟩ 0
        ⟨stack, s₀, .signature none node resolved, s₁⟩
  | method {stack s₀ s₁} {node resolved : Signature .method}
      (run : Run input stack s₀ (.signature stack.receiver? node resolved) s₁) :
      Starts input ⟨stack, s₀, .node (.method node) (.method resolved), s₁⟩ 0
        ⟨stack, s₀, .signature stack.receiver? node resolved, s₁⟩
  | brackets {stack site s₀ s₁ s₂ s₃ s₄ brackets parens meaning resolved}
      (visits : input.Visits stack site s₀ s₁ s₂ s₃ s₄ brackets parens meaning resolved) :
      Starts input ⟨stack, s₀, .node (.reference site) (.reference resolved), s₄⟩ 0
        ⟨stack, s₀, .child site.brackets brackets, s₁⟩
  | parens {stack site s₀ s₁ s₂ s₃ s₄ brackets parens meaning resolved}
      (visits : input.Visits stack site s₀ s₁ s₂ s₃ s₄ brackets parens meaning resolved) :
      Starts input ⟨stack, s₀, .node (.reference site) (.reference resolved), s₄⟩ 1
        ⟨stack, s₁, .child site.parens parens, s₂⟩
  | meaning {stack site s₀ s₁ s₂ s₃ s₄ brackets parens meaning resolved}
      (visits : input.Visits stack site s₀ s₁ s₂ s₃ s₄ brackets parens meaning resolved) :
      Starts input ⟨stack, s₀, .node (.reference site) (.reference resolved), s₄⟩ 2
        ⟨stack, s₂, .meaning site parens meaning, s₃⟩
  | head {stack s₀ s₁ s₂ item items resolved resolvedItems}
      (itemRun : Run input stack s₀ (.node item resolved) s₁)
      (itemsRun : Run input stack s₁ (.items items resolvedItems) s₂) :
      Starts input ⟨stack, s₀, .items (item :: items) (resolved :: resolvedItems), s₂⟩ 0
        ⟨stack, s₀, .node item resolved, s₁⟩
  | tail {stack s₀ s₁ s₂ item items resolved resolvedItems}
      (itemRun : Run input stack s₀ (.node item resolved) s₁)
      (itemsRun : Run input stack s₁ (.items items resolvedItems) s₂) :
      Starts input ⟨stack, s₀, .items (item :: items) (resolved :: resolvedItems), s₂⟩ 1
        ⟨stack, s₁, .items items resolvedItems, s₂⟩
  | child {stack s₀ s₁ child resolved} (run : Run input stack s₀ (.node child resolved) s₁) :
      Starts input ⟨stack, s₀, .child (some child) (some resolved), s₁⟩ 0
        ⟨stack, s₀, .node child resolved, s₁⟩
  | extent {stack : Stack} {s₀ s₁ s₂ s₃ dim extent resolved} (missing : s₀.dims.find? dim.id = none)
      (idle : ¬ stack.Resolving dim.id)
      (run : Run input (.extent dim.id :: stack) s₀ (.node dim.extent extent) s₁)
      (rebuilt : rebuildDim dim extent s₁ = (resolved, s₂))
      (remembered : s₂.rememberDim dim.id resolved = s₃) :
      Starts input ⟨stack, s₀, .dim dim resolved, s₃⟩ 0
        ⟨.extent dim.id :: stack, s₀, .node dim.extent extent, s₁⟩
  | body {stack : Stack} {s₀ s₁ s₂ s₃ receiver body} {c : Callable}
      {signature resolved : Signature c}
      (missing : s₀.signature? c signature.id = none) (idle : ¬ stack.Resolving signature.id)
      (run : Run input (.body signature.id receiver signature.formals :: stack) s₀
        (.node signature.body body) s₁)
      (rebuilt : rebuildSignature signature body s₁ = (resolved, s₂))
      (remembered : s₂.rememberSignature signature.id resolved = s₃) :
      Starts input ⟨stack, s₀, .signature receiver signature resolved, s₃⟩ 0
        ⟨.body signature.id receiver signature.formals :: stack, s₀, .node signature.body body, s₁⟩
  | target {stack s₀ s₁ s₂ site parens dim resolved meaning} (known : Known parens)
      (bound : lookup input.scope stack site = .ok (.dim dim))
      (run : Run input stack s₀ (.dim dim resolved) s₁)
      (meant : meaning = some (.int, .dim resolved))
      (recorded : s₁.withEvent (.resolved site (.dim resolved) .int) = s₂) :
      Starts input ⟨stack, s₀, .meaning site parens meaning, s₂⟩ 0
        ⟨stack, s₀, .dim dim resolved, s₁⟩
  | entered {stack : Stack} {s₀ s₁ s₂ s₃ site parens binding receiver arguments meaning}
      {c : Callable} {overloads : OverloadSet (Signature c)} {resolve}
      {selected resolved : Signature c} (known : Known parens)
      (bound : lookup input.scope stack site = .ok binding)
      (calls : binding.Calls receiver overloads resolve)
      (applied : argumentsOf site parens s₀ = (arguments, s₁))
      (selects : resolve arguments site.span = .ok selected)
      (idle : ¬ stack.Resolving selected.id)
      (run : Run input stack (s₁.withEvent (overloads.choosing arguments))
        (.signature receiver selected resolved) s₂)
      (meant : meaning = some (resolved.body.ty, .signature resolved))
      (recorded : s₂.withEvent (.resolved site (.signature resolved) resolved.body.ty) = s₃) :
      Starts input ⟨stack, s₀, .meaning site parens meaning, s₃⟩ 0
        ⟨stack, s₁.withEvent (overloads.choosing arguments), .signature receiver selected resolved,
          s₂⟩

/-- A dim that is neither remembered nor in progress gets its extent from a call. -/
theorem Run.extent {input : Input} {stack : Stack} {s s' : State} {declared resolved : Dim}
    (run : Run input stack s (.dim declared resolved) s')
    (missing : s.dims.find? declared.id = none) (idle : ¬ stack.Resolving declared.id) :
    ∃ extent s₁ s₂, input.Starts ⟨stack, s, .dim declared resolved, s'⟩ 0
        ⟨.extent declared.id :: stack, s, .node declared.extent extent, s₁⟩ ∧
      rebuildDim declared extent s₁ = (resolved, s₂) := by
  cases run with
  | dimRemembered _ found =>
      rw [missing] at found
      cases found
  | dimInProgress _ _ resolving => exact absurd resolving idle
  | dimFresh _ _ _ run rebuilt => exact ⟨_, _, _, .extent missing idle run rebuilt rfl, rebuilt⟩

/-- A signature that is neither remembered nor in progress gets its body from a call. -/
theorem Run.body {input : Input} {stack : Stack} {s s' : State} {receiver : Option String}
    {c : Callable} {declared resolved : Signature c}
    (run : Run input stack s (.signature receiver declared resolved) s')
    (missing : s.signature? c declared.id = none) (idle : ¬ stack.Resolving declared.id) :
    ∃ body s₁ s₂, input.Starts ⟨stack, s, .signature receiver declared resolved, s'⟩ 0
        ⟨.body declared.id receiver declared.formals :: stack, s, .node declared.body body, s₁⟩ ∧
      rebuildSignature declared body s₁ = (resolved, s₂) := by
  cases run with
  | signatureRemembered _ found =>
      rw [missing] at found
      cases found
  | signatureInProgress _ _ resolving => exact absurd resolving idle
  | signatureFresh _ _ _ run rebuilt => exact ⟨_, _, _, .body missing idle run rebuilt rfl, rebuilt⟩

/-- A call is part of another one, which leads to it by a path of indices. -/
inductive Input.Within (input : Input) : Call → List Nat → Call → Prop
  | self (call : Call) : Within input call [] call
  | step {call index inner path last} : input.Starts call index inner →
      Within input inner path last → Within input call (index :: path) last

/-- The job of resolving an item. -/
inductive Job.Resolves : Job → Item → Item → Prop
  | dim {declared resolved} : Resolves (.dim declared resolved) (.dim declared) (.dim resolved)
  | function {declared resolved : Signature .function} :
      Resolves (.signature none declared resolved) (.function declared) (.function resolved)
  | method {receiver} {declared resolved : Signature .method} :
      Resolves (.signature (some receiver) declared resolved) (.method receiver declared)
        (.method receiver resolved)

/-- The call that resolves the item at an index, when items are resolved from a state. -/
inductive Input.Opens (input : Input) : State → List Item → Nat → Call → Prop
  | here {s s' item resolved items} {job : Job} (resolves : job.Resolves item resolved)
      (run : Run input [] s job s') : Opens input s (item :: items) 0 ⟨[], s, job, s'⟩
  | later {s s' item resolved items index call} (run : ItemRun input s item resolved s')
      (opens : Opens input s' items index call) : Opens input s (item :: items) (index + 1) call

/-- A call is made at a position of the whole resolution. -/
inductive Input.At (input : Input) : List Nat → Call → Prop
  | intro {index first path call} : input.Opens input.initial input.items index first →
      input.Within first path call → At input (index :: path) call

/-- The resolution makes a call at some position. -/
def Input.Makes (input : Input) (call : Call) : Prop :=
  ∃ position, input.At position call

variable {input : Input}

/-! ## Calls happen one after the other -/

/-- A later state: nothing is lost that was resolved, neither a declaration nor a use site. -/
structure State.Precedes (s t : State) : Prop where
  grows : s.Grows t
  uses : ∀ {key}, (s.uses.find? key).isSome → (t.uses.find? key).isSome

namespace State.Precedes

variable {s t u : State}

theorem refl (s : State) : s.Precedes s :=
  ⟨.refl s, id⟩

theorem trans (first : s.Precedes t) (second : t.Precedes u) : s.Precedes u :=
  ⟨first.grows.trans second.grows, fun known => second.uses (first.uses known)⟩

theorem of_allots (allots : s.Allots t) : s.Precedes t := by
  refine ⟨allots.grows, fun known => ?_⟩
  rcases allots with rfl | rfl <;> exact known

theorem withEvent (s : State) (event : Event) : s.Precedes (s.withEvent event) :=
  ⟨.withEvent s event, id⟩

theorem rememberUse (s : State) (site : NodeId) (owner : Option NodeId) (resolved : Reference) :
    s.Precedes (s.rememberUse site owner resolved) := by
  refine ⟨.rememberUse s site owner resolved, fun {key} known => ?_⟩
  rw [State.rememberUse, Table.find?_insert]
  split
  · rfl
  · exact known

end State.Precedes

theorem Run.precedes {stack : Stack} {s s' : State} {job : Job} (run : Run input stack s job s') :
    s.Precedes s' := by
  refine ⟨run.grows, fun known => ?_⟩
  obtain ⟨resolved, known⟩ := Option.isSome_iff_exists.mp known
  rw [run.uses_eq known]
  rfl

theorem ItemRun.precedes {s s' : State} {item resolved : Item}
    (run : ItemRun input s item resolved s') : s.Precedes s' := by
  cases run with
  | dim run | function run | method run => exact run.precedes

namespace Input.Visits

variable {stack : Stack} {site resolved : Reference} {s₀ s₁ s₂ s₃ s₄ : State}
  {brackets parens : Option Node} {meaning : Option Meaning}

/-- A visit is deterministic. -/
theorem unique {t₁ t₂ t₃ t₄ : State} {brackets' parens' : Option Node}
    {meaning' : Option Meaning} {resolved' : Reference}
    (visits : input.Visits stack site s₀ s₁ s₂ s₃ s₄ brackets parens meaning resolved)
    (visits' : input.Visits stack site s₀ t₁ t₂ t₃ t₄ brackets' parens' meaning' resolved') :
    (brackets = brackets' ∧ s₁ = t₁) ∧ (parens = parens' ∧ s₂ = t₂) ∧
      (meaning = meaning' ∧ s₃ = t₃) := by
  have first := visits.bracketsRun.evaluates.symm.trans visits'.bracketsRun.evaluates
  obtain ⟨rfl, rfl⟩ := Prod.mk.inj first
  have second := visits.parensRun.evaluates.symm.trans visits'.parensRun.evaluates
  obtain ⟨rfl, rfl⟩ := Prod.mk.inj second
  have third := visits.meaningRun.evaluates.symm.trans visits'.meaningRun.evaluates
  obtain ⟨rfl, rfl⟩ := Prod.mk.inj third
  exact ⟨⟨rfl, rfl⟩, ⟨rfl, rfl⟩, rfl, rfl⟩

/-- What is known after the meaning of a use site is known when the use site is remembered. -/
theorem precedes
    (visits : input.Visits stack site s₀ s₁ s₂ s₃ s₄ brackets parens meaning resolved) :
    s₃.Precedes s₄ := by
  rw [← visits.remembered]
  exact (State.Precedes.of_allots (allots_of_rebuildReference rfl)).trans (.rememberUse _ _ _ _)

end Input.Visits

namespace Input.Starts

variable {call inner other : Call} {index index' : Nat}

/-- A call that is made is a run. -/
theorem run (starts : input.Starts call index inner) :
    Run input inner.stack inner.before inner.job inner.after := by
  cases starts with
  | brackets visits => exact visits.bracketsRun
  | parens visits => exact visits.parensRun
  | meaning visits => exact visits.meaningRun
  | list | block | dim | function | method => assumption
  | head | tail | child | extent | body | target | entered => assumption

/-- What is known when a call is made is known inside of it. -/
theorem before (starts : input.Starts call index inner) : call.before.Precedes inner.before := by
  cases starts with
  | parens visits => exact visits.bracketsRun.precedes
  | meaning visits => exact visits.bracketsRun.precedes.trans visits.parensRun.precedes
  | tail itemRun => exact itemRun.precedes
  | entered _ _ _ applied =>
      exact (State.Precedes.of_allots (allots_of_argumentsOf applied)).trans (.withEvent _ _)
  | list | block | dim | function | method | brackets | head | child | extent | body | target =>
      exact .refl _

/-- What is known at the end of a call is known at the end of the one that made it. -/
theorem after (starts : input.Starts call index inner) : inner.after.Precedes call.after := by
  cases starts with
  | list run rebuilt | block run rebuilt =>
      exact .of_allots (allots_of_rebuildSequence rebuilt)
  | brackets visits =>
      exact visits.parensRun.precedes.trans (visits.meaningRun.precedes.trans visits.precedes)
  | parens visits => exact visits.meaningRun.precedes.trans visits.precedes
  | meaning visits => exact visits.precedes
  | head itemRun itemsRun => exact itemsRun.precedes
  | extent missing idle run rebuilt remembered =>
      subst remembered
      refine ⟨run.grows_rememberDim missing rebuilt, fun known => ?_⟩
      exact (State.Precedes.of_allots (allots_of_rebuildDim rebuilt)).uses known
  | body missing idle run rebuilt remembered =>
      subst remembered
      refine ⟨run.grows_rememberSignature missing rebuilt, fun known => ?_⟩
      rw [State.uses_rememberSignature]
      exact (State.Precedes.of_allots (allots_of_rebuildSignature rebuilt)).uses known
  | target _ _ _ _ recorded | entered _ _ _ _ _ _ _ _ recorded =>
      subst recorded
      exact .withEvent _ _
  | dim | function | method | tail | child => exact .refl _

/-- A call is determined by the one that makes it and its index. -/
theorem unique (starts : input.Starts call index inner) (again : input.Starts call index other) :
    inner = other := by
  cases starts with
  | list run =>
      cases again with
      | list again =>
          obtain ⟨rfl, rfl⟩ := Prod.mk.inj (run.evaluates.symm.trans again.evaluates)
          rfl
  | block run =>
      cases again with
      | block again =>
          obtain ⟨rfl, rfl⟩ := Prod.mk.inj (run.evaluates.symm.trans again.evaluates)
          rfl
  | dim | function | method | child =>
      cases again
      rfl
  | brackets visits =>
      cases again with
      | brackets again =>
          obtain ⟨⟨rfl, rfl⟩, -, -⟩ := visits.unique again
          rfl
  | parens visits =>
      cases again with
      | parens again =>
          obtain ⟨⟨rfl, rfl⟩, ⟨rfl, rfl⟩, -⟩ := visits.unique again
          rfl
  | meaning visits =>
      cases again with
      | meaning again =>
          obtain ⟨⟨rfl, rfl⟩, ⟨rfl, rfl⟩, rfl, rfl⟩ := visits.unique again
          rfl
  | head itemRun =>
      cases again with
      | head again =>
          obtain ⟨-, rfl⟩ := Prod.mk.inj (itemRun.evaluates.symm.trans again.evaluates)
          rfl
  | tail itemRun =>
      cases again with
      | tail again =>
          obtain ⟨-, rfl⟩ := Prod.mk.inj (itemRun.evaluates.symm.trans again.evaluates)
          rfl
  | extent _ _ run =>
      cases again with
      | extent _ _ again =>
          obtain ⟨rfl, rfl⟩ := Prod.mk.inj (run.evaluates.symm.trans again.evaluates)
          rfl
  | body _ _ run =>
      cases again with
      | body _ _ again =>
          obtain ⟨rfl, rfl⟩ := Prod.mk.inj (run.evaluates.symm.trans again.evaluates)
          rfl
  | target _ bound run =>
      cases again with
      | target _ again run' =>
          obtain rfl := Binding.dim.inj (Except.ok.inj (bound.symm.trans again))
          obtain ⟨rfl, rfl⟩ := Prod.mk.inj (run.evaluates.symm.trans run'.evaluates)
          rfl
      | entered _ again calls =>
          obtain rfl := Except.ok.inj (bound.symm.trans again)
          cases calls
  | entered _ bound calls applied selects _ run =>
      cases again with
      | target _ again =>
          obtain rfl := Except.ok.inj (bound.symm.trans again)
          cases calls
      | entered _ again calls' applied' selects' _ run' =>
          obtain rfl := Except.ok.inj (bound.symm.trans again)
          obtain ⟨rfl, rfl⟩ := Prod.mk.inj (applied.symm.trans applied')
          cases calls with
          | function | method =>
              cases calls'
              obtain rfl := Except.ok.inj (selects.symm.trans selects')
              obtain ⟨rfl, rfl⟩ := Prod.mk.inj (run.evaluates.symm.trans run'.evaluates)
              rfl

/-- Of two calls that are made, the one with the smaller index ends before the other starts. -/
theorem ordered (first : input.Starts call index inner) (second : input.Starts call index' other)
    (less : index < index') : inner.after.Precedes other.before := by
  cases first with
  | list | block | dim | function | method | child | extent | body | target | entered | tail |
      meaning =>
      cases second <;> omega
  | brackets visits =>
      cases second with
      | brackets => omega
      | parens again =>
          obtain ⟨⟨rfl, rfl⟩, -, -⟩ := visits.unique again
          exact .refl _
      | meaning again =>
          obtain ⟨⟨rfl, rfl⟩, ⟨rfl, rfl⟩, -⟩ := visits.unique again
          exact visits.parensRun.precedes
  | parens visits =>
      cases second with
      | brackets | parens => omega
      | meaning again =>
          obtain ⟨⟨rfl, rfl⟩, ⟨rfl, rfl⟩, -⟩ := visits.unique again
          exact .refl _
  | head itemRun =>
      cases second with
      | head => omega
      | tail again =>
          obtain ⟨-, rfl⟩ := Prod.mk.inj (itemRun.evaluates.symm.trans again.evaluates)
          exact .refl _

end Input.Starts

namespace Input.Within

variable {call inner other : Call} {path path' : List Nat}

theorem trans {last : Call} (first : input.Within call path inner)
    (second : input.Within inner path' last) : input.Within call (path ++ path') last := by
  induction first with
  | self => exact second
  | step starts _ induction => exact .step starts (induction second)

theorem run (within : input.Within call path inner)
    (run : Run input call.stack call.before call.job call.after) :
    Run input inner.stack inner.before inner.job inner.after := by
  induction within with
  | self => exact run
  | step starts _ induction => exact induction starts.run

theorem before (within : input.Within call path inner) : call.before.Precedes inner.before := by
  induction within with
  | self => exact .refl _
  | step starts _ induction => exact starts.before.trans induction

theorem after (within : input.Within call path inner) : inner.after.Precedes call.after := by
  induction within with
  | self => exact .refl _
  | step starts _ induction => exact induction.trans starts.after

/-- A path leads to one part. -/
theorem unique (first : input.Within call path inner) (second : input.Within call path other) :
    inner = other := by
  induction first with
  | self =>
      cases second with
      | self => rfl
  | step starts _ induction =>
      cases second with
      | step starts' within =>
          obtain rfl := starts.unique starts'
          exact induction within

/-- A part is the call itself, or it is made by another part. -/
theorem last (within : input.Within call path inner) :
    (path = [] ∧ inner = call) ∨ ∃ start index outer, path = start ++ [index] ∧
      input.Within call start outer ∧ input.Starts outer index inner := by
  induction within with
  | self => exact .inl ⟨rfl, rfl⟩
  | @step call index middle path inner starts _ induction =>
      rcases induction with ⟨rfl, rfl⟩ | ⟨start, final, outer, rfl, within, last⟩
      · exact .inr ⟨[], index, call, rfl, .self _, starts⟩
      · exact .inr ⟨index :: start, final, outer, rfl, .step starts within, last⟩

/-- Two parts of a call are nested, or one ends before the other starts. -/
theorem compare (first : input.Within call path inner) (second : input.Within call path' other) :
    (∃ rest, path' = path ++ rest ∧ input.Within inner rest other) ∨
      (∃ rest, path = path' ++ rest ∧ input.Within other rest inner) ∨
        inner.after.Precedes other.before ∨ other.after.Precedes inner.before := by
  induction first generalizing path' with
  | self => exact .inl ⟨path', rfl, second⟩
  | @step call index middle path inner starts within induction =>
      cases second with
      | self => exact .inr (.inl ⟨_, rfl, .step starts within⟩)
      | @step _ index' middle' path' _ starts' within' =>
          rcases Nat.lt_trichotomy index index' with less | rfl | greater
          · have ordered := starts.ordered starts' less
            exact .inr (.inr (.inl (within.after.trans (ordered.trans within'.before))))
          · obtain rfl := starts.unique starts'
            rcases induction within' with ⟨rest, rfl, nested⟩ | ⟨rest, rfl, nested⟩ | ordered
            · exact .inl ⟨rest, rfl, nested⟩
            · exact .inr (.inl ⟨rest, rfl, nested⟩)
            · exact .inr (.inr ordered)
          · have ordered := starts'.ordered starts greater
            exact .inr (.inr (.inr (within'.after.trans (ordered.trans within.before))))

end Input.Within

theorem Job.Resolves.itemRun {s s' : State} {job : Job} {item resolved : Item}
    (resolves : job.Resolves item resolved) (run : Run input [] s job s') :
    ItemRun input s item resolved s' := by
  cases resolves with
  | dim => exact .dim run
  | function => exact .function run
  | method => exact .method run

theorem ItemRun.unique {s s' s'' : State} {item resolved resolved' : Item}
    (run : ItemRun input s item resolved s') (again : ItemRun input s item resolved' s'') :
    resolved = resolved' ∧ s' = s'' := by
  cases run with
  | dim run =>
      cases again with
      | dim again =>
          obtain ⟨rfl, rfl⟩ := Prod.mk.inj (run.evaluates.symm.trans again.evaluates)
          exact ⟨rfl, rfl⟩
  | function run =>
      cases again with
      | function again =>
          obtain ⟨rfl, rfl⟩ := Prod.mk.inj (run.evaluates.symm.trans again.evaluates)
          exact ⟨rfl, rfl⟩
  | method run =>
      cases again with
      | method again =>
          obtain ⟨rfl, rfl⟩ := Prod.mk.inj (run.evaluates.symm.trans again.evaluates)
          exact ⟨rfl, rfl⟩

namespace Input.Opens

variable {s : State} {items : List Item} {call other : Call} {index index' : Nat}

theorem stack_eq (opens : input.Opens s items index call) : call.stack = [] := by
  induction opens with
  | here => rfl
  | later _ _ induction => exact induction

theorem resolves (opens : input.Opens s items index call) :
    ∃ item ∈ items, ∃ resolved, call.job.Resolves item resolved := by
  induction opens with
  | here resolves => exact ⟨_, List.mem_cons_self, _, resolves⟩
  | later _ _ induction =>
      obtain ⟨item, member, resolves⟩ := induction
      exact ⟨item, List.mem_cons_of_mem _ member, resolves⟩

theorem run (opens : input.Opens s items index call) :
    Run input call.stack call.before call.job call.after := by
  induction opens with
  | here _ run => exact run
  | later _ _ induction => exact induction

/-- The items before the one at an index are resolved first. -/
theorem before (opens : input.Opens s items index call) : s.Precedes call.before := by
  induction opens with
  | here => exact .refl _
  | later run _ induction => exact run.precedes.trans induction

/-- An item is resolved by one call. -/
theorem unique (opens : input.Opens s items index call)
    (again : input.Opens s items index other) : call = other := by
  induction opens with
  | here resolves run =>
      cases again with
      | here resolves' run' =>
          obtain ⟨rfl, rfl⟩ := (resolves.itemRun run).unique (resolves'.itemRun run')
          cases resolves <;> cases resolves' <;> rfl
  | later run _ induction =>
      cases again with
      | later run' again =>
          obtain ⟨-, rfl⟩ := run.unique run'
          exact induction again

/-- Items are resolved one after the other. -/
theorem ordered (first : input.Opens s items index call) (second : input.Opens s items index' other)
    (less : index < index') : call.after.Precedes other.before := by
  induction first generalizing index' with
  | here resolves run =>
      cases second with
      | here => omega
      | later run' second =>
          obtain ⟨-, rfl⟩ := (resolves.itemRun run).unique run'
          exact second.before
  | later run _ induction =>
      cases second with
      | here => omega
      | later run' second =>
          obtain ⟨-, rfl⟩ := run.unique run'
          exact induction second (by omega)

end Input.Opens

namespace Input.At

variable {call other : Call} {position position' : List Nat}

theorem run (here : input.At position call) :
    Run input call.stack call.before call.job call.after := by
  cases here with
  | intro opens within => exact within.run opens.run

theorem part {path : List Nat} (here : input.At position call)
    (within : input.Within call path other) : input.At (position ++ path) other := by
  cases here with
  | intro opens outer => exact .intro opens (outer.trans within)

theorem starts {index : Nat} (here : input.At position call)
    (starts : input.Starts call index other) : input.At (position ++ [index]) other :=
  here.part (.step starts (.self _))

/-- One call is made at a position. -/
theorem unique (first : input.At position call) (second : input.At position other) :
    call = other := by
  cases first with
  | intro opens within =>
      cases second with
      | intro opens' within' =>
          obtain rfl := opens.unique opens'
          exact within.unique within'

/-- A call resolves an item, or it is made by another call. -/
theorem maker (here : input.At position call) :
    (∃ item resolved, call.job.Resolves item resolved) ∨
      ∃ start index outer, position = start ++ [index] ∧ input.At start outer ∧
        input.Starts outer index call := by
  obtain ⟨opens, within⟩ := here
  rcases within.last with ⟨-, rfl⟩ | ⟨start, index, outer, rfl, within, starts⟩
  · obtain ⟨item, -, resolves⟩ := opens.resolves
    exact .inl ⟨item, resolves⟩
  · exact .inr ⟨_ :: start, index, outer, rfl, .intro opens within, starts⟩

/-- Two calls are nested, or one ends before the other starts. -/
theorem compare (first : input.At position call) (second : input.At position' other) :
    (∃ rest, position' = position ++ rest ∧ input.Within call rest other) ∨
      (∃ rest, position = position' ++ rest ∧ input.Within other rest call) ∨
        call.after.Precedes other.before ∨ other.after.Precedes call.before := by
  obtain ⟨opens, within⟩ := first
  obtain ⟨opens', within'⟩ := second
  rename_i index outer path index' outer' path'
  rcases Nat.lt_trichotomy index index' with less | rfl | greater
  · have ordered := opens.ordered opens' less
    exact .inr (.inr (.inl (within.after.trans (ordered.trans within'.before))))
  · obtain rfl := opens.unique opens'
    rcases within.compare within' with ⟨rest, rfl, nested⟩ | ⟨rest, rfl, nested⟩ | ordered
    · exact .inl ⟨rest, rfl, nested⟩
    · exact .inr (.inl ⟨rest, rfl, nested⟩)
    · exact .inr (.inr ordered)
  · have ordered := opens'.ordered opens greater
    exact .inr (.inr (.inr (within'.after.trans (ordered.trans within.before))))

end Input.At

/-! ## From the first call to the last -/

/-- An item is resolved by one job. -/
theorem ItemRun.resolves {s s' : State} {item resolved : Item}
    (run : ItemRun input s item resolved s') :
    ∃ job : Job, job.Resolves item resolved ∧ Run input [] s job s' := by
  cases run with
  | dim run => exact ⟨_, .dim, run⟩
  | function run => exact ⟨_, .function, run⟩
  | method run => exact ⟨_, .method, run⟩

theorem ItemsRun.precedes {s s' : State} {items resolved : List Item}
    (run : ItemsRun input s items resolved s') : s.Precedes s' := by
  induction run with
  | nil => exact .refl _
  | cons itemRun _ induction => exact itemRun.precedes.trans induction

/-- Items are resolved one by one, each of them by the call that is opened at its index. -/
theorem ItemsRun.opens {s s' : State} {items resolved : List Item}
    (run : ItemsRun input s items resolved s') :
    List.Forall₂ (fun item resolved => ∃ index call, input.Opens s items index call ∧
      call.job.Resolves item resolved) items resolved := by
  induction run with
  | nil => exact .nil
  | cons itemRun itemsRun induction =>
      obtain ⟨job, resolves, run⟩ := itemRun.resolves
      refine .cons ⟨0, _, .here resolves run, resolves⟩ (induction.imp ?_)
      intro item resolved opened
      obtain ⟨index, call, opens, resolves⟩ := opened
      exact ⟨index + 1, call, .later itemRun opens, resolves⟩

/-- What is known after an item is known after the last one. -/
theorem Input.Opens.after {s s' : State} {items resolved : List Item} {index : Nat} {call : Call}
    (opens : input.Opens s items index call) (run : ItemsRun input s items resolved s') :
    call.after.Precedes s' := by
  induction opens generalizing resolved with
  | here resolves first =>
      cases run with
      | cons itemRun itemsRun =>
          obtain ⟨-, rfl⟩ := (resolves.itemRun first).unique itemRun
          exact itemsRun.precedes
  | later itemRun _ induction =>
      cases run with
      | cons itemRun' itemsRun =>
          obtain ⟨-, rfl⟩ := itemRun.unique itemRun'
          exact induction itemsRun

namespace Input.Makes

variable {call other : Call}

theorem run (made : input.Makes call) : Run input call.stack call.before call.job call.after := by
  obtain ⟨position, here⟩ := made
  exact here.run

theorem starts {index : Nat} (made : input.Makes call) (starts : input.Starts call index other) :
    input.Makes other := by
  obtain ⟨position, here⟩ := made
  exact ⟨_, here.starts starts⟩

theorem of_opens {index : Nat} (opens : input.Opens input.initial input.items index call) :
    input.Makes call :=
  ⟨_, .intro opens (.self call)⟩

/-- What holds of the calls that resolve the items, and passes from a call to those that it makes,
holds of all calls. -/
theorem induct {P : Call → Prop}
    (opens : ∀ {index call}, input.Opens input.initial input.items index call → P call)
    (starts : ∀ {call index inner}, input.Makes call → P call → input.Starts call index inner →
      P inner) (made : input.Makes call) : P call := by
  obtain ⟨position, first, within⟩ := made
  have holds := opens first
  replace first := of_opens first
  induction within with
  | self => exact holds
  | step next _ induction => exact induction (starts first holds next) (first.starts next)

/-- What is known after a call is known at the end. -/
theorem after (made : input.Makes call) : call.after.Precedes input.final := by
  obtain ⟨position, opens, within⟩ := made
  exact within.after.trans (opens.after input.itemsRun)

section Kept

variable {P : State → Prop} (advance : ∀ {s}, P s → P s.advance)
  (withEvent : ∀ {s event}, P s → P (s.withEvent event))
  (kept : ∀ {call}, input.Makes call → P call.before → P call.after)

include advance withEvent kept

theorem keeps_starts {index : Nat} (made : input.Makes call) (holds : P call.before)
    (starts : input.Starts call index other) : P other.before := by
  cases starts with
  | list | block | dim | function | method | brackets | head | child | extent | body | target =>
      exact holds
  | parens visits => exact kept (made.starts (.brackets visits)) holds
  | meaning visits =>
      exact kept (made.starts (.parens visits)) (kept (made.starts (.brackets visits)) holds)
  | tail itemRun itemsRun => exact kept (made.starts (.head itemRun itemsRun)) holds
  | entered _ _ _ applied =>
      rcases allots_of_argumentsOf applied with rfl | rfl
      · exact withEvent holds
      · exact withEvent (advance holds)

theorem keeps_within {path : List Nat} (made : input.Makes call) (holds : P call.before)
    (within : input.Within call path other) : P other.before := by
  induction within with
  | self => exact holds
  | step starts _ induction =>
      exact induction (made.starts starts) (keeps_starts advance withEvent kept made holds starts)

omit advance withEvent in
theorem keeps_opens {s : State} {items : List Item} {index : Nat} (holds : P s)
    (made : ∀ {index call}, input.Opens s items index call → input.Makes call)
    (opens : input.Opens s items index call) : P call.before := by
  induction opens with
  | here => exact holds
  | later run _ induction =>
      obtain ⟨job, resolves, first⟩ := run.resolves
      exact induction (kept (made (.here resolves first)) holds)
        fun opens => made (.later run opens)

/-- What holds at first and is kept by every call holds where a call is made. -/
theorem keeps (initial : P input.initial) (made : input.Makes call) : P call.before := by
  obtain ⟨position, opens, within⟩ := made
  have holds := keeps_opens kept initial of_opens opens
  exact keeps_within advance withEvent kept (of_opens opens) holds within

omit advance withEvent in
theorem keeps_items {s s' : State} {items resolved : List Item}
    (run : ItemsRun input s items resolved s') (holds : P s)
    (made : ∀ {index call}, input.Opens s items index call → input.Makes call) : P s' := by
  induction run with
  | nil => exact holds
  | cons run _ induction =>
      obtain ⟨job, resolves, first⟩ := run.resolves
      exact induction (kept (made (.here resolves first)) holds)
        fun opens => made (.later run opens)

omit advance withEvent in
/-- What holds at first and is kept by every call holds at the end. -/
theorem keeps_final (initial : P input.initial) : P input.final :=
  keeps_items kept input.itemsRun initial of_opens

end Kept

end Input.Makes

/-- Every item is resolved by a call that is made outside of all declarations. -/
theorem Input.makes_items (input : Input) :
    List.Forall₂ (fun item resolved => ∃ call, input.Makes call ∧ call.stack = [] ∧
      call.job.Resolves item resolved) input.items input.resolved.items :=
  input.itemsRun.opens.imp fun _ _ ⟨_, call, opens, resolves⟩ =>
    ⟨call, .of_opens opens, opens.stack_eq, resolves⟩

end ModelLang.Resolution
