import Mathlib.Data.List.FinRange
import ModelLang.Proofs.Resolution.Contexts

/-!
# Use sites are looked up once in each declaration

What a use site means is remembered for the signature that owns it, so it is looked up once in the
body of a signature.  The entry is made only after the children and the target of the use site were
resolved, and that walk may come back to the same use site in between: not in the same contents,
which are walked over once, but in the extent of another dim, since extents have no owner to tell
them apart.  So a use site that several extents share is looked up once in each of them at most,
and one of two lookups then happens inside of the other.
-/

namespace ModelLang.Resolution

section Runs

variable {input : Input}

/-- A use site is remembered after a call that was made for it. -/
theorem Run.find?_uses {stack : Stack} {s s' : State} {site resolved : Reference}
    (run : Run input stack s (.node (.reference site) (.reference resolved)) s') :
    s'.uses.find? (site.id, stack.owner?) = some resolved := by
  cases run with
  | remembered _ found => exact found
  | reference => exact Table.find?_insert_self _ _ _

/-! ## Two calls for one use site -/

section Processing

variable {call other : Call} {site : Reference}

/-- A use site is not processed after it was remembered for its owner. -/
theorem Call.Processes.not_precedes (processes : call.Processes site) (again : other.Processes site)
    (owner : call.stack.owner? = other.stack.owner?)
    (run : Run input call.stack call.before call.job call.after) :
    ¬ call.after.Precedes other.before := by
  intro ordered
  obtain ⟨⟨resolved, job⟩, -⟩ := processes
  rw [job] at run
  have known := ordered.uses (Option.isSome_of_eq_some run.find?_uses)
  rw [owner, again.2] at known
  cases known

/-- A use site is processed inside of its own processing only in the extent of another dim. -/
theorem Call.Processes.nested {path : List Nat} (processes : call.Processes site)
    (again : other.Processes site) (owner : call.stack.owner? = other.stack.owner?)
    (within : input.Within call path other) (inside : path ≠ [])
    (run : Run input call.stack call.before call.job call.after) :
    call.stack.owner? = none ∧ call.place ≠ other.place := by
  have apart : call.place ≠ other.place := by
    intro same
    -- In one context a nested call is about a part of the use site, never about the use site.
    have stack_eq := (within.run run).allowed.stack.eq_of_suffix within.stack_suffix same.symm
    have less := within.weight_lt inside stack_eq
    obtain ⟨⟨resolved, job⟩, -⟩ := processes
    obtain ⟨⟨resolved', job'⟩, -⟩ := again
    rw [job, job'] at less
    exact Nat.lt_irrefl _ less
  refine ⟨?_, apart⟩
  cases owned : call.stack.owner? with
  | none => rfl
  | some id =>
      rw [owned] at owner
      -- The owner is opened once, so both calls are in its context.
      refine absurd ?_ apart
      rw [place, place, Stack.place_of_owner owned, Stack.place_of_owner owner.symm]

/-- Two calls that process a use site for one owner are the same, unless they are nested in
different extents. -/
theorem Input.At.eq_or_nested {position position' : List Nat} (first : input.At position call)
    (second : input.At position' other) (processes : call.Processes site)
    (again : other.Processes site) (owner : call.stack.owner? = other.stack.owner?) :
    position = position' ∨ call.stack.owner? = none ∧ call.place ≠ other.place ∧
      (position <+: position' ∨ position' <+: position) := by
  rcases first.compare second with ⟨rest, rfl, within⟩ | ⟨rest, rfl, within⟩ | ordered
  · by_cases inside : rest = []
    · exact .inl (by simp [inside])
    · obtain ⟨global, apart⟩ := processes.nested again owner within inside first.run
      exact .inr ⟨global, apart, .inl (List.prefix_append _ _)⟩
  · by_cases inside : rest = []
    · exact .inl (by simp [inside])
    · obtain ⟨global, apart⟩ := again.nested processes owner.symm within inside second.run
      exact .inr ⟨owner.trans global, apart.symm, .inr (List.prefix_append _ _)⟩
  · rcases ordered with ordered | ordered
    · exact absurd ordered (processes.not_precedes again owner first.run)
    · exact absurd ordered (again.not_precedes processes owner.symm second.run)

end Processing

/-! ## Lookups and errors -/

/-- A call looks for the meaning of a use site. -/
def Call.LooksUp (call : Call) (site : Reference) : Prop :=
  ∃ parens meaning, call.job = .meaning site parens meaning

/-- A call ends with an error instead of a meaning of a use site. -/
def Call.Reports (call : Call) (site : Reference) (error : Diagnostic) : Prop :=
  (∃ parens, call.job = .meaning site parens none) ∧
    call.after.errors = call.before.errors ++ [error]

theorem Call.Reports.looksUp {call : Call} {site : Reference} {error : Diagnostic}
    (reports : call.Reports site error) : call.LooksUp site :=
  reports.1.imp fun _ job => ⟨none, job⟩

/-- The use sites that two calls look up are the same when they bear one identity. -/
theorem Call.LooksUp.site_eq {call other : Call} {site site' : Reference}
    (looks : call.LooksUp site) (again : other.LooksUp site')
    (run : Run input call.stack call.before call.job call.after)
    (run' : Run input other.stack other.before other.job other.after)
    (same : site.id = site'.id) : site = site' := by
  obtain ⟨parens, meaning, job⟩ := looks
  obtain ⟨parens', meaning', job'⟩ := again
  have inside := run.allowed.job
  have inside' := run'.allowed.job
  rw [job] at inside
  rw [job'] at inside'
  exact Node.reference.inj (input.graph.eq_of_id inside.1 inside'.1 same)

section Lookups

variable {position position' : List Nat} {call other : Call} {site : Reference}

/-- The meaning of a use site is looked for where it is processed. -/
theorem Input.At.processed (here : input.At position call) (looks : call.LooksUp site) :
    ∃ start outer, position = start ++ [2] ∧ input.At start outer ∧ outer.Processes site ∧
      outer.stack = call.stack := by
  obtain ⟨parens, meaning, job⟩ := looks
  obtain ⟨stack, s, job, s'⟩ := call
  cases job
  rcases here.maker with ⟨item, resolved, resolves⟩ | ⟨start, index, outer, rfl, outerHere, starts⟩
  · cases resolves
  · cases starts with
    | meaning visits => exact ⟨start, _, rfl, outerHere, ⟨⟨_, rfl⟩, visits.missing⟩, rfl⟩

/-- The meaning of a use site is looked for once for every owner, or in different extents. -/
theorem Input.At.eq_of_looksUp (first : input.At position call) (second : input.At position' other)
    (looks : call.LooksUp site) (again : other.LooksUp site)
    (owner : call.stack.owner? = other.stack.owner?) :
    position = position' ∨ call.stack.owner? = none ∧ call.place ≠ other.place := by
  obtain ⟨start, outer, rfl, outerHere, processes, sameStack⟩ := first.processed looks
  obtain ⟨start', outer', rfl, outerHere', processes', sameStack'⟩ := second.processed again
  rw [Call.place, Call.place, ← sameStack, ← sameStack']
  rw [← sameStack, ← sameStack'] at owner
  rcases outerHere.eq_or_nested outerHere' processes processes' owner with rfl | nested
  · exact .inl rfl
  · exact .inr ⟨nested.1, nested.2.1⟩

end Lookups

/-- Every error that is new in a later state was reported by a lookup. -/
structure Input.Explains (input : Input) (s t : State) : Prop where
  source : ∀ {earlier error later}, t.errors = earlier ++ error :: later →
    s.errors.length ≤ earlier.length → ∃ call site, input.Makes call ∧
      call.before.errors = earlier ∧ call.Reports site error

namespace Input.Explains

variable {s t u : State}

theorem of_eq (same : t.errors = s.errors) : input.Explains s t := by
  refine ⟨fun {earlier error later} split new => ?_⟩
  rw [← same, split, List.length_append, List.length_cons] at new
  omega

theorem trans (first : input.Explains s t) (second : input.Explains t u)
    (grows : t.errors <+: u.errors) : input.Explains s u := by
  refine ⟨fun {earlier error later} split new => ?_⟩
  rcases Nat.lt_or_ge earlier.length t.errors.length with old | new'
  · have start : earlier ++ [error] <+: u.errors := ⟨later, by simp [split]⟩
    have within : (earlier ++ [error]).length ≤ t.errors.length := by
      rw [List.length_append]
      exact old
    obtain ⟨later', split'⟩ := List.prefix_of_prefix_length_le start grows within
    exact first.source (by simpa using split'.symm) new
  · exact second.source split new'

theorem trans_eq (first : input.Explains s t) (same : u.errors = t.errors) : input.Explains s u :=
  first.trans (.of_eq same) (same ▸ List.prefix_rfl)

/-- A lookup that adds one error explains it. -/
theorem of_reports {call : Call} {site : Reference} {error : Diagnostic} (made : input.Makes call)
    (reports : call.Reports site error) : input.Explains call.before call.after := by
  refine ⟨fun {earlier other later} split new => ?_⟩
  rw [reports.2] at split
  have lengths := congrArg List.length split
  simp only [List.length_append, List.length_cons, List.length_nil] at lengths
  obtain ⟨same, rest⟩ := List.append_inj split (by omega)
  obtain ⟨rfl, -⟩ := List.cons.inj rest
  exact ⟨call, site, made, same, reports⟩

end Input.Explains

theorem Run.explains {stack : Stack} {s s' : State} {job : Job} (run : Run input stack s job s')
    (made : input.Makes ⟨stack, s, job, s'⟩) : input.Explains s s' := by
  induction run with
  | literal | typeRef | param | remembered | nil | noChild => exact .of_eq rfl
  | dimRemembered | dimInProgress | signatureRemembered | signatureInProgress | skipped =>
      exact .of_eq rfl
  | list allowed run rebuilt induction =>
      exact (induction (made.starts (.list run rebuilt))).trans_eq
        (allots_of_rebuildSequence rebuilt).errors_eq
  | block allowed run rebuilt induction =>
      exact (induction (made.starts (.block run rebuilt))).trans_eq
        (allots_of_rebuildSequence rebuilt).errors_eq
  | dim allowed run induction => exact induction (made.starts (.dim run))
  | function allowed run induction => exact induction (made.starts (.function run))
  | method allowed run induction => exact induction (made.starts (.method run))
  | child allowed run induction => exact induction (made.starts (.child run))
  | reference allowed missing bracketsRun parensRun meaningRun rebuilt brackets parens meaning =>
      have visits : input.Visits _ _ _ _ _ _ _ _ _ _ _ :=
        ⟨missing, bracketsRun, parensRun, meaningRun, by rw [rebuilt], by rw [rebuilt]⟩
      have brackets := brackets (made.starts (.brackets visits))
      have parens := parens (made.starts (.parens visits))
      have meaning := meaning (made.starts (.meaning visits))
      have children := brackets.trans parens parensRun.grows.errors
      exact (children.trans meaning meaningRun.grows.errors).trans_eq
        (allots_of_rebuildReference rebuilt).errors_eq
  | cons allowed itemRun itemsRun item items =>
      have item := item (made.starts (.head itemRun itemsRun))
      exact item.trans (items (made.starts (.tail itemRun itemsRun))) itemsRun.grows.errors
  | dimFresh allowed missing idle run rebuilt induction =>
      exact (induction (made.starts (.extent missing idle run rebuilt rfl))).trans_eq
        (allots_of_rebuildDim rebuilt).errors_eq
  | signatureFresh allowed missing idle run rebuilt induction =>
      refine (induction (made.starts (.body missing idle run rebuilt rfl))).trans_eq ?_
      rw [State.errors_rememberSignature, (allots_of_rebuildSignature rebuilt).errors_eq]
  | unbound => exact .of_reports made ⟨⟨_, rfl⟩, rfl⟩
  | paramMeant => exact .of_eq rfl
  | dimMeant allowed known bound run induction =>
      exact (induction (made.starts (.target known bound run rfl rfl))).trans_eq rfl
  | refused allowed known bound calls applied =>
      exact .of_reports made
        ⟨⟨_, rfl⟩, congrArg (· ++ [_]) (allots_of_argumentsOf applied).errors_eq⟩
  | recursive allowed known bound calls applied =>
      exact .of_eq (allots_of_argumentsOf applied).errors_eq
  | entered allowed known bound calls applied selects idle run induction =>
      have enters := made.starts (.entered known bound calls applied selects idle run rfl rfl)
      refine Input.Explains.trans (.of_eq ?_) ((induction enters).trans_eq rfl) run.grows.errors
      exact (allots_of_argumentsOf applied).errors_eq

/-- Every error was reported by a lookup. -/
theorem Input.explains (input : Input) : input.Explains input.initial input.final :=
  Input.Makes.keeps_final
    (fun made before => before.trans (made.run.explains made) made.run.grows.errors) (.of_eq rfl)

/-- A lookup reports one error. -/
theorem Call.Reports.unique {call : Call} {site site' : Reference} {error error' : Diagnostic}
    (reports : call.Reports site error) (again : call.Reports site' error') :
    site = site' ∧ error = error' := by
  obtain ⟨⟨parens, job⟩, errors⟩ := reports
  obtain ⟨⟨parens', job'⟩, errors'⟩ := again
  cases job.symm.trans job'
  exact ⟨rfl, by simpa using errors.symm.trans errors'⟩

/-- A lookup that ends with an error makes no other call. -/
theorem Call.Reports.alone {call inner : Call} {site : Reference} {error : Diagnostic} {index : Nat}
    (reports : call.Reports site error) : ¬ input.Starts call index inner := by
  obtain ⟨stack, s, job, s'⟩ := call
  obtain ⟨⟨parens, rfl⟩, -⟩ := reports
  intro starts
  cases starts with
  | target _ _ _ meant => cases meant
  | entered _ _ _ _ _ _ _ meant => cases meant

/-- Two lookups that report after the same errors are the same. -/
theorem Input.At.eq_of_reports {position position' : List Nat} {call other : Call}
    {site site' : Reference} {error error' : Diagnostic} (first : input.At position call)
    (second : input.At position' other) (reports : call.Reports site error)
    (again : other.Reports site' error') (same : call.before.errors = other.before.errors) :
    position = position' := by
  -- After one of them there are more errors than before the other.
  have apart {call other : Call} {site : Reference} {error : Diagnostic}
      (reports : call.Reports site error) (same : call.before.errors = other.before.errors) :
      ¬ call.after.Precedes other.before := by
    intro ordered
    have longer := ordered.grows.errors.length_le
    rw [reports.2, same, List.length_append, List.length_singleton] at longer
    omega
  rcases first.compare second with ⟨rest, rfl, within⟩ | ⟨rest, rfl, within⟩ | ordered | ordered
  · cases within with
    | self => simp
    | step starts => exact absurd starts reports.alone
  · cases within with
    | self => simp
    | step starts => exact absurd starts again.alone
  · exact absurd ordered (apart reports same)
  · exact absurd ordered (apart again same.symm)

/-- The errors are those that lookups report, one for each key, if a key stands for one lookup. -/
theorem Input.exists_sources {κ : Type} (input : Input) (key : Reference → Call → κ)
    (unique : ∀ {position position' call other site site' error error'}, input.At position call →
      input.At position' other → call.Reports site error → other.Reports site' error' →
        key site call = key site' other → position = position') :
    ∃ sources : List (κ × Diagnostic), sources.map Prod.snd = input.final.errors ∧
      (sources.map Prod.fst).Nodup ∧ ∀ source, source ∈ sources ↔
        ∃ call site, input.Makes call ∧ call.Reports site source.2 ∧ source.1 = key site call := by
  have split (index : Fin input.final.errors.length) : input.final.errors =
      input.final.errors.take index ++ input.final.errors[index] ::
        input.final.errors.drop (index + 1) := by simp
  choose call site made earlier reports using fun index =>
    input.explains.source (split index) (Nat.zero_le _)
  refine ⟨List.ofFn fun index => (key (site index) (call index), input.final.errors[index]),
    ?_, ?_, fun source => ⟨fun member => ?_, fun ⟨other, site', made', reports', isKey⟩ => ?_⟩⟩
  · rw [List.map_ofFn]
    exact List.ofFn_getElem
  · rw [List.map_ofFn]
    refine List.nodup_ofFn.mpr fun index index' same => ?_
    obtain ⟨position, here⟩ := made index
    obtain ⟨position', here'⟩ := made index'
    obtain rfl := unique here here' (reports index) (reports index') same
    have sameErrors := (earlier index).symm.trans
      ((congrArg (fun call => call.before.errors) (here.unique here')).trans (earlier index'))
    have lengths := congrArg List.length sameErrors
    rw [List.length_take, List.length_take] at lengths
    omega
  · obtain ⟨index, rfl⟩ := (List.mem_ofFn' _ _).mp member
    exact ⟨call index, site index, made index, reports index, rfl⟩
  · obtain ⟨later, isLast⟩ := made'.after.grows.errors
    rw [reports'.2, List.append_assoc, List.singleton_append] at isLast
    have inRange : other.before.errors.length < input.final.errors.length := by
      rw [← isLast, List.length_append, List.length_cons]
      omega
    have takes : input.final.errors.take other.before.errors.length = other.before.errors := by
      rw [← isLast, List.take_left]
    obtain ⟨position, here⟩ := made ⟨_, inRange⟩
    obtain ⟨position', here'⟩ := made'
    obtain rfl := here.eq_of_reports here' (reports _) reports' ((earlier _).trans takes)
    have again := reports ⟨_, inRange⟩
    rw [here.unique here'] at again
    obtain ⟨sameSite, sameError⟩ := again.unique reports'
    have sameKey : key (site ⟨_, inRange⟩) (call ⟨_, inRange⟩) = source.1 := by
      rw [sameSite, here.unique here', isKey]
    exact (List.mem_ofFn' _ _).mpr ⟨⟨_, inRange⟩, Prod.ext sameKey sameError⟩

/-- No two errors were reported for one use site in the contents of one declaration. -/
theorem Input.error_sources (input : Input) :
    ∃ sources : List ((NodeId × Option NodeId) × Diagnostic),
      sources.map Prod.snd = input.final.errors ∧ (sources.map Prod.fst).Nodup ∧
        ∀ source, source ∈ sources ↔ ∃ call site, input.Makes call ∧
          call.Reports site source.2 ∧ source.1 = (site.id, call.place) := by
  refine input.exists_sources (fun site call => (site.id, call.place)) ?_
  intro position position' call other site site' error error' here here' reports reports' same
  obtain ⟨sameId, samePlace⟩ := Prod.mk.inj same
  have sameSite := reports.looksUp.site_eq reports'.looksUp here.run here'.run sameId
  subst sameSite
  have owner := here.run.allowed.stack.owner_eq here'.run.allowed.stack samePlace
  rcases here.eq_of_looksUp here' reports.looksUp reports'.looksUp owner with same | ⟨-, apart⟩
  · exact same
  · exact absurd samePlace apart

/-! ## Use sites in the output -/

/-- A use site is looked up in the extents of two dims. -/
def Input.LooksUpTwice (input : Input) (site : Reference) : Prop :=
  ∃ call other, input.Makes call ∧ input.Makes other ∧ call.LooksUp site ∧ other.LooksUp site ∧
    call.stack.owner? = none ∧ other.stack.owner? = none ∧ call.place ≠ other.place

/-- A use site that is processed is looked up in its context. -/
theorem Call.Processes.looksUp {call : Call} {site : Reference} (processes : call.Processes site)
    (made : input.Makes call) :
    ∃ other, input.Makes other ∧ other.LooksUp site ∧ other.stack = call.stack := by
  obtain ⟨⟨resolved, job⟩, missing⟩ := processes
  obtain ⟨stack, s, job, s'⟩ := call
  cases job
  obtain ⟨s₁, s₂, s₃, brackets, parens, meaning, visits⟩ := Run.visits made.run missing
  exact ⟨_, made.starts (.meaning visits), ⟨_, _, rfl⟩, rfl⟩

/-- What is returned for a use site is what is remembered for it at the end, unless it was looked
up twice. -/
theorem Input.Returns.find?_uses {owner : Option NodeId} {site : Reference} {returned : Node}
    (returns : input.Returns input.final owner (.reference site) returned) :
    ∃ found, returned = .reference found ∧
      (input.final.uses.find? (site.id, owner) = some found ∨
        owner = none ∧ input.LooksUpTwice site) := by
  obtain ⟨found, call, rfl, made, -, processes, job, rfl⟩ := returns.processes
  have run := made.run
  rw [job] at run
  have known := made.after.uses (Option.isSome_of_eq_some run.find?_uses)
  obtain ⟨last, isLast⟩ := Option.isSome_iff_exists.mp known
  obtain ⟨other, site', made', -, processes', job', sameId, owner⟩ := input.origins.uses isLast
  have inside := made'.run.allowed.job
  rw [job'] at inside
  cases input.graph.eq_of_id inside run.allowed.job sameId
  refine ⟨found, rfl, ?_⟩
  obtain ⟨position, here⟩ := made
  obtain ⟨position', here'⟩ := made'
  rcases here.eq_or_nested here' processes processes' owner.symm with rfl | ⟨global, apart, -⟩
  · cases here.unique here'
    cases job.symm.trans job'
    exact .inl isLast
  · obtain ⟨lookup, looking, looks, stack_eq⟩ := processes.looksUp ⟨_, here⟩
    obtain ⟨lookup', looking', looks', stack_eq'⟩ := processes'.looksUp ⟨_, here'⟩
    rw [Call.place, Call.place, ← stack_eq, ← stack_eq'] at apart
    refine .inr ⟨global, lookup, lookup', looking, looking', looks, looks', ?_, ?_, apart⟩
    · rw [stack_eq, global]
    · rw [stack_eq', owner, global]

/-- For each owner a use site is looked up once, or once in each of several extents.  There is at
most one error for a use site in the contents of one declaration.  Wherever a use site stands in
the resolved contents of a declaration, there is the one node that is remembered for its owner, or
the owner is none and the use site was looked up twice. -/
theorem Input.looked_up_once (input : Input) :
    (∀ {position position' call other site}, input.At position call → input.At position' other →
      call.LooksUp site → other.LooksUp site → call.stack.owner? = other.stack.owner? →
        position = position' ∨ call.stack.owner? = none ∧ call.place ≠ other.place) ∧
      (∃ sources : List ((NodeId × Option NodeId) × Diagnostic),
        sources.map Prod.snd = input.resolved.errors ∧ (sources.map Prod.fst).Nodup ∧
          ∀ source, source ∈ sources ↔ ∃ call site, input.Makes call ∧
            call.Reports site source.2 ∧ source.1 = (site.id, call.place)) ∧
      List.Forall₂ (fun item resolved => input.Resolves item.node resolved.node) input.items
        input.resolved.items ∧
      ∀ {declared resolved contents path site}, input.Resolves declared resolved →
        declared.contents? = some contents → contents.local? path = some (.reference site) →
          ∃ contents' found, resolved.contents? = some contents' ∧
            contents'.local? path = some (.reference found) ∧
              (input.final.uses.find? (site.id, declared.owner?) = some found ∨
                declared.owner? = none ∧ input.LooksUpTwice site) := by
  refine ⟨fun first second => first.eq_of_looksUp second, input.error_sources,
    input.resolves_items, fun resolves isContents here => ?_⟩
  obtain ⟨contents', isContents', returns⟩ := resolves.returns isContents
  obtain ⟨returned, here', returns⟩ := returns.local? here
  obtain ⟨found, rfl, outcome⟩ := returns.find?_uses
  exact ⟨contents', found, isContents', here', outcome⟩

end Runs

/-! ## A use site that two extents share -/

namespace SharedExtent

def useB : Reference := ⟨0, none, "b", none, none, .unknown, none, {}⟩
def shared : Reference := ⟨1, none, "x", some (.reference useB), none, .unknown, none, {}⟩
def a : Dim := ⟨2, "a", .reference shared, {}⟩
def b : Dim := ⟨3, "b", .reference shared, {}⟩

def nodes : List Node := [.reference useB, .reference shared, .dim a, .dim b]

def graph : Graph :=
  .ofList nodes (by simp [nodes, useB, shared, a, b, Node.children]) (by decide)

def items : List Item := [.dim a, .dim b]

theorem listed : ∀ item ∈ items, item.node ∈ graph := by
  intro item member
  change item.node ∈ nodes
  simp only [items, List.mem_cons, List.not_mem_nil, or_false] at member
  rcases member with rfl | rfl <;> simp [nodes, Item.node]

def scope : Scope := { dims := ⟨[("a", a), ("b", b)]⟩ }

def firstScope : Scope := { dims := ⟨[("a", a)]⟩ }

theorem scope_declares : scope.Declares graph := by
  have first : firstScope.Declares graph := .declare .empty (listed (.dim a) (by simp [items]))
    (rfl : Scope.declare {} true _ = .ok firstScope)
  exact .declare first (listed (.dim b) (by simp [items]))
    (rfl : Scope.declare firstScope true _ = .ok scope)

def input : Input where
  graph
  scope
  items
  next := 4
  declares := scope_declares
  listed
  below {node} inside := (by decide : ∀ node ∈ nodes, node.id < 4) node inside

def unknownX : Diagnostic := .unknownName "x" {}

/-- Inside of the extent of `a`, the extent of `b` is resolved first, and meets itself. -/
def innerUse : Reference := { useB with id := 4, ty := .int, target := some (.dim b) }
def innerShared : Reference := { shared with id := 5, brackets := some (.reference innerUse) }
def resolvedB : Dim := { b with id := 6, extent := .reference innerShared }
def outerUse : Reference := { useB with id := 7, ty := .int, target := some (.dim resolvedB) }
def outerShared : Reference := { shared with id := 8, brackets := some (.reference outerUse) }
def resolvedA : Dim := { a with id := 9, extent := .reference outerShared }

theorem items_eq : input.resolved.items = [.dim resolvedA, .dim resolvedB] := rfl

theorem find?_shared : input.final.uses.find? (1, none) = some outerShared := rfl

theorem resolves_b : input.Resolves (.dim b) (.dim resolvedB) :=
  .dim (listed (.dim b) (by simp [items])) rfl

end SharedExtent

open SharedExtent in
/-- The extents of `dim a[x[b]]` and `dim b[x[b]]` are one use site.  It is looked up twice, the
same error is reported twice, and it stands for two nodes in the resolved dims. -/
theorem looked_up_once_sharedExtent :
    a.extent = b.extent ∧ input.resolved.items = [.dim resolvedA, .dim resolvedB] ∧
      resolvedA.extent ≠ resolvedB.extent ∧ input.resolved.errors = [unknownX, unknownX] ∧
      input.LooksUpTwice shared := by
  refine ⟨rfl, items_eq, by simp [resolvedA, resolvedB, outerShared, innerShared], rfl, ?_⟩
  obtain ⟨contents, found, isContents, isFound, remembered | twice⟩ :=
    input.looked_up_once.2.2.2 resolves_b rfl
      (rfl : b.extent.local? [] = some (.reference shared))
  · cases isContents
    cases isFound
    have same := remembered.symm.trans find?_shared
    simp [innerShared, outerShared] at same
  · exact twice.2

end ModelLang.Resolution
