import ModelLang.Proofs.Resolution.Adequacy

/-!
# A run is the walk

A run says no more than the walk does: carried out through enough levels of declarations, the walk
returns what the run returns, in the state that the run ends in.  Together with the converse, that
the walk is a run, this makes runs deterministic, so the parts of a resolution can be spoken of as
things that happen at one place each.
-/

namespace ModelLang.Resolution

/-- The walk through the levels of declarations that may be opened on top of a stack. -/
def Input.walk (input : Input) (stack : Stack) : Walk :=
  visit input.scope (input.next - stack.length)

/-- The walk over a node that is met on top of a stack. -/
def Input.walkHere (input : Input) (stack : Stack) (node : Node) : ResolveM Node :=
  (resolving input.scope (input.walk stack) stack).visit node

/-- The walk carries out a job. -/
def Job.Evaluates (input : Input) (stack : Stack) (s s' : State) : Job → Prop
  | node given returned => input.walkHere stack given s = (returned, s')
  | items given returned =>
      Traversal.runAll (given.map fun item _ => input.walkHere stack item) s = (returned, s')
  | child given returned =>
      Traversal.runChild (given.map fun child _ => input.walkHere stack child) s = (returned, s')
  | dim given returned => resolveDim (input.walk stack) stack given s = (returned, s')
  | signature receiver given returned =>
      resolveSignature (input.walk stack) stack receiver given s = (returned, s')
  | meaning site parens returned =>
      findMeaning input.scope (input.walk stack) stack site parens s = (returned, s')

variable {input : Input} {stack : Stack} {s s' : State} {job : Job}

/-- The contents of a declaration that is opened are walked over with one level less. -/
theorem Input.walk_push {frame : Frame} (proper : Stack.Of input.graph (frame :: stack))
    (node : Node) :
    input.walk stack (frame :: stack) node = input.walkHere (frame :: stack) node := by
  have room : stack.length < input.next := proper.length_le input.below
  have here : input.next - stack.length = input.next - (frame :: stack).length + 1 := by
    rw [List.length_cons, ← Nat.sub_sub]
    exact (Nat.sub_add_cancel (Nat.sub_pos_of_lt room)).symm
  rw [walk, here]
  rfl

theorem Run.allowed (run : Run input stack s job s') : input.Allows stack job := by
  cases run <;> assumption

section Meaning

variable {walk : Walk} {site : Reference} {parens : Option Node} {binding : Binding}

theorem findMeaning_of_known (known : Known parens)
    (bound : lookup input.scope stack site = .ok binding) :
    findMeaning input.scope walk stack site parens = do
      match ← interpret walk stack site parens binding with
      | .ok (ty, target) =>
          record (.resolved site target ty)
          return some (ty, target)
      | .error error =>
          report error
          return none := by
  unfold findMeaning
  rewrite [if_neg (by simpa [Known] using known), bound]
  rfl

theorem findMeaning_of_ok (known : Known parens)
    (bound : lookup input.scope stack site = .ok binding) {ty : Ty} {target : Target}
    (meant : interpret walk stack site parens binding s = (.ok (ty, target), s')) :
    findMeaning input.scope walk stack site parens s =
      (some (ty, target), s'.withEvent (.resolved site target ty)) := by
  rw [findMeaning_of_known known bound]
  exact bind_eq_iff.mpr ⟨_, _, meant, rfl⟩

theorem findMeaning_of_error (known : Known parens)
    (bound : lookup input.scope stack site = .ok binding) {error : Diagnostic}
    (failed : interpret walk stack site parens binding s = (.error error, s')) :
    findMeaning input.scope walk stack site parens s = (none, s'.withError error) := by
  rw [findMeaning_of_known known bound]
  exact bind_eq_iff.mpr ⟨_, _, failed, rfl⟩

variable {c : Callable} {receiver : Option String} {overloads : OverloadSet (Signature c)}
  {resolve : Node → Span → Except Diagnostic (Signature c)} {arguments : Node}

/-- A call of overloads that refuse its arguments fails. -/
theorem interpret_of_error (calls : binding.Calls receiver overloads resolve)
    (applied : argumentsOf site parens s = (arguments, s')) {error : Diagnostic}
    (failed : resolve arguments site.span = .error error) :
    interpret walk stack site parens binding s =
      (.error error, s'.withEvent (overloads.choosing arguments)) := by
  have called : call walk stack site parens receiver overloads resolve s =
      (.error error, s'.withEvent (overloads.choosing arguments)) := by
    simp only [call, record, bind_eq_iff, modify_eq_iff]
    refine ⟨_, _, applied, (), _, rfl, ?_⟩
    rw [failed]
    rfl
  cases calls <;> exact called

/-- A call means what entering the overload that it selects means. -/
theorem interpret_of_ok {s'' : State} {meaning : Meaning} {selected : Signature c}
    (calls : binding.Calls receiver overloads resolve)
    (applied : argumentsOf site parens s = (arguments, s'))
    (selects : resolve arguments site.span = .ok selected)
    (entered : enter walk stack receiver selected (s'.withEvent (overloads.choosing arguments)) =
      (meaning, s'')) :
    interpret walk stack site parens binding s = (.ok meaning, s'') := by
  have called : call walk stack site parens receiver overloads resolve s = (.ok meaning, s'') := by
    simp only [call, record, bind_eq_iff, modify_eq_iff]
    refine ⟨_, _, applied, (), _, rfl, ?_⟩
    rw [selects]
    exact bind_eq_iff.mpr ⟨_, _, entered, rfl⟩
  cases calls <;> exact called

end Meaning

theorem Run.evaluates (run : Run input stack s job s') : job.Evaluates input stack s s' := by
  induction run with
  | literal | typeRef | param => rfl
  | list allowed run rebuilt induction =>
      simp only [Job.Evaluates, Input.walkHere] at induction ⊢
      rw [Traversal.visit_list]
      exact map_eq_iff.mpr ⟨_, bind_eq_iff.mpr ⟨_, _, induction, rebuilt⟩, rfl⟩
  | block allowed run rebuilt induction =>
      simp only [Job.Evaluates, Input.walkHere] at induction ⊢
      rw [Traversal.visit_block]
      exact map_eq_iff.mpr ⟨_, bind_eq_iff.mpr ⟨_, _, induction, rebuilt⟩, rfl⟩
  | dim allowed run induction => exact map_eq_iff.mpr ⟨_, induction, rfl⟩
  | function allowed run induction => exact map_eq_iff.mpr ⟨_, induction, rfl⟩
  | method allowed run induction => exact map_eq_iff.mpr ⟨_, induction, rfl⟩
  | remembered allowed found =>
      simp only [Job.Evaluates, Input.walkHere]
      rw [Traversal.visit_reference]
      refine map_eq_iff.mpr ⟨_, ?_, rfl⟩
      simp only [resolveReference, bind_eq_iff, get_eq_iff]
      refine ⟨_, _, ⟨rfl, rfl⟩, ?_⟩
      rw [found]
      rfl
  | reference allowed missing bracketsRun parensRun meaningRun rebuilt brackets parens meaning =>
      simp only [Job.Evaluates, Input.walkHere] at brackets parens meaning ⊢
      rw [Traversal.visit_reference]
      refine map_eq_iff.mpr ⟨_, ?_, rfl⟩
      simp only [resolveReference, bind_eq_iff, get_eq_iff]
      refine ⟨_, _, ⟨rfl, rfl⟩, ?_⟩
      rw [missing]
      simp only [bind_eq_iff, modify_eq_iff, pure_eq_iff]
      exact ⟨_, _, brackets, _, _, parens, _, _, meaning, _, _, rebuilt, (), _, rfl, rfl, rfl⟩
  | nil => rfl
  | cons allowed itemRun itemsRun item items =>
      exact bind_eq_iff.mpr ⟨_, _, item, bind_eq_iff.mpr ⟨_, _, items, rfl⟩⟩
  | noChild => rfl
  | child allowed run induction => exact map_eq_iff.mpr ⟨_, induction, rfl⟩
  | dimRemembered allowed found =>
      simp only [Job.Evaluates, resolveDim, bind_eq_iff, get_eq_iff]
      refine ⟨_, _, ⟨rfl, rfl⟩, ?_⟩
      rw [found]
      rfl
  | dimInProgress allowed missing resolving =>
      simp only [Job.Evaluates, resolveDim, bind_eq_iff, get_eq_iff]
      refine ⟨_, _, ⟨rfl, rfl⟩, ?_⟩
      rw [missing]
      dsimp only
      rw [if_pos resolving]
      rfl
  | dimFresh allowed missing idle run rebuilt induction =>
      simp only [Job.Evaluates, resolveDim, bind_eq_iff, get_eq_iff]
      refine ⟨_, _, ⟨rfl, rfl⟩, ?_⟩
      rw [missing]
      dsimp only
      rw [if_neg idle]
      simp only [bind_eq_iff, modify_eq_iff, pure_eq_iff]
      refine ⟨_, _, ?_, _, _, rebuilt, (), _, rfl, rfl, rfl⟩
      rw [input.walk_push run.allowed.stack]
      exact induction
  | signatureRemembered allowed found =>
      simp only [Job.Evaluates, resolveSignature, bind_eq_iff, get_eq_iff]
      refine ⟨_, _, ⟨rfl, rfl⟩, ?_⟩
      rw [found]
      rfl
  | signatureInProgress allowed missing resolving =>
      simp only [Job.Evaluates, resolveSignature, bind_eq_iff, get_eq_iff]
      refine ⟨_, _, ⟨rfl, rfl⟩, ?_⟩
      rw [missing]
      dsimp only
      rw [if_pos resolving]
      rfl
  | signatureFresh allowed missing idle run rebuilt induction =>
      simp only [Job.Evaluates, resolveSignature, bind_eq_iff, get_eq_iff]
      refine ⟨_, _, ⟨rfl, rfl⟩, ?_⟩
      rw [missing]
      dsimp only
      rw [if_neg idle]
      simp only [bind_eq_iff, modify_eq_iff, pure_eq_iff]
      refine ⟨_, _, ?_, _, _, rebuilt, (), _, rfl, rfl, rfl⟩
      rw [input.walk_push run.allowed.stack]
      exact induction
  | skipped allowed unknown =>
      simp only [Job.Evaluates, findMeaning]
      rw [if_pos (by simpa [Known] using unknown)]
      rfl
  | unbound allowed known failed =>
      simp only [Job.Evaluates, findMeaning]
      rw [if_neg (by simpa [Known] using known), failed]
      rfl
  | paramMeant allowed known bound =>
      exact findMeaning_of_ok known bound rfl
  | dimMeant allowed known bound run induction =>
      exact findMeaning_of_ok known bound (bind_eq_iff.mpr ⟨_, _, induction, rfl⟩)
  | refused allowed known bound calls applied failed =>
      exact findMeaning_of_error known bound (interpret_of_error calls applied failed)
  | recursive allowed known bound calls applied selects resolving =>
      refine findMeaning_of_ok known bound (interpret_of_ok calls applied selects ?_)
      rw [enter, if_pos resolving]
      rfl
  | entered allowed known bound calls applied selects idle run induction =>
      refine findMeaning_of_ok known bound (interpret_of_ok calls applied selects ?_)
      rw [enter, if_neg idle]
      exact bind_eq_iff.mpr ⟨_, _, induction, rfl⟩

end ModelLang.Resolution
