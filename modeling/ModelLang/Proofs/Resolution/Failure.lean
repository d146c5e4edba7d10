import ModelLang.Proofs.Resolution.Once

/-!
# Use sites without a meaning

A use site has no meaning when its lookup ends with an error, and when it is not looked up because
its arguments have an unknown type.  Where it is rebuilt it then carries no annotation.  But it is
rebuilt only if one of its children changed: otherwise the node itself is returned, with the type
and the target that it came with.  Nodes that were never resolved carry none, but those of an
earlier resolution keep what they were given there, in whatever scope that was.
-/

namespace ModelLang.Resolution

/-- A lookup gives a use site no meaning: it ends with an error, or nothing is looked up because
the arguments have an unknown type. -/
inductive Call.Fails : Call → Reference → Prop
  | reported {call : Call} {site : Reference} {error : Diagnostic} :
      call.Reports site error → Fails call site
  | skipped {stack : Stack} {before after : State} {site : Reference} {parens : Option Node}
      {meaning : Option Meaning} : ¬ Known parens →
        Fails ⟨stack, before, .meaning site parens meaning, after⟩ site

/-- A lookup answers a visit of a use site: it is made by that visit, or by an earlier one for the
same owner, whose outcome is remembered. -/
def Input.Answers (input : Input) (lookup visit : Call) : Prop :=
  ∃ origin, input.Makes origin ∧ origin.job = visit.job ∧
    origin.stack.owner? = visit.stack.owner? ∧ origin.after.Precedes visit.after ∧
      input.Starts origin 2 lookup

variable {input : Input}

/-- A use site is left without a meaning where its lookup fails. -/
theorem Run.fails_iff {stack : Stack} {s s' : State} {site : Reference} {parens : Option Node}
    {meaning : Option Meaning} (run : Run input stack s (.meaning site parens meaning) s') :
    Call.Fails ⟨stack, s, .meaning site parens meaning, s'⟩ site ↔ meaning = none := by
  constructor
  · intro fails
    cases fails with
    | reported reports =>
        obtain ⟨⟨parens', job⟩, -⟩ := reports
        cases job
        rfl
    | skipped unknown =>
        cases run with
        | skipped => rfl
        | unbound _ known | paramMeant _ known | dimMeant _ known | refused _ known
        | recursive _ known | entered _ known => exact absurd known unknown
  · rintro rfl
    cases run with
    | skipped _ unknown => exact .skipped unknown
    | unbound => exact .reported ⟨⟨_, rfl⟩, rfl⟩
    | refused _ _ _ _ applied =>
        exact .reported
          ⟨⟨_, rfl⟩, congrArg (· ++ [_]) (allots_of_argumentsOf applied).errors_eq⟩

/-- A use site without a meaning is rebuilt without an annotation when a child changed, and it is
returned as it came when none did. -/
theorem Input.Makes.returned_of_visits {stack : Stack} {site returned : Reference}
    {s₀ s₁ s₂ s₃ s₄ : State} {brackets parens : Option Node}
    (made : input.Makes ⟨stack, s₀, .node (.reference site) (.reference returned), s₄⟩)
    (visits : input.Visits stack site s₀ s₁ s₂ s₃ s₄ brackets parens none returned) :
    returned = site ∨ (returned.brackets ≠ site.brackets ∨ returned.parens ≠ site.parens) ∧
      returned.ty = .unknown ∧ returned.target = none := by
  have bracketsMade := made.starts (.brackets visits)
  have parensMade := made.starts (.parens visits)
  obtain ⟨rfl, rfl⟩ := children_eq_of_rebuildReference made.run.allowed.job
    (bracketsMade.annotated.imp fun _ _ child => child.renews)
    (parensMade.annotated.imp fun _ _ child => child.renews) (Prod.ext visits.rebuilt rfl)
  by_cases kept : returned.brackets = site.brackets ∧ returned.parens = site.parens
  · have unchanged := visits.rebuilt
    rw [kept.1, kept.2, rebuildReference, if_pos (by simp [sameChild_self])] at unchanged
    exact .inl unchanged.symm
  · rcases rebuildReference_cases (Prod.ext visits.rebuilt rfl) with ⟨-, -, -, same, -⟩ | ⟨isNew, -⟩
    · exact .inl same
    · refine .inr ⟨not_and_or.mp kept, ?_⟩
      rw [isNew]
      exact ⟨rfl, rfl⟩

/-- A lookup is made by a visit of its use site. -/
theorem Input.Makes.exists_visit {lookup : Call} {site : Reference} (made : input.Makes lookup)
    (looks : lookup.LooksUp site) :
    ∃ visit returned, input.Makes visit ∧
      visit.job = .node (.reference site) (.reference returned) ∧ input.Starts visit 2 lookup := by
  obtain ⟨position, here⟩ := made
  obtain ⟨start, visit, rfl, visited, ⟨⟨returned, job⟩, missing⟩, -⟩ := here.processed looks
  obtain ⟨stack, s, job', s'⟩ := visit
  cases job
  obtain ⟨s₁, s₂, s₃, brackets, parens, meaning, visits⟩ := Run.visits visited.run missing
  have starts := Input.Starts.meaning visits
  obtain rfl := here.unique (visited.starts starts)
  exact ⟨_, returned, ⟨start, visited⟩, rfl, starts⟩

/-- Every visit of a use site is answered by a lookup. -/
theorem Input.Makes.answered {visit : Call} {site returned : Reference} (made : input.Makes visit)
    (job : visit.job = .node (.reference site) (.reference returned)) :
    ∃ lookup, input.Makes lookup ∧ lookup.LooksUp site ∧ input.Answers lookup visit := by
  have returns : input.Returns visit.after visit.stack.owner? (.reference site)
      (.reference returned) := ⟨visit, made, .refl _, job, rfl⟩
  obtain ⟨_, ⟨stack, s, job', s'⟩, same, origin, before, processes, originJob, owner⟩ :=
    returns.processes
  cases same
  cases originJob
  obtain ⟨s₁, s₂, s₃, brackets, parens, meaning, visits⟩ := Run.visits origin.run processes.2
  have starts := Input.Starts.meaning visits
  exact ⟨_, origin.starts starts, ⟨_, _, rfl⟩, _, origin, job.symm, owner, before, starts⟩

/-- Every visit of a use site is answered by a lookup.  When that lookup fails, the use site is
returned without an annotation if and only if it came without one or one of its children changed;
otherwise it is returned as it came. -/
theorem Input.annotation_of_fails (input : Input) {visit : Call} {site returned : Reference}
    (made : input.Makes visit)
    (job : visit.job = .node (.reference site) (.reference returned)) :
    (∃ lookup, input.Makes lookup ∧ lookup.LooksUp site ∧ input.Answers lookup visit) ∧
      ∀ {lookup}, input.Answers lookup visit → lookup.Fails site →
        (returned.ty = .unknown ∧ returned.target = none ↔
          (site.ty = .unknown ∧ site.target = none) ∨
            returned.brackets ≠ site.brackets ∨ returned.parens ≠ site.parens) ∧
        (returned.brackets = site.brackets → returned.parens = site.parens → returned = site) := by
  refine ⟨made.answered job, fun {lookup} answers fails => ?_⟩
  obtain ⟨⟨stack, s, job', s'⟩, origin, same, -, -, starts⟩ := answers
  cases same.trans job
  cases starts with
  | meaning visits =>
      obtain rfl := visits.meaningRun.fails_iff.mp fails
      rcases origin.returned_of_visits visits with rfl | ⟨changed, bare⟩
      · simp
      · refine ⟨iff_of_true bare (.inr changed), fun brackets parens => ?_⟩
        exact absurd ⟨brackets, parens⟩ (not_and_or.mpr changed)

/-! ## A dim that was resolved in another scope -/

namespace OtherScope

def three : Node := .literal ⟨0, .int 3, {}⟩
def n : Dim := ⟨1, "n", three, {}⟩
def use : Reference := ⟨2, none, "n", none, none, .unknown, none, {}⟩
def a : Dim := ⟨3, "a", .reference use, {}⟩

def nodes : List Node := [three, .dim n, .reference use, .dim a]

def first : Input where
  graph := .ofList nodes (by simp [nodes, three, n, use, a, Node.children]) (by decide)
  scope := { dims := ⟨[("n", n)]⟩ }
  items := [.dim a]
  next := 4
  declares := .declare .empty (by simp [nodes, Item.node] : (Item.dim n).node ∈ nodes)
    (rfl : Scope.declare {} true _ = .ok _)
  listed item member := by
    rw [List.mem_singleton.mp member]
    exact (by simp [nodes] : Node.dim a ∈ nodes)
  below {node} inside := (by decide : ∀ node ∈ nodes, node.id < 4) node inside

def resolvedUse : Reference := { use with id := 4, ty := .int, target := some (.dim n) }
def resolvedA : Dim := { a with id := 5, extent := .reference resolvedUse }

def resolvedNodes : List Node := [.reference resolvedUse, .dim resolvedA]

def second : Input where
  graph := .ofList resolvedNodes
    (by simp [resolvedNodes, use, resolvedUse, resolvedA, Node.children]) (by decide)
  scope := {}
  items := [.dim resolvedA]
  next := 6
  declares := .empty
  listed item member := by
    rw [List.mem_singleton.mp member]
    exact (by simp [resolvedNodes] : Node.dim resolvedA ∈ resolvedNodes)
  below {node} inside := (by decide : ∀ node ∈ resolvedNodes, node.id < 6) node inside

theorem errors_second : second.final.errors = [.unknownName "n" {}] := rfl

/-- The only use site fails. -/
theorem exists_fails : ∃ visit returned lookup, second.Makes visit ∧
    visit.job = .node (.reference resolvedUse) (.reference returned) ∧
      second.Answers lookup visit ∧ lookup.Fails resolvedUse := by
  obtain ⟨sources, isErrors, -, sources_iff⟩ := second.error_sources
  obtain ⟨source, rfl⟩ : ∃ source, sources = [source] := by
    rw [errors_second] at isErrors
    exact List.length_eq_one_iff.mp (by simpa using congrArg List.length isErrors)
  obtain ⟨lookup, site, made, reports, -⟩ := (sources_iff source).mp (by simp)
  obtain ⟨visit, returned, visited, job, starts⟩ := made.exists_visit reports.looksUp
  have inside : visit.job.In second.graph := visited.run.allowed.job
  rw [job] at inside
  replace inside : .reference site ∈ resolvedNodes := inside
  obtain rfl : site = resolvedUse := by simpa [resolvedNodes] using inside
  exact ⟨visit, returned, lookup, visited, job, ⟨visit, visited, rfl, rfl, .refl _, starts⟩,
    .reported reports⟩

end OtherScope

open OtherScope in
/-- The extent of `dim a[n]` was resolved to a use site of the dim `n`.  In a scope without `n` an
error is reported for that use site, and it is returned as it came: an integer with the target
`n`. -/
theorem annotation_of_fails_otherScope :
    first.resolved.items = second.items ∧ first.resolved.next = second.next ∧
      second.resolved.errors = [.unknownName "n" {}] ∧
      ∃ visit lookup, second.Makes visit ∧ second.Answers lookup visit ∧
        lookup.Fails resolvedUse ∧
          visit.job = .node (.reference resolvedUse) (.reference resolvedUse) ∧
            resolvedUse.ty = .int ∧ resolvedUse.target = some (.dim n) := by
  obtain ⟨visit, returned, lookup, visited, job, answers, fails⟩ := exists_fails
  obtain ⟨-, outcome⟩ := second.annotation_of_fails visited job
  have children : returned.brackets = none ∧ returned.parens = none := by
    have annotated := visited.annotated
    rw [job] at annotated
    have same := annotated.bare_eq
    rw [Node.bare_reference, Node.bare_reference] at same
    simp_all [ReferenceOf.bare, resolvedUse, use]
  obtain rfl := (outcome answers fails).2 children.1 children.2
  exact ⟨rfl, rfl, rfl, visit, lookup, visited, answers, fails, job, rfl, rfl⟩

end ModelLang.Resolution
