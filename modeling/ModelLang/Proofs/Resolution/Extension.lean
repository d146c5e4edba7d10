import ModelLang.Proofs.Resolution.Once
import ModelLang.Proofs.Resolution.Receivers

/-!
# Declarations that no use site names

A resolution reads its scope in one way only: it looks up the names of the use sites that it meets.
So two scopes that bind those use sites alike lead to the same resolution, call by call.  One more
declaration binds no name but its own and makes no receiver known but its own; when no use site
that may be met bears the name or is qualified with the new receiver, nothing changes at all: the
same nodes with the same identities, the same errors and the same events in the same order.
-/

namespace ModelLang.Resolution

/-- A use site is bound alike where its name is, and where its receiver is known alike. -/
theorem lookup_of_bindAlike {scope grown : Scope} {stack : Stack} {site : Reference}
    (alike : scope.BindAlike grown site.name)
    (known : ∀ receiver ∈ site.receiver,
      (grown.receiver? receiver).isSome = (scope.receiver? receiver).isSome) :
    lookup grown stack site = lookup scope stack site := by
  cases qualified : site.receiver with
  | none => simp only [lookup, qualified, lookupHere?, alike.dim, alike.function, alike.method]
  | some receiver =>
      have knows := known receiver qualified
      have methods := alike.method receiver
      simp only [Scope.method?] at methods
      simp only [lookup, qualified, lookupIn]
      cases found : scope.receiver? receiver with
      | none =>
          rw [found, Option.isSome_none, Option.isSome_eq_false_iff,
            Option.isNone_iff_eq_none] at knows
          rw [knows]
      | some owner =>
          rw [found, Option.isSome_some, Option.isSome_iff_exists] at knows
          obtain ⟨owner', found'⟩ := knows
          rw [found, found', Option.bind_some, Option.bind_some] at methods
          rw [found']
          dsimp only
          rw [methods]

/-- The input with another scope. -/
def Input.withScope (input : Input) (scope : Scope) (declares : scope.Declares input.graph) :
    Input :=
  { input with scope, declares }

/-- What the resolution returns is told by the items and by the last state. -/
theorem Input.resolved_eq (input : Input) :
    input.resolved =
      { items := input.resolved.items
        errors := input.final.errors
        events := input.final.events ++ [.resolutionDone input.final.declarationCount
          input.final.uses.size input.final.errors.length]
        next := input.final.next } := rfl

/-- Items are resolved in one way. -/
theorem ItemsRun.unique {input : Input} {s s' s'' : State} {items resolved resolved' : List Item}
    (run : ItemsRun input s items resolved s') (again : ItemsRun input s items resolved' s'') :
    resolved = resolved' ∧ s' = s'' := by
  induction run generalizing resolved' with
  | nil =>
      cases again with
      | nil => exact ⟨rfl, rfl⟩
  | cons itemRun _ induction =>
      cases again with
      | cons itemRun' itemsRun' =>
          obtain ⟨rfl, rfl⟩ := itemRun.unique itemRun'
          obtain ⟨rfl, rfl⟩ := induction itemsRun'
          exact ⟨rfl, rfl⟩

section Scopes

variable {input : Input} {scope : Scope} {declares : scope.Declares input.graph}

/-- The use site that a call looks up is met in the receiver that is visible. -/
theorem Input.Makes.met_site {stack : Stack} {s s' : State} {site : Reference}
    {parens : Option Node} {meaning : Option Meaning}
    (made : input.Makes ⟨stack, s, .meaning site parens meaning, s'⟩) :
    input.MeetsInside stack.receiver? (.reference site) := by
  obtain ⟨position, here⟩ := made
  obtain ⟨start, visit, rfl, visited, ⟨⟨resolved, job⟩, -⟩, sameStack⟩ :=
    here.processed ⟨parens, meaning, rfl⟩
  have met := Input.Makes.met ⟨start, visited⟩
  rw [job, sameStack] at met
  exact met

/-- The use sites that a resolution may meet are bound alike in another scope. -/
def Input.BoundAlike (input : Input) (scope : Scope) : Prop :=
  ∀ {receiver site} (stack : Stack), input.MeetsInside receiver (.reference site) →
    lookup scope stack site = lookup input.scope stack site

variable (alike : input.BoundAlike scope)

include alike

/-- A call goes the same way in a scope that binds the use sites alike. -/
theorem Run.withScope {stack : Stack} {s s' : State} {job : Job} (run : Run input stack s job s')
    (made : input.Makes ⟨stack, s, job, s'⟩) :
    Run (input.withScope scope declares) stack s job s' := by
  have allows {stack : Stack} {job : Job} (allowed : input.Allows stack job) :
      (input.withScope scope declares).Allows stack job := ⟨allowed.stack, allowed.job⟩
  have binds {stack : Stack} {s s' : State} {site : Reference} {parens : Option Node}
      {meaning : Option Meaning} {outcome : Except Diagnostic Binding}
      (made : input.Makes ⟨stack, s, .meaning site parens meaning, s'⟩)
      (bound : lookup input.scope stack site = outcome) :
      lookup (input.withScope scope declares).scope stack site = outcome :=
    (alike stack made.met_site).trans bound
  induction run with
  | literal allowed => exact .literal (allows allowed)
  | typeRef allowed => exact .typeRef (allows allowed)
  | param allowed => exact .param (allows allowed)
  | list allowed run rebuilt induction =>
      exact .list (allows allowed) (induction (made.starts (.list run rebuilt))) rebuilt
  | block allowed run rebuilt induction =>
      exact .block (allows allowed) (induction (made.starts (.block run rebuilt))) rebuilt
  | dim allowed run induction => exact .dim (allows allowed) (induction (made.starts (.dim run)))
  | function allowed run induction =>
      exact .function (allows allowed) (induction (made.starts (.function run)))
  | method allowed run induction =>
      exact .method (allows allowed) (induction (made.starts (.method run)))
  | remembered allowed found => exact .remembered (allows allowed) found
  | reference allowed missing bracketsRun parensRun meaningRun rebuilt brackets parens meaning =>
      have visits : input.Visits _ _ _ _ _ _ _ _ _ _ _ :=
        ⟨missing, bracketsRun, parensRun, meaningRun, by rw [rebuilt], by rw [rebuilt]⟩
      exact .reference (allows allowed) missing (brackets (made.starts (.brackets visits)))
        (parens (made.starts (.parens visits))) (meaning (made.starts (.meaning visits))) rebuilt
  | nil allowed => exact .nil (allows allowed)
  | cons allowed itemRun itemsRun item items =>
      exact .cons (allows allowed) (item (made.starts (.head itemRun itemsRun)))
        (items (made.starts (.tail itemRun itemsRun)))
  | noChild allowed => exact .noChild (allows allowed)
  | child allowed run induction =>
      exact .child (allows allowed) (induction (made.starts (.child run)))
  | dimRemembered allowed found => exact .dimRemembered (allows allowed) found
  | dimInProgress allowed missing resolving =>
      exact .dimInProgress (allows allowed) missing resolving
  | dimFresh allowed missing idle run rebuilt induction =>
      exact .dimFresh (allows allowed) missing idle
        (induction (made.starts (.extent missing idle run rebuilt rfl))) rebuilt
  | signatureRemembered allowed found => exact .signatureRemembered (allows allowed) found
  | signatureInProgress allowed missing resolving =>
      exact .signatureInProgress (allows allowed) missing resolving
  | signatureFresh allowed missing idle run rebuilt induction =>
      exact .signatureFresh (allows allowed) missing idle
        (induction (made.starts (.body missing idle run rebuilt rfl))) rebuilt
  | skipped allowed unknown => exact .skipped (allows allowed) unknown
  | unbound allowed known failed => exact .unbound (allows allowed) known (binds made failed)
  | paramMeant allowed known bound => exact .paramMeant (allows allowed) known (binds made bound)
  | dimMeant allowed known bound run induction =>
      exact .dimMeant (allows allowed) known (binds made bound)
        (induction (made.starts (.target known bound run rfl rfl)))
  | refused allowed known bound calls applied failed =>
      exact .refused (allows allowed) known (binds made bound) calls applied failed
  | recursive allowed known bound calls applied selects resolving =>
      exact .recursive (allows allowed) known (binds made bound) calls applied selects resolving
  | entered allowed known bound calls applied selects idle run induction =>
      have enters := made.starts (.entered known bound calls applied selects idle run rfl rfl)
      exact .entered (allows allowed) known (binds made bound) calls applied selects idle
        (induction enters)

theorem ItemRun.withScope {s s' : State} {item resolved : Item}
    (run : ItemRun input s item resolved s')
    (made : ∀ {job : Job}, job.Resolves item resolved → Run input [] s job s' →
      input.Makes ⟨[], s, job, s'⟩) :
    ItemRun (input.withScope scope declares) s item resolved s' := by
  cases run with
  | dim run => exact .dim (run.withScope alike (made .dim run))
  | function run => exact .function (run.withScope alike (made .function run))
  | method run => exact .method (run.withScope alike (made .method run))

theorem ItemsRun.withScope {s s' : State} {items resolved : List Item}
    (run : ItemsRun input s items resolved s')
    (made : ∀ {index call}, input.Opens s items index call → input.Makes call) :
    ItemsRun (input.withScope scope declares) s items resolved s' := by
  induction run with
  | nil => exact .nil
  | cons itemRun _ induction =>
      exact .cons (itemRun.withScope alike fun resolves run => made (.here resolves run))
        (induction fun opens => made (.later itemRun opens))

/-- In a scope that binds the use sites alike, the resolution is the same. -/
theorem Input.resolved_withScope : (input.withScope scope declares).resolved = input.resolved := by
  have run : ItemsRun (input.withScope scope declares) input.initial input.items
      input.resolved.items input.final := input.itemsRun.withScope alike Input.Makes.of_opens
  obtain ⟨items, final⟩ := ItemsRun.unique (input.withScope scope declares).itemsRun run
  rw [Input.resolved_eq, items, final]
  exact input.resolved_eq.symm

end Scopes

/-- No use site that may be met names the item, and none is qualified with the receiver that the
item makes known. -/
def Input.Avoids (input : Input) (item : Item) : Prop :=
  ∀ {receiver site}, input.MeetsInside receiver (.reference site) → site.name ≠ item.name ∧
    ∀ owner ∈ item.receiver?, input.scope.receiver? owner = none → site.receiver ≠ some owner

/-- One more declaration binds alike what does not name it. -/
theorem Input.Avoids.boundAlike {input : Input} {strict : Bool} {item : Item} {grown : Scope}
    (avoids : input.Avoids item) (declared : input.scope.declare strict item = .ok grown) :
    input.BoundAlike grown := by
  intro receiver site stack met
  obtain ⟨other, unqualified⟩ := avoids met
  refine lookup_of_bindAlike (Scope.bindAlike_of_declare other declared) ?_
  intro owner qualified
  refine Scope.isSome_receiver?_of_declare (fun inside => ?_) declared
  by_contra fresh
  rw [Bool.not_eq_true, Option.isSome_eq_false_iff, Option.isNone_iff_eq_none] at fresh
  exact unqualified owner inside fresh qualified

/-- A declaration that no use site names changes nothing: after it, the same items are resolved to
the same nodes, with the same errors and events in the same order. -/
theorem Input.resolveAll_declare {input : Input} {strict : Bool} {item : Item} {grown : Scope}
    (inside : item.node ∈ input.graph)
    (declared : input.scope.declare strict item = .ok grown) (avoids : input.Avoids item) :
    grown.resolveAll input.items input.next = input.resolved := by
  have declares : grown.Declares input.graph := .declare input.declares inside declared
  have same : (input.withScope grown declares).resolved = input.resolved :=
    Input.resolved_withScope (avoids.boundAlike declared)
  exact same

/-! ## A method that no one calls -/

namespace Uncalled

def three : Node := .literal ⟨0, .int 3, {}⟩
def size : Dim := ⟨1, "size", three, {}⟩
def noParams : Node := .list ⟨2, [], {}⟩
def useSize : Reference := ⟨3, none, "size", none, none, .unknown, none, {}⟩
def useAbsent : Reference := ⟨4, none, "absent", none, none, .unknown, none, {}⟩
def body : Node := .block ⟨5, [.reference useAbsent, .reference useSize], {}⟩
def main : Signature .function := ⟨6, "main", noParams, body, {}⟩
def run : Signature .method := ⟨7, "run", noParams, body, {}⟩

def nodes : List Node :=
  [three, .dim size, noParams, .reference useSize, .reference useAbsent, body, .function main,
    .method run]

def graph : Graph :=
  .ofList nodes
    (by simp [nodes, three, size, noParams, useSize, useAbsent, body, main, run, Node.children])
    (by decide)

def scope : Scope := { dims := ⟨[("size", size)]⟩ }

def runs : Receiver := ⟨"B", ⟨[("run", ⟨"B", ⟨"run", [run]⟩⟩)]⟩⟩

def grown : Scope := { scope with receivers := ⟨[("B", runs)]⟩ }

def item : Item := .method "B" run

theorem mem_graph {declaration : Item}
    (h : declaration ∈ [.dim size, .function main, item]) : declaration.node ∈ graph := by
  change declaration.node ∈ nodes
  simp only [List.mem_cons, List.not_mem_nil, or_false] at h
  rcases h with rfl | rfl | rfl <;> simp [nodes, item, Item.node]

def input : Input where
  graph
  scope
  items := [.function main]
  next := 8
  declares := .declare .empty (mem_graph (by simp) : (Item.dim size).node ∈ graph)
    (rfl : Scope.declare {} true _ = .ok scope)
  listed _ member := mem_graph (by simp_all)
  below {node} inside := (by decide : ∀ node ∈ nodes, node.id < 8) node inside

theorem declared : input.scope.declare true item = .ok grown := rfl

theorem avoids : input.Avoids item := by
  intro receiver site met
  obtain ⟨declaration, met, encloses⟩ := met
  have inside : .reference site ∈ nodes := encloses.mem_graph met.mem_graph
  simp only [nodes, three, noParams, body, List.mem_cons, List.not_mem_nil, or_false, reduceCtorEq,
    false_or, Node.reference.injEq] at inside
  rcases inside with rfl | rfl <;> simp [useSize, useAbsent, item, run, Item.name]

end Uncalled

open Uncalled in
/-- The body of `function main() {absent size}` names neither `run` nor a receiver `B`, so a first
method `run` of `B` leaves its outcome and its error as they are. -/
theorem resolveAll_declare_uncalled :
    input.scope.receiver? "B" = none ∧
      grown.resolveAll input.items input.next = input.resolved ∧
      input.resolved.errors = [.unknownName "absent" {}] :=
  ⟨rfl, Input.resolveAll_declare (mem_graph (by simp)) declared avoids, rfl⟩

end ModelLang.Resolution
