import ModelLang.Proofs.Overload.Selection
import ModelLang.Proofs.Scope

/-!
# How a scope files what is declared

A scope is *consistent* when every entry bears the name that it is filed under and no set is empty
or holds two overloads with equal parameters.  For a consistent scope each declaration has one
equation: an overload is refused because of the first one of its place with equal parameters, or
the scope is the same with that overload after the others of its place.  A declaration keeps a
scope consistent.
-/

namespace ModelLang

open OverloadSet (Distinct)

namespace Scope

/-- The overloads of a function, in the order in which they were declared. -/
def functionOverloads (scope : Scope) (name : String) : List (Signature .function) :=
  ((scope.function? name).map (·.candidates)).getD []

/-- The overloads of a method inside a receiver, in the order in which they were declared. -/
def methodOverloads (scope : Scope) (receiver name : String) : List (Signature .method) :=
  ((scope.method? receiver name).map (·.overloads.candidates)).getD []

/-- The methods of a receiver. -/
def methods (scope : Scope) (receiver : String) : Table String MethodSet :=
  ((scope.receiver? receiver).map (·.methods)).getD {}

theorem method?_eq (scope : Scope) (receiver name : String) :
    scope.method? receiver name = (scope.methods receiver).find? name := by
  rw [method?, methods]
  cases scope.receiver? receiver <;> rfl

/-! ## Consistent scopes -/

/-- Overloads of a name, no two of them with equal parameters. -/
structure Lists {c : Callable} (name : String) (overloads : List (Signature c)) : Prop where
  named : ∀ candidate ∈ overloads, candidate.name = name
  distinct : Distinct overloads

/-- A set of at least one overload, filed under its name. -/
structure Holds {c : Callable} (name : String) (overloads : OverloadSet (Signature c)) : Prop
    extends Lists name overloads.candidates where
  name_eq : overloads.name = name
  nonempty : overloads.candidates ≠ []

/-- A receiver with at least one method, each of which records the receiver and holds overloads of
its name. -/
structure Hosts (receiver : String) (owner : Receiver) : Prop where
  name_eq : owner.name = receiver
  nonempty : ∃ name method, owner.method? name = some method
  receiver_eq : ∀ {name method}, owner.method? name = some method → method.receiver = receiver
  holds : ∀ {name method}, owner.method? name = some method → Holds name method.overloads

/-- Every entry of the scope bears the name that it is filed under, and nothing in it is empty. -/
structure Consistent (scope : Scope) : Prop where
  dim : ∀ {name dim}, scope.dim? name = some dim → dim.name = name
  function : ∀ {name overloads}, scope.function? name = some overloads → Holds name overloads
  receiver : ∀ {receiver owner}, scope.receiver? receiver = some owner → Hosts receiver owner

theorem Consistent.empty : Consistent {} := by
  constructor <;> intros <;> contradiction

/-- The overloads of a set that may be missing. -/
theorem Lists.of_found {c : Callable} {σ : Type} {name : String} {found : Option σ}
    {overloads : σ → List (Signature c)}
    (lists : ∀ set, found = some set → Lists name (overloads set)) :
    Lists name ((found.map overloads).getD []) := by
  cases found with
  | none => exact ⟨by simp, List.Pairwise.nil⟩
  | some set => exact lists set rfl

/-- One more overload of the name, which none of the others has the parameters of. -/
theorem Lists.append {c : Callable} {name : String} {overloads : List (Signature c)}
    {signature : Signature c} (lists : Lists name overloads) (named : signature.name = name)
    (new : overloads.find? (·.params ≈ signature.params) = none) :
    Lists name (overloads ++ [signature]) where
  named candidate member := by
    rcases List.mem_append.mp member with old | added
    · exact lists.named candidate old
    · rwa [List.mem_singleton.mp added]
  distinct := by
    refine List.pairwise_append.mpr ⟨lists.distinct, List.pairwise_singleton _ _, ?_⟩
    intro candidate member added here equal
    obtain rfl := List.mem_singleton.mp here
    exact List.find?_eq_none.mp new candidate member (decide_eq_true equal)

section Entries

variable {scope : Scope} (consistent : scope.Consistent)
include consistent

/-- The set of a function is told by its overloads. -/
theorem Consistent.function?_getD (name : String) :
    (scope.function? name).getD { name } = ⟨name, scope.functionOverloads name⟩ := by
  rw [functionOverloads]
  cases found : scope.function? name with
  | none => rfl
  | some overloads =>
      obtain ⟨named, candidates⟩ := overloads
      obtain rfl : named = name := (consistent.function found).name_eq
      rfl

theorem Consistent.receiver?_getD (receiver : String) :
    (scope.receiver? receiver).getD { name := receiver } = ⟨receiver, scope.methods receiver⟩ := by
  rw [methods]
  cases found : scope.receiver? receiver with
  | none => rfl
  | some owner =>
      obtain ⟨named, methods⟩ := owner
      obtain rfl : named = receiver := (consistent.receiver found).name_eq
      rfl

theorem Consistent.method {receiver name : String} {method : MethodSet}
    (h : scope.method? receiver name = some method) :
    method.receiver = receiver ∧ Holds name method.overloads := by
  obtain ⟨owner, found, h⟩ := Option.bind_eq_some_iff.mp h
  exact ⟨(consistent.receiver found).receiver_eq h, (consistent.receiver found).holds h⟩

/-- The set of a method is told by its overloads. -/
theorem Consistent.method?_getD (receiver name : String) :
    (scope.method? receiver name).getD (.empty receiver name) =
      ⟨receiver, name, scope.methodOverloads receiver name⟩ := by
  rw [methodOverloads]
  cases found : scope.method? receiver name with
  | none => rfl
  | some method =>
      obtain ⟨owner, named, candidates⟩ := method
      obtain ⟨rfl, holds⟩ := consistent.method found
      obtain rfl : named = name := holds.name_eq
      rfl

theorem Consistent.lists_functionOverloads (name : String) :
    Lists name (scope.functionOverloads name) :=
  .of_found fun _ found => (consistent.function found).toLists

theorem Consistent.lists_methodOverloads (receiver name : String) :
    Lists name (scope.methodOverloads receiver name) :=
  .of_found fun _ found => (consistent.method found).2.toLists

end Entries

/-! ## One more declaration -/

/-- The error for an overload that has the parameters of another one. -/
def duplicate {c : Callable} (signature rival : Signature c) : Diagnostic :=
  .duplicateSignature signature.name signature.node.text rival.node.text signature.span rival.span

/-- The scope with the dim bound to its name. -/
def bindDim (scope : Scope) (dim : Dim) : Scope :=
  { scope with dims := scope.dims.insert dim.name dim }

/-- The scope with one more overload of a function, after the others. -/
def appendFunction (scope : Scope) (signature : Signature .function) : Scope :=
  { scope with
    functions := scope.functions.insert signature.name
      ⟨signature.name, scope.functionOverloads signature.name ++ [signature]⟩ }

/-- The scope with one more overload of a method of a receiver, after the others. -/
def appendMethod (scope : Scope) (receiver : String) (signature : Signature .method) : Scope :=
  { scope with
    receivers := scope.receivers.insert receiver
      ⟨receiver, (scope.methods receiver).insert signature.name
        ⟨receiver, signature.name,
          scope.methodOverloads receiver signature.name ++ [signature]⟩⟩ }

/-! ## What the larger scopes hold -/

@[simp]
theorem dim?_bindDim (scope : Scope) (dim : Dim) (name : String) :
    (scope.bindDim dim).dim? name = if name = dim.name then some dim else scope.dim? name :=
  Table.find?_insert _ _ _ _

theorem function?_appendFunction (scope : Scope) (signature : Signature .function)
    (name : String) :
    (scope.appendFunction signature).function? name =
      if name = signature.name then some ⟨name, scope.functionOverloads name ++ [signature]⟩
      else scope.function? name := by
  rw [appendFunction, function?, Table.find?_insert]
  split
  · next same => rw [same]
  · rfl

@[simp]
theorem functionOverloads_appendFunction (scope : Scope) (signature : Signature .function)
    (name : String) :
    (scope.appendFunction signature).functionOverloads name =
      scope.functionOverloads name ++ if name = signature.name then [signature] else [] := by
  rw [functionOverloads, function?_appendFunction]
  split <;> simp [functionOverloads]

theorem receiver?_appendMethod (scope : Scope) (receiver : String)
    (signature : Signature .method) (owner : String) :
    (scope.appendMethod receiver signature).receiver? owner =
      if owner = receiver then
        some ⟨receiver, (scope.methods receiver).insert signature.name
          ⟨receiver, signature.name,
            scope.methodOverloads receiver signature.name ++ [signature]⟩⟩
      else scope.receiver? owner :=
  Table.find?_insert _ _ _ _

theorem method?_appendMethod (scope : Scope) (receiver : String) (signature : Signature .method)
    (owner name : String) :
    (scope.appendMethod receiver signature).method? owner name =
      if owner = receiver ∧ name = signature.name then
        some ⟨owner, name, scope.methodOverloads owner name ++ [signature]⟩
      else scope.method? owner name := by
  rw [method?_eq, methods, receiver?_appendMethod]
  by_cases inside : owner = receiver
  · subst inside
    rw [if_pos rfl, Option.map_some, Option.getD_some, Table.find?_insert, ← method?_eq]
    by_cases same : name = signature.name
    · rw [if_pos same, if_pos ⟨rfl, same⟩, same]
    · rw [if_neg same, if_neg fun both => same both.2]
  · rw [if_neg inside, if_neg fun both => inside both.1, method?_eq]
    rfl

@[simp]
theorem methodOverloads_appendMethod (scope : Scope) (receiver : String)
    (signature : Signature .method) (owner name : String) :
    (scope.appendMethod receiver signature).methodOverloads owner name =
      scope.methodOverloads owner name ++
        if owner = receiver ∧ name = signature.name then [signature] else [] := by
  rw [methodOverloads, method?_appendMethod]
  split <;> simp [methodOverloads]

/-! ## What a declaration does -/

theorem insert_eq {c : Callable} (name : String) (overloads : List (Signature c))
    (signature : Signature c) :
    (⟨name, overloads⟩ : OverloadSet (Signature c)).insert signature =
      match overloads.find? (·.params ≈ signature.params) with
      | none => .ok ⟨name, overloads ++ [signature]⟩
      | some rival =>
          .error (.duplicateSignature name signature.node.text rival.node.text signature.span
            rival.span) := by
  have rival_eq : (⟨name, overloads⟩ : OverloadSet (Signature c)).rival? signature =
      overloads.find? (·.params ≈ signature.params) := rfl
  rw [OverloadSet.insert, rival_eq]
  cases overloads.find? (·.params ≈ signature.params) with
  | none => rfl
  | some rival =>
      change Except.error (Diagnostic.duplicateSignature _ _ _ signature.node.span
        rival.node.span) = _
      rw [SignatureOf.span_node, SignatureOf.span_node]
      rfl

theorem Consistent.bindDim {scope : Scope} (consistent : scope.Consistent) (dim : Dim) :
    (scope.bindDim dim).Consistent where
  dim {name bound} h := by
    rw [dim?_bindDim] at h
    split at h
    · next same =>
        cases h
        exact same.symm
    · exact consistent.dim h
  function := consistent.function
  receiver := consistent.receiver

section Declare

variable {scope : Scope} (consistent : scope.Consistent)
include consistent

/-- An overload of a function is refused for the first one with equal parameters, or appended. -/
theorem Consistent.declareFunction_eq (signature : Signature .function) :
    scope.declareFunction signature =
      match (scope.functionOverloads signature.name).find? (·.params ≈ signature.params) with
      | none => .ok (scope.appendFunction signature)
      | some rival => .error (duplicate signature rival) := by
  simp only [declareFunction, consistent.function?_getD, insert_eq]
  cases (scope.functionOverloads signature.name).find? (·.params ≈ signature.params) <;> rfl

/-- An overload of a method is refused for the first one with equal parameters, or appended. -/
theorem Consistent.declareMethod_eq (receiver : String) (signature : Signature .method) :
    scope.declareMethod receiver signature =
      match (scope.methodOverloads receiver signature.name).find? (·.params ≈ signature.params) with
      | none => .ok (scope.appendMethod receiver signature)
      | some rival => .error (duplicate signature rival) := by
  have found : (scope.methods receiver).find? signature.name =
      scope.method? receiver signature.name := (scope.method?_eq _ _).symm
  simp only [declareMethod, consistent.receiver?_getD, Receiver.declare, Receiver.method?, found,
    consistent.method?_getD, MethodSet.insert, insert_eq]
  cases (scope.methodOverloads receiver signature.name).find? (·.params ≈ signature.params) <;> rfl

theorem Consistent.appendFunction {signature : Signature .function}
    (new : (scope.functionOverloads signature.name).find? (·.params ≈ signature.params) = none) :
    (scope.appendFunction signature).Consistent where
  dim := consistent.dim
  function {name overloads} h := by
    rw [function?_appendFunction] at h
    split at h
    · next same =>
        cases h
        subst same
        exact {
          (consistent.lists_functionOverloads signature.name).append rfl new with
          name_eq := rfl
          nonempty := by simp }
    · exact consistent.function h
  receiver := consistent.receiver

theorem Consistent.appendMethod {receiver : String} {signature : Signature .method}
    (new : (scope.methodOverloads receiver signature.name).find? (·.params ≈ signature.params) =
      none) :
    (scope.appendMethod receiver signature).Consistent where
  dim := consistent.dim
  function := consistent.function
  receiver {owner found} h := by
    rw [receiver?_appendMethod] at h
    split at h
    case isFalse => exact consistent.receiver h
    case isTrue same =>
      cases h
      subst same
      have added : Holds signature.name
          ⟨signature.name, scope.methodOverloads owner signature.name ++ [signature]⟩ := {
        (consistent.lists_methodOverloads owner signature.name).append rfl new with
        name_eq := rfl
        nonempty := by simp }
      have entry {name : String} {method : MethodSet}
          (h : Receiver.method? ⟨owner, (scope.methods owner).insert signature.name
            ⟨owner, signature.name, scope.methodOverloads owner signature.name ++ [signature]⟩⟩
              name = some method) :
          method.receiver = owner ∧ Holds name method.overloads := by
        rw [Receiver.method?, Table.find?_insert] at h
        split at h
        · next same =>
            cases h
            subst same
            exact ⟨rfl, added⟩
        · rw [← method?_eq] at h
          exact consistent.method h
      exact {
        name_eq := rfl
        nonempty := ⟨signature.name, _, Table.find?_insert_self _ _ _⟩
        receiver_eq := fun h => (entry h).1
        holds := fun h => (entry h).2 }

/-- A declaration keeps a scope consistent. -/
theorem Consistent.declare {strict : Bool} {item : Item} {grown : Scope}
    (h : scope.declare strict item = .ok grown) : grown.Consistent := by
  cases item with
  | dim declared =>
      rcases declareDim_eq_ok h with rfl | rfl
      · exact consistent
      · exact consistent.bindDim declared
  | function declared =>
      rw [Scope.declare, consistent.declareFunction_eq] at h
      split at h
      · next new =>
          cases h
          exact consistent.appendFunction new
      · cases h
  | method receiver declared =>
      rw [Scope.declare, consistent.declareMethod_eq] at h
      split at h
      · next new =>
          cases h
          exact consistent.appendMethod new
      · cases h

end Declare

end Scope
end ModelLang
