import ModelLang.Proofs.Declaration.Filing

/-!
# Declaring in place

A scope is changed in place: the set that a declaration belongs to is made first, for a method
inside a receiver that may be new as well, and then the declaration is inserted, which may fail.
A set that was just made is empty and refuses nothing, so a declaration fails only where nothing
was made, and a failure leaves the scope as it was.  The central statement is about every sequence
of calls, whether they succeed or not: the scope stays filed by name without empty sets, and a
call that succeeds appends to one set.
-/

namespace ModelLang

/-- A change in place: its answer, and the state that it leaves, also when it fails. -/
abbrev Change (σ : Type) := σ → Except Diagnostic Unit × σ

/-- The change by a step that either succeeds or does not touch the state. -/
def Change.atomic {σ : Type} (step : σ → Except Diagnostic σ) : Change σ := fun state =>
  match step state with
  | .ok changed => (.ok (), changed)
  | .error error => (.error error, state)

theorem Change.atomic_of_ok {σ : Type} {step : σ → Except Diagnostic σ} {state changed : σ}
    (h : step state = .ok changed) : atomic step state = (.ok (), changed) := by
  simp only [atomic, h]

theorem Change.atomic_of_error {σ : Type} {step : σ → Except Diagnostic σ} {state : σ}
    {error : Diagnostic} (h : step state = .error error) :
    atomic step state = (.error error, state) := by
  simp only [atomic, h]

namespace Table

variable {κ ν : Type} [DecidableEq κ]

/-- Change the value of a key in place.  A key without a value is bound to `vacant` first, and stays
bound when the change fails. -/
def changeEntry (key : κ) (vacant : ν) (change : Change ν) : Change (Table κ ν) := fun table =>
  let (answer, value) := change ((table.find? key).getD vacant)
  (answer, table.insert key value)

/-- An entry is changed as a whole or not at all, if the change does not fail on a new entry. -/
theorem changeEntry_atomic (key : κ) {vacant : ν} (step : ν → Except Diagnostic ν)
    (made : ∃ value, step vacant = .ok value) :
    changeEntry key vacant (.atomic step) =
      .atomic fun table => (step ((table.find? key).getD vacant)).map (table.insert key) := by
  funext table
  cases outcome : step ((table.find? key).getD vacant) with
  | ok value => simp only [changeEntry, Change.atomic, outcome, Except.map]
  | error error =>
      cases found : table.find? key with
      | none =>
          obtain ⟨value, made⟩ := made
          rw [found, Option.getD_none, made] at outcome
          cases outcome
      | some value =>
          rw [found, Option.getD_some] at outcome
          simp only [changeEntry, Change.atomic, found, Option.getD_some, outcome, Except.map,
            insert_eq_self found]

end Table

/-- Add a candidate in place. -/
def OverloadSet.push {α : Type} [Candidate α] (candidate : α) : Change (OverloadSet α) :=
  .atomic (·.insert candidate)

/-- Add an overload in place. -/
def MethodSet.push (signature : Signature .method) : Change MethodSet := fun set =>
  let (answer, overloads) := OverloadSet.push signature set.overloads
  (answer, { set with overloads })

/-- Add an overload in place to the method of its name, which is made if it is missing. -/
def Receiver.push (signature : Signature .method) : Change Receiver := fun owner =>
  let method := MethodSet.empty owner.name signature.name
  let (answer, methods) :=
    Table.changeEntry signature.name method (MethodSet.push signature) owner.methods
  (answer, { owner with methods })

namespace Scope

/-- Add an overload in place to the function of its name, which is made if it is missing. -/
def pushFunction (signature : Signature .function) : Change Scope := fun scope =>
  let (answer, functions) :=
    Table.changeEntry signature.name { name := signature.name } (OverloadSet.push signature)
      scope.functions
  (answer, { scope with functions })

/-- Add an overload in place to a method of a receiver.  The receiver and the method are made if
they are missing. -/
def pushMethod (receiver : String) (signature : Signature .method) : Change Scope := fun scope =>
  let (answer, receivers) :=
    Table.changeEntry receiver { name := receiver } (Receiver.push signature) scope.receivers
  (answer, { scope with receivers })

/-- Declare an item in place. -/
def push (strict : Bool) : Item → Change Scope
  | .dim declared => .atomic (·.declareDim strict declared)
  | .function declared => pushFunction declared
  | .method receiver declared => pushMethod receiver declared

end Scope

/-- A set that was just made takes every candidate. -/
theorem OverloadSet.insert_new {α : Type} [Candidate α] (name : String) (candidate : α) :
    ∃ set, ({ name } : OverloadSet α).insert candidate = .ok set :=
  ⟨_, rfl⟩

theorem MethodSet.insert_new (receiver name : String) (signature : Signature .method) :
    ∃ set, (MethodSet.empty receiver name).insert signature = .ok set :=
  ⟨_, rfl⟩

theorem Receiver.declare_new (name : String) (signature : Signature .method) :
    ∃ owner, ({ name } : Receiver).declare signature = .ok owner :=
  ⟨_, rfl⟩

theorem MethodSet.push_eq (signature : Signature .method) :
    push signature = .atomic (·.insert signature) := by
  funext set
  cases inserted : set.overloads.insert signature <;>
    simp only [push, OverloadSet.push, Change.atomic, insert, inserted]

theorem Receiver.push_eq (signature : Signature .method) :
    push signature = .atomic (·.declare signature) := by
  funext owner
  rw [push, MethodSet.push_eq,
    Table.changeEntry_atomic signature.name (MethodSet.insert · signature)
      (MethodSet.insert_new owner.name signature.name signature)]
  simp only [Change.atomic, declare, method?]
  cases MethodSet.insert _ signature <;> rfl

namespace Scope

/-- Declaring in place succeeds as a whole or leaves the scope as it was. -/
theorem push_eq (strict : Bool) (item : Item) :
    push strict item = .atomic (·.declare strict item) := by
  funext scope
  cases item with
  | dim declared => rfl
  | function declared =>
      rw [push, pushFunction, OverloadSet.push,
        Table.changeEntry_atomic declared.name (OverloadSet.insert · declared)
          (OverloadSet.insert_new declared.name declared)]
      simp only [Change.atomic, declare, declareFunction, function?]
      cases OverloadSet.insert _ declared <;> rfl
  | method receiver declared =>
      rw [push, pushMethod, Receiver.push_eq,
        Table.changeEntry_atomic receiver (Receiver.declare · declared)
          (Receiver.declare_new receiver declared)]
      simp only [Change.atomic, declare, declareMethod, receiver?]
      cases Receiver.declare _ declared <;> rfl

/-! ## Sequences of calls -/

/-- A call: an item, and whether a dim needs an equal extent to agree with the one that is bound. -/
structure Call where
  strict : Bool
  item : Item

/-- The scope that a sequence of calls leaves, whether they succeed or not. -/
def afterCalls (calls : List Call) : Scope :=
  calls.foldl (fun scope call => (push call.strict call.item scope).2) {}

/-- One more overload of a function, and nothing else. -/
structure AppendsFunction (scope grown : Scope) (signature : Signature .function) : Prop where
  dims_eq : grown.dims = scope.dims
  receivers_eq : grown.receivers = scope.receivers
  function?_eq : ∀ name, grown.function? name =
    if name = signature.name then some ⟨name, scope.functionOverloads name ++ [signature]⟩
    else scope.function? name

/-- One more overload of a method of a receiver, and nothing else. -/
structure AppendsMethod (scope grown : Scope) (receiver : String) (signature : Signature .method) :
    Prop where
  dims_eq : grown.dims = scope.dims
  functions_eq : grown.functions = scope.functions
  receiver?_eq : ∀ owner, owner ≠ receiver → grown.receiver? owner = scope.receiver? owner
  method?_eq : ∀ owner name, grown.method? owner name =
    if owner = receiver ∧ name = signature.name then
      some ⟨owner, name, scope.methodOverloads owner name ++ [signature]⟩
    else scope.method? owner name

/-- What a call answers and leaves: all of the declaration, or an error and the scope as it was. -/
structure Outcome (scope : Scope) (call : Call) : Prop where
  atomic : push call.strict call.item scope =
    Change.atomic (·.declare call.strict call.item) scope
  of_error : ∀ error, (push call.strict call.item scope).1 = .error error →
    (push call.strict call.item scope).2 = scope
  of_function : ∀ signature, call.item = .function signature →
    (push call.strict call.item scope).1 = .ok () →
      AppendsFunction scope (push call.strict call.item scope).2 signature
  of_method : ∀ receiver signature, call.item = .method receiver signature →
    (push call.strict call.item scope).1 = .ok () →
      AppendsMethod scope (push call.strict call.item scope).2 receiver signature

theorem Consistent.push {scope : Scope} (consistent : scope.Consistent) (strict : Bool)
    (item : Item) : (push strict item scope).2.Consistent := by
  rw [push_eq]
  cases outcome : scope.declare strict item with
  | ok grown =>
      rw [Change.atomic_of_ok outcome]
      exact consistent.declare outcome
  | error error =>
      rw [Change.atomic_of_error outcome]
      exact consistent

theorem Consistent.outcome {scope : Scope} (consistent : scope.Consistent) (call : Call) :
    Outcome scope call := by
  obtain ⟨strict, item⟩ := call
  have atomic : Scope.push strict item scope = Change.atomic (·.declare strict item) scope := by
    rw [push_eq]
  cases outcome : scope.declare strict item with
  | error error =>
      have refused : Scope.push strict item scope = (.error error, scope) := by
        rw [atomic, Change.atomic_of_error outcome]
      refine ⟨atomic, ?_, ?_, ?_⟩ <;> simp [refused]
  | ok grown =>
      have changed : Scope.push strict item scope = (.ok (), grown) := by
        rw [atomic, Change.atomic_of_ok outcome]
      refine ⟨atomic, by simp [changed], ?_, ?_⟩
      · rintro signature rfl -
        rw [Scope.declare, consistent.declareFunction_eq] at outcome
        split at outcome
        · cases outcome
          rw [changed]
          exact ⟨rfl, rfl, function?_appendFunction scope signature⟩
        · cases outcome
      · rintro receiver signature rfl -
        rw [Scope.declare, consistent.declareMethod_eq] at outcome
        split at outcome
        · cases outcome
          rw [changed]
          refine ⟨rfl, rfl, fun owner other => ?_, method?_appendMethod scope receiver signature⟩
          rw [receiver?_appendMethod, if_neg other]
        · cases outcome

theorem consistent_afterCalls (calls : List Call) : (afterCalls calls).Consistent := by
  suffices kept : ∀ scope : Scope, scope.Consistent →
      (calls.foldl (fun scope call => (push call.strict call.item scope).2) scope).Consistent from
    kept {} .empty
  induction calls with
  | nil => exact fun _ consistent => consistent
  | cons call calls induction =>
      exact fun scope consistent => induction _ (consistent.push call.strict call.item)

/-- After any sequence of calls the scope is consistent.  A further call that fails leaves it as it
is, without a new set or receiver, and one that declares an overload appends it to one set and
changes nothing else. -/
theorem consistent_and_atomic (calls : List Call) :
    (afterCalls calls).Consistent ∧ ∀ call, Outcome (afterCalls calls) call :=
  ⟨consistent_afterCalls calls, (consistent_afterCalls calls).outcome⟩

/-! ## A method that is declared twice -/

namespace DeclaredTwice

def once : Signature .method := ⟨0, "f", .list ⟨1, [], {}⟩, .block ⟨2, [], {}⟩, { line := 1 }⟩
def twice : Signature .method := ⟨3, "f", .list ⟨4, [], {}⟩, .block ⟨2, [], {}⟩, { line := 2 }⟩
def first : Call := ⟨true, .method "A" once⟩

end DeclaredTwice

open DeclaredTwice in
/-- The first declaration makes the receiver; the second one is refused and leaves no trace. -/
theorem consistent_and_atomic_declaredTwice :
    AppendsMethod {} (afterCalls [first]) "A" once ∧
      (push true (.method "A" twice) (afterCalls [first])).1 = .error (duplicate twice once) ∧
      (push true (.method "A" twice) (afterCalls [first])).2 = afterCalls [first] := by
  obtain ⟨-, before⟩ := consistent_and_atomic []
  obtain ⟨-, after⟩ := consistent_and_atomic [first]
  have refused :
      (push true (.method "A" twice) (afterCalls [first])).1 = .error (duplicate twice once) := rfl
  exact ⟨(before first).of_method "A" once rfl rfl, refused,
    (after ⟨true, .method "A" twice⟩).of_error _ refused⟩

end Scope
end ModelLang
