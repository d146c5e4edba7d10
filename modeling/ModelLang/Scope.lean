import ModelLang.Event
import ModelLang.Table

/-!
# Scopes

A scope is the namespace of one model: dims and functions by name, and receivers with their
methods. A second dim of a name must agree with the first, which stays bound; a second overload
must differ from the others in its parameters.  A declaration that fails leaves the scope as it
was.
-/

namespace ModelLang

/-- The methods declared inside one receiver. -/
structure Receiver where
  name : String
  methods : Table String MethodSet := {}

namespace Receiver

/-- The method of a name. -/
def method? (receiver : Receiver) (name : String) : Option MethodSet :=
  receiver.methods.find? name

/-- Add an overload to the method of its name. -/
def declare (receiver : Receiver) (signature : Signature .method) : Except Diagnostic Receiver :=
  let method := (receiver.method? signature.name).getD (.empty receiver.name signature.name)
  match method.insert signature with
  | .ok method => .ok { receiver with methods := receiver.methods.insert signature.name method }
  | .error error => .error error

end Receiver

/-- The namespace of a model. -/
structure Scope where
  dims : Table String Dim := {}
  functions : Table String (OverloadSet (Signature .function)) := {}
  receivers : Table String Receiver := {}

namespace Scope

/-- The dim of a name. -/
def dim? (scope : Scope) (name : String) : Option Dim :=
  scope.dims.find? name

/-- The function of a name. -/
def function? (scope : Scope) (name : String) : Option (OverloadSet (Signature .function)) :=
  scope.functions.find? name

/-- The receiver of a name. -/
def receiver? (scope : Scope) (name : String) : Option Receiver :=
  scope.receivers.find? name

/-- The method of a name inside a receiver. -/
def method? (scope : Scope) (receiver name : String) : Option MethodSet :=
  (scope.receiver? receiver).bind (·.method? name)

/-- A dim agrees with the one that its name is bound to: their extents are equal, or, when dims are
not strict, comparable. -/
def Unifies (strict : Bool) (existing dim : Dim) : Prop :=
  if strict then existing.extent ≈ dim.extent
  else (existing.extent.compare dim.extent).isComparable = true

instance (strict : Bool) (existing dim : Dim) : Decidable (Unifies strict existing dim) := by
  unfold Unifies
  infer_instance

/-- Bind a dim to its name, or check that it agrees with the one that is bound. -/
def declareDim (scope : Scope) (strict : Bool) (dim : Dim) : Except Diagnostic Scope :=
  match scope.dim? dim.name with
  | none => .ok { scope with dims := scope.dims.insert dim.name dim }
  | some existing =>
      if Unifies strict existing dim then .ok scope
      else .error (.typeMismatch dim.name existing.extent.text dim.extent.text dim.span)

/-- Add an overload to the function of its name. -/
def declareFunction (scope : Scope) (signature : Signature .function) : Except Diagnostic Scope :=
  let function := (scope.function? signature.name).getD { name := signature.name }
  match function.insert signature with
  | .ok function => .ok { scope with functions := scope.functions.insert signature.name function }
  | .error error => .error error

/-- Add an overload to the method of its name inside a receiver. -/
def declareMethod (scope : Scope) (receiver : String) (signature : Signature .method) :
    Except Diagnostic Scope :=
  let owner := (scope.receiver? receiver).getD { name := receiver }
  match owner.declare signature with
  | .ok owner => .ok { scope with receivers := scope.receivers.insert receiver owner }
  | .error error => .error error

/-- Declare an item. -/
def declare (scope : Scope) (strict : Bool) : Item → Except Diagnostic Scope
  | .dim declared => scope.declareDim strict declared
  | .function declared => scope.declareFunction declared
  | .method receiver declared => scope.declareMethod receiver declared

/-- What is recorded when an item has been declared in a scope. -/
def declared (scope : Scope) : Item → Event
  | .dim declared =>
      match scope.dim? declared.name with
      | none => .declaredDim declared
      | some existing => .unifiedDim declared existing
  | .function declared => .declaredFunction declared
  | .method receiver declared => .declaredMethod receiver declared

end Scope

end ModelLang
