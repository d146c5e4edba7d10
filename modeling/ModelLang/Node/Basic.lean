import ModelLang.Span
import ModelLang.Value

/-!
# Nodes of a model

A model is a graph of nodes of nine kinds.  Four kinds are leaves of the order (literals, written
types, parameters and references), two are sequences (lists and blocks), and three are
declarations (dims, functions and methods).  Every node bears an identity: two nodes with one
identity are the same node reached along two paths, and rebuilding a node gives it a new
identity.  A reference may carry the declaration it resolved to; that target is a note and not one
of its children.
-/

namespace ModelLang

/-- The identity of a node. -/
abbrev NodeId := Nat

/-- A literal. -/
structure Literal where
  id : NodeId
  value : Value
  span : Span
  deriving DecidableEq, Repr

/-- A written type, such as the `Real` of `x:Real`. -/
structure TypeRef where
  id : NodeId
  ty : Ty
  span : Span

/-- A declared parameter, `name:Type`. -/
structure Param where
  id : NodeId
  name : String
  typeRef : TypeRef
  span : Span

/-- What can be called, and overloaded by its parameters. -/
inductive Callable where
  /-- A free function. -/
  | function
  /-- A method of a receiver. -/
  | method
  deriving DecidableEq, Repr

/-- The keyword a declaration starts with. -/
def Callable.keyword : Callable → String
  | function => "function"
  | method => "method"

/-- Items in order, over nodes `α`. -/
structure SequenceOf (α : Type) where
  id : NodeId
  items : List α
  span : Span

/-- A dimension `dim name[extent]`, over nodes `α`. -/
structure DimOf (α : Type) where
  id : NodeId
  name : String
  /-- The range of the dimension, written between brackets. -/
  extent : α
  span : Span

/-- One overload `name(params) {body}` of a function or a method, over nodes `α`. -/
structure SignatureOf (c : Callable) (α : Type) where
  id : NodeId
  name : String
  /-- The parameters, written between parentheses. -/
  params : α
  /-- What a call evaluates to, written between braces. -/
  body : α
  span : Span

/-- The declaration that a reference resolved to, over nodes `α`. -/
inductive TargetOf (α : Type) where
  | param (target : Param)
  | dim (target : DimOf α)
  | function (target : SignatureOf .function α)
  | method (target : SignatureOf .method α)

/-- A use site `x`, `x[i]`, `f(a, b)` or `receiver.f(a)`, over nodes `α`. -/
structure ReferenceOf (α : Type) where
  id : NodeId
  /-- The receiver before the dot of a qualified name. -/
  receiver : Option String
  name : String
  /-- An index, written between brackets. -/
  brackets : Option α
  /-- The arguments of a call, written between parentheses. -/
  parens : Option α
  /-- The type of the use site; `Ty.unknown` until it is resolved. -/
  ty : Ty
  /-- The declaration it resolved to. -/
  target : Option (TargetOf α)
  span : Span

/-- A node of any kind. -/
inductive Node where
  | literal (literal : Literal)
  | typeRef (typeRef : TypeRef)
  | param (param : Param)
  | reference (reference : ReferenceOf Node)
  /-- Comma-separated items. -/
  | list (list : SequenceOf Node)
  /-- The items of a body; the last one gives its value. -/
  | block (block : SequenceOf Node)
  | dim (dim : DimOf Node)
  | function (signature : SignatureOf .function Node)
  | method (signature : SignatureOf .method Node)

/-- A list or a block of nodes. -/
abbrev Sequence := SequenceOf Node

/-- A declared dimension. -/
abbrev Dim := DimOf Node

/-- One overload of a function or a method. -/
abbrev Signature (c : Callable) := SignatureOf c Node

/-- A use site. -/
abbrev Reference := ReferenceOf Node

/-- The declaration that a use site resolved to. -/
abbrev Target := TargetOf Node

/-- The nine kinds of nodes. -/
inductive Kind where
  | literal
  | typeRef
  | param
  | reference
  | list
  | block
  | dim
  | function
  | method
  deriving DecidableEq, Repr

namespace Kind

/-- The name of a kind. -/
def text : Kind → String
  | literal => "literal"
  | typeRef => "type"
  | param => "parameter"
  | reference => "reference"
  | list => "list"
  | block => "block"
  | dim => "dim"
  | function => "function"
  | method => "method"

/-- Leaf kinds are compared by value and type, whatever the kind of the other leaf. -/
def isLeaf : Kind → Bool
  | literal | typeRef | param | reference => true
  | _ => false

end Kind

namespace Node

/-- The kind of a node. -/
def kind : Node → Kind
  | literal _ => .literal
  | typeRef _ => .typeRef
  | param _ => .param
  | reference _ => .reference
  | list _ => .list
  | block _ => .block
  | dim _ => .dim
  | function _ => .function
  | method _ => .method

/-- The identity of a node. -/
def id : Node → NodeId
  | literal node => node.id
  | typeRef node => node.id
  | param node => node.id
  | reference node => node.id
  | list node => node.id
  | block node => node.id
  | dim node => node.id
  | function node => node.id
  | method node => node.id

/-- Where a node starts. -/
def span : Node → Span
  | literal node => node.span
  | typeRef node => node.span
  | param node => node.span
  | reference node => node.span
  | list node => node.span
  | block node => node.span
  | dim node => node.span
  | function node => node.span
  | method node => node.span

/-- The two are one node. -/
def same (a b : Node) : Bool :=
  a.id == b.id

/-- Both children are missing, or both are there and are one node. -/
def sameChild : Option Node → Option Node → Bool
  | none, none => true
  | some a, some b => a.same b
  | _, _ => false

/-- The children of a node in the order they are written.  The target of a reference is not a
child. -/
def children : Node → List Node
  | literal _ => []
  | typeRef _ => []
  | param node => [typeRef node.typeRef]
  | reference node => node.brackets.toList ++ node.parens.toList
  | list node => node.items
  | block node => node.items
  | dim node => [node.extent]
  | function node => [node.params, node.body]
  | method node => [node.params, node.body]

/-- The parameter that a node is, if it is one. -/
def param? : Node → Option Param
  | param node => some node
  | _ => none

end Node

namespace SignatureOf

/-- The signature as a node. -/
def node : {c : Callable} → Signature c → Node
  | .function, signature => .function signature
  | .method, signature => .method signature

/-- The parameters that a signature binds in its body; other nodes in their place bind nothing. -/
def formals {c : Callable} (signature : Signature c) : List Param :=
  match signature.params with
  | .list params => params.items.filterMap Node.param?
  | .param param => [param]
  | _ => []

theorem node_inj {c : Callable} {a b : Signature c} (h : a.node = b.node) : a = b := by
  cases c <;> cases h <;> rfl

@[simp]
theorem id_node {c : Callable} (signature : Signature c) : signature.node.id = signature.id := by
  cases c <;> rfl

@[simp]
theorem span_node {c : Callable} (signature : Signature c) :
    signature.node.span = signature.span := by
  cases c <;> rfl

end SignatureOf

namespace TargetOf

/-- The target as a node. -/
def node : Target → Node
  | param target => .param target
  | dim target => .dim target
  | function target => .function target
  | method target => .method target

/-- A signature as the target of a call. -/
def signature : {c : Callable} → Signature c → Target
  | .function, target => .function target
  | .method, target => .method target

@[simp]
theorem node_signature {c : Callable} (target : Signature c) :
    (signature target).node = target.node := by
  cases c <;> rfl

end TargetOf

namespace ReferenceOf

/-- The use site has arguments. -/
def isCall (reference : Reference) : Bool :=
  reference.parens.isSome

/-- The use site carries the declaration it resolved to. -/
def isResolved (reference : Reference) : Bool :=
  reference.target.isSome

end ReferenceOf

end ModelLang
