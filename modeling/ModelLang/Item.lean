import ModelLang.Node.Text
import ModelLang.Node.Typing

/-!
# Items

An item is one declaration of a model: a dim, a function, or a method together with the receiver
that it is declared in.
-/

namespace ModelLang

/-- One declaration of a model. -/
inductive Item where
  | dim (declared : Dim)
  | function (declared : Signature .function)
  /-- A method declared inside `receiver`. -/
  | method (receiver : String) (declared : Signature .method)

namespace Item

/-- The declared name. -/
def name : Item → String
  | dim declared => declared.name
  | function declared => declared.name
  | method _ declared => declared.name

/-- The receiver of a method. -/
def receiver? : Item → Option String
  | method receiver _ => some receiver
  | _ => none

/-- The declaration as a node. -/
def node : Item → Node
  | dim declared => .dim declared
  | function declared => .function declared
  | method _ declared => .method declared

/-- Where the declaration starts. -/
def span (item : Item) : Span :=
  item.node.span

/-- The receiver of a method and a colon; nothing for the others. -/
def receiverMark (item : Item) : String :=
  (item.receiver?.map (· ++ ": ")).getD ""

/-- The written form of the declaration, after its receiver. -/
def text (item : Item) : String :=
  item.receiverMark ++ item.node.text

end Item

end ModelLang
