import ModelLang.Node.Basic

/-!
# Frames

While a declaration is being resolved, a frame says in which context the names of its body or
extent are looked up.  Frames are stacked: a use site can make another declaration be resolved in
the middle of a body, and the declarations of the stack are those in progress.
-/

namespace ModelLang.Resolution

/-- The context in which the contents of a declaration are resolved. -/
inductive Frame where
  /-- The extent of a dim, which sees no parameters and no receiver. -/
  | extent (dim : NodeId)
  /-- The body of a signature, which sees its parameters and the methods of its receiver. -/
  | body (signature : NodeId) (receiver : Option String) (params : List Param)

namespace Frame

/-- The declaration whose contents are resolved. -/
def declaration : Frame → NodeId
  | extent dim => dim
  | body signature _ _ => signature

/-- The signature that owns the use sites of the frame; extents have no owner. -/
def owner? : Frame → Option NodeId
  | extent _ => none
  | body signature _ _ => some signature

/-- The receiver whose methods are visible. -/
def receiver? : Frame → Option String
  | extent _ => none
  | body _ receiver _ => receiver

/-- The visible parameter of a name; of several, the last one. -/
def param? (frame : Frame) (name : String) : Option Param :=
  match frame with
  | extent _ => none
  | body _ _ params => params.reverse.find? fun param => param.name == name

end Frame

/-- The frames of the declarations in progress, innermost first. -/
abbrev Stack := List Frame

namespace Stack

/-- A declaration is in progress. -/
def Resolving (stack : Stack) (declaration : NodeId) : Prop :=
  declaration ∈ stack.map Frame.declaration

instance (stack : Stack) (declaration : NodeId) : Decidable (stack.Resolving declaration) :=
  inferInstanceAs (Decidable (declaration ∈ stack.map Frame.declaration))

/-- The owner of the use sites that are resolved now. -/
def owner? (stack : Stack) : Option NodeId :=
  stack.head?.bind Frame.owner?

/-- The receiver whose methods are visible now. -/
def receiver? (stack : Stack) : Option String :=
  stack.head?.bind Frame.receiver?

/-- The parameter of a name that is visible now. -/
def param? (stack : Stack) (name : String) : Option Param :=
  stack.head?.bind (·.param? name)

end Stack

end ModelLang.Resolution
