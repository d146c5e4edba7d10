import ModelLang.Diagnostic
import ModelLang.Node.Basic

/-!
# Building declarations

A declaration needs all its parts.  Building one without a part fails with the construct, its name
and the part that is missing; parameters are asked for before the body.
-/

namespace ModelLang

/-- The written type with a builtin name. -/
def TypeRef.builtin? (id : NodeId) (name : String) (span : Span) : Option TypeRef :=
  (Ty.builtin? name).map fun ty => ⟨id, ty, span⟩

/-- A required part of a construct. -/
def Malformed.require {α : Type} (construct name missing : String) (span : Span) :
    Option α → Except Malformed α
  | some part => .ok part
  | none => .error ⟨construct, name, missing, span⟩

/-- Build a dimension; the extent is required. -/
def DimOf.make (id : NodeId) (name : String) (extent : Option Node) (span : Span) :
    Except Malformed Dim := do
  let extent ← Malformed.require "dim" name "extent" span extent
  return ⟨id, name, extent, span⟩

/-- Build an overload; the parameters and the body are required. -/
def SignatureOf.make (c : Callable) (id : NodeId) (name : String) (params body : Option Node)
    (span : Span) : Except Malformed (Signature c) := do
  let params ← Malformed.require c.keyword name "parameter list" span params
  let body ← Malformed.require c.keyword name "body" span body
  return ⟨id, name, params, body, span⟩

end ModelLang
