import ModelLang.Resolution.Frame
import ModelLang.Scope

/-!
# Lookup of names

A use site is bound in the first of these places that knows its name:

1. for a qualified name, the methods of its receiver, and nothing else;
2. the parameters of the enclosing signature, unless the use site is a call;
3. the methods of the enclosing receiver;
4. the dims of the scope, unless the use site is a call;
5. the functions of the scope.
-/

namespace ModelLang.Resolution

/-- What a name stands for at a use site. -/
inductive Binding where
  | param (param : Param)
  | dim (dim : Dim)
  | function (overloads : OverloadSet (Signature .function))
  | method (overloads : MethodSet)

/-- The binding of a qualified name. -/
def lookupIn (scope : Scope) (receiver name : String) (site : Span) : Except Diagnostic Binding :=
  match scope.receiver? receiver with
  | none => .error (.unknownReceiver receiver name site)
  | some owner =>
      match owner.method? name with
      | none => .error (.unknownName (receiver ++ "." ++ name) site)
      | some method => .ok (.method method)

/-- The binding of an unqualified name, in a call or without arguments. -/
def lookupHere? (scope : Scope) (stack : Stack) (name : String) (isCall : Bool) : Option Binding :=
  let param := if isCall then none else stack.param? name
  let method := stack.receiver?.bind (scope.method? · name)
  let dim := if isCall then none else scope.dim? name
  let function := scope.function? name
  (param.map .param) <|> (method.map .method) <|> (dim.map .dim) <|> (function.map .function)

/-- The binding of a use site. -/
def lookup (scope : Scope) (stack : Stack) (reference : Reference) : Except Diagnostic Binding :=
  match reference.receiver with
  | some receiver => lookupIn scope receiver reference.name reference.span
  | none =>
      match lookupHere? scope stack reference.name reference.isCall with
      | some binding => .ok binding
      | none => .error (.unknownName reference.name reference.span)

end ModelLang.Resolution
