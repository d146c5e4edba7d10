import ModelLang.Proofs.Scope
import ModelLang.Resolution.Walk

/-!
# What a lookup finds

A binding tells where it was found and what its use site looks like: only a name without receiver
and without arguments stands for a parameter or a dim, and a qualified name stands for a method of
its own receiver.
-/

namespace ModelLang.Resolution

/-- A binding that the name of a use site may have. -/
inductive Found (scope : Scope) (stack : Stack) (site : Reference) : Binding → Prop
  | param {param : Param} (unqualified : site.receiver = none) (noCall : site.parens = none)
      (found : stack.param? site.name = some param) : Found scope stack site (.param param)
  | dim {dim : Dim} (unqualified : site.receiver = none) (noCall : site.parens = none)
      (found : scope.dim? site.name = some dim) : Found scope stack site (.dim dim)
  | function {overloads : OverloadSet (Signature .function)} (unqualified : site.receiver = none)
      (found : scope.function? site.name = some overloads) :
      Found scope stack site (.function overloads)
  | method {receiver : String} {method : MethodSet}
      (inside : (site.receiver <|> stack.receiver?) = some receiver)
      (found : scope.method? receiver site.name = some method) :
      Found scope stack site (.method method)

variable {graph : Graph} {scope : Scope} {stack : Stack} {site : Reference} {binding : Binding}

theorem Found.of_qualified {receiver : String} (qualified : site.receiver = some receiver)
    (h : lookup scope stack site = .ok binding) : Found scope stack site binding := by
  simp only [lookup, qualified, lookupIn] at h
  split at h
  case h_1 => cases h
  case h_2 owner foundOwner =>
    split at h
    case h_1 => cases h
    case h_2 method foundMethod =>
      cases h
      have inside : (site.receiver <|> stack.receiver?) = some receiver := by
        rw [qualified]
        rfl
      refine .method inside ?_
      rw [Scope.method?, foundOwner]
      exact foundMethod

theorem Found.of_unqualified (unqualified : site.receiver = none)
    (h : lookup scope stack site = .ok binding) : Found scope stack site binding := by
  have noCall (h : ¬ site.isCall = true) : site.parens = none := by
    simpa [ReferenceOf.isCall] using h
  simp only [lookup, unqualified] at h
  split at h
  case h_2 => cases h
  case h_1 found =>
    cases h
    simp only [lookupHere?, Option.orElse_eq_orElse, Option.orElse_eq_or, Option.or_eq_some_iff,
      Option.map_eq_some_iff] at found
    rcases found with ⟨param, found, rfl⟩ | ⟨-, ⟨method, found, rfl⟩ | ⟨-, ⟨dim, found, rfl⟩ |
      ⟨-, overloads, found, rfl⟩⟩⟩
    · split at found
      case isTrue => cases found
      case isFalse bare => exact .param unqualified (noCall bare) found
    · obtain ⟨receiver, here, found⟩ := Option.bind_eq_some_iff.mp found
      exact .method (by rw [unqualified]; exact here) found
    · split at found
      case isTrue => cases found
      case isFalse bare => exact .dim unqualified (noCall bare) found
    · exact .function unqualified found

/-- A successful lookup finds a binding of the name. -/
theorem found_of_lookup (h : lookup scope stack site = .ok binding) :
    Found scope stack site binding := by
  cases receiver : site.receiver with
  | none => exact .of_unqualified receiver h
  | some => exact .of_qualified receiver h

/-- The overloads that a binding calls, the receiver of their bodies, and their selection. -/
inductive Binding.Calls : {c : Callable} → Binding → Option String → OverloadSet (Signature c) →
    (Node → Span → Except Diagnostic (Signature c)) → Prop
  | function (overloads : OverloadSet (Signature .function)) :
      Calls (.function overloads) none overloads overloads.resolve
  | method (method : MethodSet) :
      Calls (.method method) (some method.receiver) method.overloads method.resolve

namespace Binding.Calls

variable {c : Callable} {receiver : Option String} {overloads : OverloadSet (Signature c)}
  {resolve : Node → Span → Except Diagnostic (Signature c)}

/-- The overloads that a use site calls are filed under its name. -/
theorem files (calls : binding.Calls receiver overloads resolve)
    (found : Found scope stack site binding) (within : scope.Within graph) :
    Scope.Files graph site.name overloads := by
  cases calls with
  | function overloads =>
      cases found with
      | function _ found => exact within.function found
  | method method =>
      cases found with
      | method _ found => exact (within.method found).2

/-- Where a call is reported does not matter for what it selects. -/
theorem resolve_eq_ok_iff_choose (calls : binding.Calls receiver overloads resolve)
    {arguments : Node} {place : Span} {selected : Signature c} :
    resolve arguments place = .ok selected ↔ overloads.choose arguments = .unique selected := by
  cases calls <;> exact OverloadSet.resolveAs_eq_ok_iff

end Binding.Calls

end ModelLang.Resolution
