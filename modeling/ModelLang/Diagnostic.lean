import ModelLang.Span

/-!
# Errors and their messages

An error is a cause with the names it concerns.  A construct with a missing part cannot be built
at all (`Malformed`); everything found while declaring and resolving is a `Diagnostic` and is
collected. The wording of every message is in this module.
-/

namespace ModelLang

/-- A construct that was given without one of its required parts. -/
structure Malformed where
  /-- Keyword of the construct. -/
  construct : String
  /-- Name given to the construct. -/
  name : String
  /-- The part that is missing. -/
  missing : String
  /-- Where the construct starts. -/
  span : Span
  deriving DecidableEq, Repr

/-- The message shown for a construct without a required part. -/
def Malformed.message (error : Malformed) : String :=
  s!"at {error.span.text}: malformed {error.construct} '{error.name}': missing {error.missing}"

/-- An error found while declaring or resolving. -/
inductive Diagnostic where
  /-- A candidate has the parameters of one that is already in the overload set. -/
  | duplicateSignature (name signature previous : String) (span previousSpan : Span)
  /-- Two declarations of one name do not unify. -/
  | typeMismatch (name expected found : String) (span : Span)
  /-- No candidate accepts the arguments; all candidates are listed. -/
  | noApplicableOverload (name arguments : String) (candidates : List String) (span : Span)
  /-- No accepting candidate is more specific than all the others; the minimal ones are listed. -/
  | ambiguousOverload (name arguments : String) (candidates : List String) (span : Span)
  /-- A name that nothing visible bears. -/
  | unknownName (name : String) (span : Span)
  /-- A qualified name whose receiver was never declared. -/
  | unknownReceiver (receiver name : String) (span : Span)
  deriving DecidableEq, Repr

namespace Diagnostic

/-- Where the error occurred. -/
def span : Diagnostic → Span
  | duplicateSignature _ _ _ span _ => span
  | typeMismatch _ _ _ span => span
  | noApplicableOverload _ _ _ span => span
  | ambiguousOverload _ _ _ span => span
  | unknownName _ span => span
  | unknownReceiver _ _ span => span

/-- The candidates of a failed call, one on a line; nothing when there are none. -/
def candidateLines : List String → String
  | [] => ""
  | candidates => "; candidates:" ++ String.join (candidates.map ("\n    " ++ ·))

/-- The message shown for the error. -/
def message : Diagnostic → String
  | duplicateSignature _ signature previous span previousSpan =>
      s!"at {span.text}: duplicate signature '{signature}' " ++
        s!"(previously declared at {previousSpan.text} as '{previous}')"
  | typeMismatch name expected found span =>
      s!"at {span.text}: type mismatch for '{name}': expected '{expected}', found '{found}'"
  | noApplicableOverload name arguments candidates span =>
      s!"at {span.text}: no applicable overload for '{name}({arguments})'" ++
        candidateLines candidates
  | ambiguousOverload name arguments candidates span =>
      s!"at {span.text}: ambiguous call to '{name}({arguments})'" ++ candidateLines candidates
  | unknownName name span => s!"at {span.text}: unknown name '{name}'"
  | unknownReceiver receiver name span =>
      s!"at {span.text}: unknown receiver '{receiver}' in call to '{name}'"

end Diagnostic

/-- Any error of this library. -/
inductive Failure where
  /-- A construct could not be built. -/
  | malformed (error : Malformed)
  /-- A declaration or a use site is wrong. -/
  | diagnostic (error : Diagnostic)
  deriving DecidableEq, Repr

namespace Failure

/-- A construct could not be built. -/
def isMalformed : Failure → Bool
  | malformed _ => true
  | diagnostic _ => false

/-- Where the error occurred. -/
def span : Failure → Span
  | malformed error => error.span
  | diagnostic error => error.span

/-- The message of the error it holds. -/
def message : Failure → String
  | malformed error => error.message
  | diagnostic error => error.message

end Failure

end ModelLang
