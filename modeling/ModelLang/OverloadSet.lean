import ModelLang.Diagnostic
import ModelLang.Node.Order
import ModelLang.Node.Text

/-!
# Overload sets

An overload set holds the candidates of one name.  Candidates are told apart by their parameters:
one whose parameters are equal to those of another is refused.  A candidate accepts the arguments
that lie below its parameters, and a call selects the only accepting candidate that no other one
lies strictly below.
-/

namespace ModelLang

/-- A declaration that can be a candidate of an overload set. -/
class Candidate (α : Type) where
  /-- The candidate as a node. -/
  node : α → Node
  /-- The node that arguments are matched against. -/
  parameters : α → Node

namespace Candidate

variable {α : Type} [Candidate α]

/-- The written form of a candidate. -/
def text (candidate : α) : String :=
  (node candidate).text

/-- Where a candidate was declared. -/
def span (candidate : α) : Span :=
  (node candidate).span

/-- The candidate accepts the arguments. -/
def Accepts (candidate : α) (arguments : Node) : Prop :=
  arguments ≤ parameters candidate

instance (candidate : α) (arguments : Node) : Decidable (Accepts candidate arguments) :=
  inferInstanceAs (Decidable (arguments ≤ parameters candidate))

/-- A dim is selected by its extent. -/
instance : Candidate Dim where
  node dim := .dim dim
  parameters dim := dim.extent

/-- A function or a method is selected by its parameters. -/
instance {c : Callable} : Candidate (Signature c) where
  node signature := signature.node
  parameters signature := signature.params

end Candidate

/-- Candidates that share one name, in the order they were declared. -/
structure OverloadSet (α : Type) where
  name : String
  candidates : List α := []

/-- What a call selects from an overload set. -/
inductive Choice (α : Type) where
  /-- The most specific of the accepting candidates. -/
  | unique (candidate : α)
  /-- No candidate accepts the arguments. -/
  | inapplicable
  /-- Several candidates compete. -/
  | ambiguous (competitors : List α)
  deriving DecidableEq, Repr

namespace OverloadSet

open Candidate

variable {α : Type} [Candidate α]

/-- The first candidate with equal parameters. -/
def rival? (set : OverloadSet α) (candidate : α) : Option α :=
  set.candidates.find? fun existing => parameters existing ≈ parameters candidate

/-- Add a candidate after the others, unless one of them has equal parameters. -/
def insert (set : OverloadSet α) (candidate : α) : Except Diagnostic (OverloadSet α) :=
  match set.rival? candidate with
  | none => .ok { set with candidates := set.candidates ++ [candidate] }
  | some rival =>
      .error (.duplicateSignature set.name (text candidate) (text rival) (span candidate)
        (span rival))

/-- The candidates that accept the arguments. -/
def applicable (set : OverloadSet α) (arguments : Node) : List α :=
  set.candidates.filter fun candidate => Accepts candidate arguments

/-- The candidates that no other one lies strictly below. -/
def minimal (candidates : List α) : List α :=
  candidates.filter fun candidate =>
    candidates.all fun other => ¬ parameters other < parameters candidate

/-- Select from the candidates that accept the arguments. -/
def choose (set : OverloadSet α) (arguments : Node) : Choice α :=
  let applicable := set.applicable arguments
  match applicable with
  | [] => .inapplicable
  | _ :: _ =>
      match minimal applicable with
      | [best] => .unique best
      | [] => .ambiguous applicable
      | competitors => .ambiguous competitors

/-- The candidate that a call selects; `label` is the name that an error shows. -/
def resolveAs (set : OverloadSet α) (label : String) (arguments : Node) (site : Span) :
    Except Diagnostic α :=
  match set.choose arguments with
  | .unique candidate => .ok candidate
  | .inapplicable =>
      .error (.noApplicableOverload label arguments.text (set.candidates.map text) site)
  | .ambiguous competitors =>
      .error (.ambiguousOverload label arguments.text (competitors.map text) site)

/-- The candidate that a call selects. -/
def resolve (set : OverloadSet α) (arguments : Node) (site : Span) : Except Diagnostic α :=
  set.resolveAs set.name arguments site

/-- A call succeeds when there is one best candidate, whatever an error would show. -/
theorem resolveAs_eq_ok_iff {set : OverloadSet α} {label : String} {arguments : Node} {site : Span}
    {candidate : α} :
    set.resolveAs label arguments site = .ok candidate ↔
      set.choose arguments = .unique candidate := by
  unfold resolveAs
  cases set.choose arguments <;> simp

@[simp]
theorem mem_applicable (set : OverloadSet α) (arguments : Node) (candidate : α) :
    candidate ∈ set.applicable arguments ↔
      candidate ∈ set.candidates ∧ Accepts candidate arguments := by
  simp [applicable]

theorem mem_minimal (candidates : List α) (candidate : α) :
    candidate ∈ minimal candidates ↔
      candidate ∈ candidates ∧
        ∀ other ∈ candidates, ¬ parameters other < parameters candidate := by
  simp [minimal]

/-- The best candidate of a call is one of the candidates, and it accepts the arguments. -/
theorem mem_of_choose_eq_unique {set : OverloadSet α} {arguments : Node} {candidate : α}
    (h : set.choose arguments = .unique candidate) :
    candidate ∈ set.candidates ∧ Accepts candidate arguments := by
  dsimp only [choose] at h
  split at h
  case h_1 => cases h
  case h_2 =>
    split at h
    case h_1 best minimal_eq =>
      cases h
      have best_mem : candidate ∈ minimal (set.applicable arguments) := by simp [minimal_eq]
      exact (set.mem_applicable arguments candidate).mp ((mem_minimal _ _).mp best_mem).1
    case h_2 => cases h
    case h_3 => cases h

end OverloadSet

/-- The overloads of one method of a receiver. -/
structure MethodSet where
  receiver : String
  overloads : OverloadSet (Signature .method)

namespace MethodSet

/-- A method of a receiver without overloads. -/
def empty (receiver name : String) : MethodSet :=
  ⟨receiver, { name }⟩

/-- The qualified name. -/
def label (set : MethodSet) : String :=
  set.receiver ++ "." ++ set.overloads.name

/-- Add an overload. -/
def insert (set : MethodSet) (signature : Signature .method) : Except Diagnostic MethodSet :=
  match set.overloads.insert signature with
  | .ok overloads => .ok { set with overloads }
  | .error error => .error error

/-- The overload that a call selects; errors show the qualified name. -/
def resolve (set : MethodSet) (arguments : Node) (site : Span) :
    Except Diagnostic (Signature .method) :=
  set.overloads.resolveAs set.label arguments site

end MethodSet

end ModelLang
