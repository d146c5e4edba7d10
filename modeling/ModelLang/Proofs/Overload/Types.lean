import ModelLang.Proofs.Order.Assignability
import ModelLang.Proofs.Overload.Monotone

/-!
# Calls decided by types

In an ordinary call the arguments are literals, written types, parameters and resolved use sites,
and the parameters of the candidates are written types and declared parameters.  There the order of
nodes comes down to assignability: arguments of known type lie below parameters exactly when their
type is assignable to the type of the parameters, and parameters of known types compare as their
types do.  A candidate with a placeholder among its types accepts no such arguments.  So what a call
selects is decided by types alone.
-/

namespace ModelLang

namespace Node

/-- What stands in an ordinary list of arguments: a literal, a written type, a parameter, or a use
site with its declaration. -/
def isArgument : Node → Bool
  | literal _ | typeRef _ | param _ => true
  | reference site => site.isResolved
  | _ => false

/-- What stands in an ordinary list of parameters: a written type or a declared parameter. -/
def isParameter : Node → Bool
  | typeRef _ | param _ => true
  | _ => false

/-- The node is a list whose items all pass a test. -/
def IsListOf (test : Node → Bool) (node : Node) : Prop :=
  ∃ sequence : Sequence, node = .list sequence ∧ ∀ item ∈ sequence.items, test item = true

theorem exists_outline_of_isArgument {node : Node} (h : node.isArgument = true) :
    ∃ leaf, node.outline = .leaf leaf := by
  cases node with
  | literal | typeRef | param => exact ⟨_, rfl⟩
  | reference site => exact ⟨_, if_pos h⟩
  | list | block | dim | function | method => cases h

theorem outline_of_isParameter {node : Node} (h : node.isParameter = true) :
    node.outline = .leaf (.ofType node.ty) := by
  cases node with
  | typeRef | param => rfl
  | literal | reference | list | block | dim | function | method => cases h

section Graph

variable (graph : Graph) {a b : Node} (ha : a ∈ graph) (hb : b ∈ graph)
include ha hb

/-- An argument of known type lies below a parameter if its type is assignable to the declared
one. -/
theorem argument_le_iff (argument : a.isArgument = true) (parameter : b.isParameter = true)
    (known : a.ty.hasUnknown = false) : a ≤ b ↔ a.ty ≤ b.ty := by
  by_cases same : a.id = b.id
  · obtain rfl : a = b := graph.eq_of_id ha hb same
    exact iff_of_true (le_self a) (Ty.le_self known)
  · obtain ⟨leaf, outlined⟩ := exists_outline_of_isArgument argument
    change (a.compare b).isLE = true ↔ _
    rw [compare_of_ne same, outlined, outline_of_isParameter parameter, ty_of_outline outlined]
    exact Leaf.isLE_ofType

/-- Parameters are compared by their declared types, if one of them is known. -/
theorem parameter_compare (first : a.isParameter = true) (second : b.isParameter = true)
    (known : a.ty.hasUnknown = false) : a.compare b = a.ty.compare b.ty := by
  by_cases same : a.id = b.id
  · obtain rfl : a = b := graph.eq_of_id ha hb same
    rw [compare_self, Ty.compare_self known]
  · rw [compare_of_ne same, outline_of_isParameter first, outline_of_isParameter second]
    rfl

/-- Arguments of known types lie below parameters if their type is assignable to the type of the
parameters. -/
theorem arguments_le_iff (arguments : a.IsListOf isArgument) (parameters : b.IsListOf isParameter)
    (known : a.ty.hasUnknown = false) : a ≤ b ↔ a.ty ≤ b.ty := by
  obtain ⟨xs, rfl, argument⟩ := arguments
  obtain ⟨ys, rfl, parameter⟩ := parameters
  rw [hasUnknown_ty_list] at known
  have item_le_iff : ∀ x ∈ xs.items, ∀ y ∈ ys.items, x ≤ y ↔ x.ty ≤ y.ty := fun x hx y hy =>
    argument_le_iff graph (graph.mem_child ha hx) (graph.mem_child hb hy) (argument x hx)
      (parameter y hy) (known x hx)
  rw [le_iff_children graph ha hb rfl rfl, ty_list_le_iff]
  constructor
  · exact fun below => forall₂_imp_of_mem below fun x hx y hy => (item_le_iff x hx y hy).mp
  · exact fun below => forall₂_imp_of_mem below fun x hx y hy => (item_le_iff x hx y hy).mpr

/-- Lists of parameters are compared by their types, if one of them is known. -/
theorem parameters_compare (first : a.IsListOf isParameter) (second : b.IsListOf isParameter)
    (known : a.ty.hasUnknown = false) : a.compare b = a.ty.compare b.ty := by
  obtain ⟨xs, rfl, first⟩ := first
  obtain ⟨ys, rfl, second⟩ := second
  rw [hasUnknown_ty_list] at known
  rw [compare_eq_pairwise graph ha hb rfl rfl, ty_list, ty_list, Ty.compare_tuple,
    Comparison.pairwise_map]
  exact Comparison.pairwise_congr _ _ fun x hx y hy =>
    parameter_compare graph (graph.mem_child ha hx) (graph.mem_child hb hy) (first x hx)
      (second y hy) (known x hx)

end Graph

end Node

namespace OverloadSet

open Candidate Node

variable {α : Type} [Candidate α]

section Ordinary

variable {graph : Graph} {set : OverloadSet α} {arguments : Node}
  (inside : ∀ candidate ∈ set.candidates, parameters candidate ∈ graph)
  (ordinary : ∀ candidate ∈ set.candidates, (parameters candidate).IsListOf isParameter)
  (insideArguments : arguments ∈ graph) (typed : arguments.IsListOf isArgument)
  (known : arguments.ty.hasUnknown = false)

include inside ordinary insideArguments typed known

/-- A candidate accepts arguments to whose parameters' type their type is assignable. -/
theorem accepts_iff_ty_le {candidate : α} (member : candidate ∈ set.candidates) :
    Accepts candidate arguments ↔ arguments.ty ≤ (parameters candidate).ty :=
  arguments_le_iff graph insideArguments (inside candidate member) typed (ordinary candidate member)
    known

theorem applicable_eq_filter_ty :
    set.applicable arguments =
      set.candidates.filter fun candidate => arguments.ty ≤ (parameters candidate).ty :=
  List.filter_congr fun candidate member => by
    rw [decide_eq_decide]
    exact accepts_iff_ty_le inside ordinary insideArguments typed known member

/-- The parameters of candidates that accept the arguments are ordered as their types are. -/
theorem parameters_lt_iff {candidate other : α} (applicable : candidate ∈ set.applicable arguments)
    (member : other ∈ set.candidates) :
    parameters candidate < parameters other ↔
      (parameters candidate).ty < (parameters other).ty := by
  obtain ⟨listed, accepts⟩ := (mem_applicable _ _ _).mp applicable
  have below := (accepts_iff_ty_le inside ordinary insideArguments typed known listed).mp accepts
  have compared := parameters_compare graph (inside candidate listed) (inside other member)
    (ordinary candidate listed) (ordinary other member) (Ty.known_of_le below)
  change ((parameters candidate).compare (parameters other)).isLT = true ↔ _
  rw [compared]
  rfl

end Ordinary

/-- In a set filled by insertion whose candidates take lists of written types and parameters, a call
with a list of literals, written types, parameters and resolved use sites of known types is decided
by types.  Applicable are the candidates to whose parameters' type the type of the arguments is
assignable; selected is the applicable one whose parameters' type is strictly below those of the
others; and arguments of equal types select the same candidate or fail with the same kind of error,
which lists the same candidates. -/
theorem resolve_decidedByTypes (graph : Graph) (name : String) (offered : List α)
    (inside : ∀ candidate ∈ offered, parameters candidate ∈ graph)
    (ordinary : ∀ candidate ∈ (ofOffers name offered).candidates,
      (parameters candidate).IsListOf isParameter)
    {arguments : Node} (insideArguments : arguments ∈ graph) (typed : arguments.IsListOf isArgument)
    (known : arguments.ty.hasUnknown = false) (site : Span) :
    let set := ofOffers name offered
    (set.applicable arguments =
      set.candidates.filter fun candidate => arguments.ty ≤ (parameters candidate).ty) ∧
    (∀ candidate, set.resolve arguments site = .ok candidate ↔
      candidate ∈ set.applicable arguments ∧
        ∀ other ∈ set.applicable arguments, other ≠ candidate →
          (parameters candidate).ty < (parameters other).ty) ∧
    ∀ arguments' ∈ graph, arguments'.IsListOf isArgument →
      arguments.ty.compare arguments'.ty = .equal →
        ∀ site', Agree Eq set set arguments arguments' site site' := by
  intro set
  have inside : ∀ candidate ∈ set.candidates, parameters candidate ∈ graph :=
    fun candidate member => inside candidate (mem_of_mem_ofOffers member)
  have distinct : Distinct set.candidates := distinct_ofOffers name offered
  refine ⟨applicable_eq_filter_ty inside ordinary insideArguments typed known, ?_, ?_⟩
  · intro candidate
    rw [resolve_eq_ok_iff inside distinct site candidate, IsLeast, ← and_assoc, ← mem_applicable]
    refine and_congr_right fun applicable => ?_
    constructor
    · intro least other applicable' different
      obtain ⟨member, accepts⟩ := (mem_applicable _ _ _).mp applicable'
      exact (parameters_lt_iff inside ordinary insideArguments typed known applicable member).mp
        (least other member different accepts)
    · intro least other member different accepts
      exact (parameters_lt_iff inside ordinary insideArguments typed known applicable member).mpr
        (least other ((mem_applicable _ _ _).mpr ⟨member, accepts⟩) different)
  · intro arguments' insideArguments' typed' equal site'
    have upwards : arguments.ty ≤ arguments'.ty := Comparison.isLE_iff.mpr (.inr equal)
    have back : arguments'.ty ≤ arguments.ty := by
      change (arguments'.ty.compare arguments.ty).isLE = true
      rw [Ty.compare_swap, equal]
      rfl
    refine agree_of_applicable_eq ?_ site site'
    rw [applicable_eq_filter_ty inside ordinary insideArguments typed known,
      applicable_eq_filter_ty inside ordinary insideArguments' typed' (Ty.known_of_le upwards)]
    refine List.filter_congr fun candidate _ => decide_eq_decide.mpr ?_
    exact ⟨Ty.le_trans back, Ty.le_trans upwards⟩

/-! ## Calls with a literal and with a resolved use site -/

namespace TypedCalls

open NumberPairs (int real three body)

def placeholder : Node := .typeRef ⟨20, .unknown, {}⟩
def formal : Param := ⟨21, "n", ⟨22, .int, {}⟩, {}⟩
def use : Node := .reference ⟨23, none, "n", none, none, .int, some (.param formal), {}⟩
def couple (id : NodeId) (first second : Node) : Node := .list ⟨id, [first, second], {}⟩
def overload (id : NodeId) (params : Node) : Signature .function := ⟨id, "f", params, body, {}⟩

def narrow : Signature .function := overload 24 (couple 25 (.param formal) real)
def wide : Signature .function := overload 26 (couple 27 real real)
def unclear : Signature .function := overload 28 (couple 29 placeholder real)
def offered : List (Signature .function) := [wide, unclear, narrow]

def literalCall : Node := couple 30 three real
def useCall : Node := couple 31 use real

def graph : Graph :=
  .ofList [int, real, three, placeholder, .typeRef formal.typeRef, .param formal, use,
      narrow.params, wide.params, unclear.params, literalCall, useCall]
    (by simp [int, real, three, placeholder, formal, use, narrow, wide, unclear, overload,
      literalCall, useCall, couple, children])
    (by decide)

theorem mem_graph :
    (∀ candidate ∈ offered, parameters candidate ∈ graph) ∧ literalCall ∈ graph ∧
      useCall ∈ graph := by
  refine ⟨?_, ?_, ?_⟩
  · intro candidate member
    change candidate.params ∈ [int, real, three, placeholder, .typeRef formal.typeRef,
      .param formal, use, narrow.params, wide.params, unclear.params, literalCall, useCall]
    simp only [offered, List.mem_cons, List.not_mem_nil, or_false] at member
    rcases member with rfl | rfl | rfl <;> simp
  all_goals
    change _ ∈ [int, real, three, placeholder, .typeRef formal.typeRef, .param formal, use,
      narrow.params, wide.params, unclear.params, literalCall, useCall]
    simp

theorem ordinary : ∀ candidate ∈ (ofOffers "f" offered).candidates,
    (parameters candidate).IsListOf isParameter := by
  intro candidate member
  have member := mem_of_mem_ofOffers member
  simp only [offered, List.mem_cons, List.not_mem_nil, or_false] at member
  rcases member with rfl | rfl | rfl <;> exact ⟨_, rfl, by simp [isParameter, real, placeholder]⟩

theorem isListOf_isArgument :
    literalCall.IsListOf isArgument ∧ useCall.IsListOf isArgument := by
  constructor <;>
    exact ⟨_, rfl, by simp [isArgument, three, real, use, ReferenceOf.isResolved]⟩

end TypedCalls

open TypedCalls in
/-- An integer literal and a resolved use site of an integer call the same overload.  The overload
whose first type is not known does not accept them. -/
theorem resolve_decidedByTypes_typedCalls :
    (∀ candidate ∈ offered, parameters candidate ∈ graph) ∧
      (∀ candidate ∈ (ofOffers "f" offered).candidates,
        (parameters candidate).IsListOf isParameter) ∧
      (literalCall.IsListOf isArgument ∧ useCall.IsListOf isArgument) ∧
      literalCall.ty.hasUnknown = false ∧ literalCall.ty.compare useCall.ty = .equal ∧
      (ofOffers "f" offered).applicable literalCall = [wide, narrow] ∧
      (ofOffers "f" offered).resolve literalCall {} = .ok narrow ∧
      Agree Eq (ofOffers "f" offered) (ofOffers "f" offered) literalCall useCall {} {} := by
  obtain ⟨inside, insideLiteral, insideUse⟩ := mem_graph
  obtain ⟨literalTyped, useTyped⟩ := isListOf_isArgument
  have known : literalCall.ty.hasUnknown = false := rfl
  have equal : literalCall.ty.compare useCall.ty = .equal := rfl
  obtain ⟨applicable, selected, agree⟩ := resolve_decidedByTypes graph "f" offered inside ordinary
    insideLiteral literalTyped known {}
  have accepting : (ofOffers "f" offered).applicable literalCall = [wide, narrow] := by
    rw [applicable]
    rfl
  refine ⟨inside, ordinary, isListOf_isArgument, known, equal, accepting, ?_,
    agree useCall insideUse useTyped equal {}⟩
  refine (selected narrow).mpr ⟨by simp [accepting], fun other member different => ?_⟩
  rw [accepting] at member
  have other_eq : other = wide := by simpa [different] using member
  rw [other_eq]
  decide

end OverloadSet
end ModelLang
