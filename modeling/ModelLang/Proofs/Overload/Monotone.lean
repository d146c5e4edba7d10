import ModelLang.Proofs.Overload.Agreement

/-!
# More specific arguments

Arguments that lie below others are accepted wherever the others are.  So more specific arguments
only add candidates to choose from: the call cannot run out of them, though they may compete, and
what it selects is the least of more candidates, hence at least as specific as before.  Equal
arguments lie below each other and choose among the same candidates.  What accepts arguments that
are equal to the parameters of a candidate lies above that candidate, so they select it, and every
candidate of a set can be called.
-/

namespace ModelLang
namespace OverloadSet

open Candidate

variable {α : Type} [Candidate α] {graph : Graph} {set : OverloadSet α} {specific general : Node}

/-- A call that some candidate accepts has an applicable overload. -/
theorem resolve_ne_noApplicableOverload {arguments : Node}
    (inside : ∀ candidate ∈ set.candidates, parameters candidate ∈ graph) {candidate : α}
    (member : candidate ∈ set.candidates) (accepts : Accepts candidate arguments)
    (site : Span) (name given : String) (candidates : List String) (place : Span) :
    set.resolve arguments site ≠ .error (.noApplicableOverload name given candidates place) := by
  rcases minimal_applicable_cases inside arguments with none | ⟨best, one⟩ | several
  · exact absurd accepts (applicable_eq_nil_iff.mp none candidate member)
  · simp [resolve_of_minimal_eq_singleton one]
  · simp [resolve_of_two_le_length several]

section Below

variable (inside : ∀ candidate ∈ set.candidates, parameters candidate ∈ graph)
  (insideSpecific : specific ∈ graph) (insideGeneral : general ∈ graph) (below : specific ≤ general)

include inside insideSpecific insideGeneral below

/-- What accepts arguments accepts more specific ones. -/
theorem accepts_of_le {candidate : α} (member : candidate ∈ set.candidates)
    (accepts : Accepts candidate general) : Accepts candidate specific :=
  Node.le_trans graph insideSpecific insideGeneral (inside candidate member) below accepts

/-- The candidates for arguments are found among those for more specific ones. -/
theorem applicable_eq_filter :
    set.applicable general =
      (set.applicable specific).filter fun candidate => Accepts candidate general := by
  rw [applicable, applicable, List.filter_filter]
  refine List.filter_congr fun candidate member => ?_
  have wider := accepts_of_le inside insideSpecific insideGeneral below member
  by_cases accepts : Accepts candidate general <;> simp [accepts, wider]

theorem applicable_sublist :
    (set.applicable general).Sublist (set.applicable specific) := by
  rw [applicable_eq_filter inside insideSpecific insideGeneral below]
  exact List.filter_sublist

end Below

/-- The least candidate for more specific arguments is at least as specific. -/
theorem IsLeast.parameters_le {narrow wide : α} (isNarrow : set.IsLeast specific narrow)
    (isWide : set.IsLeast general wide) (accepts : Accepts wide specific) :
    parameters narrow ≤ parameters wide := by
  by_cases same : wide = narrow
  · rw [same]
    exact Node.le_self _
  · exact Node.le_of_lt (isNarrow.2.2 wide isWide.1 same accepts)

/-- Arguments that are accepted by the same candidates are answered alike. -/
theorem agree_of_applicable_eq {arguments arguments' : Node}
    (same : set.applicable arguments = set.applicable arguments') (site site' : Span) :
    Agree Eq set set arguments arguments' site site' := by
  have chosen : set.choose arguments' = set.choose arguments := by rw [choose, choose, same]
  refine SameChoice.agree ?_ rfl site site'
  rw [chosen]
  cases set.choose arguments with
  | unique candidate => exact .unique candidate
  | inapplicable => exact .inapplicable
  | ambiguous competitors => exact .ambiguous rfl

/-- In a set filled by insertion, more specific arguments are accepted by the candidates that accept
the others, in the same order.  Where the others select a candidate, the more specific ones have an
applicable overload, and what they select is at least as specific.  Equal arguments select the same
candidate or fail with the same kind of error, which lists the same candidates. -/
theorem resolve_monotone (graph : Graph) (name : String) (offered : List α)
    (inside : ∀ candidate ∈ offered, parameters candidate ∈ graph) {specific general : Node}
    (insideSpecific : specific ∈ graph) (insideGeneral : general ∈ graph) (site site' : Span) :
    let set := ofOffers name offered
    (specific ≤ general →
      (set.applicable general).Sublist (set.applicable specific) ∧
        ∀ wide, set.resolve general site = .ok wide →
          (∀ name given candidates place, set.resolve specific site' ≠
            .error (.noApplicableOverload name given candidates place)) ∧
          ∀ narrow, set.resolve specific site' = .ok narrow →
            parameters narrow ≤ parameters wide) ∧
    (specific ≈ general → Agree Eq set set specific general site' site) := by
  intro set
  have inside : ∀ candidate ∈ set.candidates, parameters candidate ∈ graph :=
    fun candidate member => inside candidate (mem_of_mem_ofOffers member)
  have distinct : Distinct set.candidates := distinct_ofOffers name offered
  constructor
  · intro below
    refine ⟨applicable_sublist inside insideSpecific insideGeneral below, fun wide selected => ?_⟩
    have isWide := (resolve_eq_ok_iff inside distinct site wide).mp selected
    have accepts : Accepts wide specific :=
      accepts_of_le inside insideSpecific insideGeneral below isWide.1 isWide.2.1
    refine ⟨resolve_ne_noApplicableOverload inside isWide.1 accepts site', ?_⟩
    intro narrow selected'
    have isNarrow := (resolve_eq_ok_iff inside distinct site' narrow).mp selected'
    exact isNarrow.parameters_le isWide accepts
  · intro equal
    have above : general ≤ specific := Node.le_of_equiv (Node.equiv_symm equal)
    refine agree_of_applicable_eq ?_ site' site
    exact (applicable_sublist inside insideGeneral insideSpecific above).antisymm
      (applicable_sublist inside insideSpecific insideGeneral (Node.le_of_equiv equal))

/-! ## Arguments for two numbers -/

namespace NumberPairs

def three : Node := .literal ⟨11, .int 3, {}⟩
def threeReal : Node := .list ⟨12, [three, real], {}⟩
def realsAgain : Node := .list ⟨13, [real, real], {}⟩

def callGraph : Graph :=
  .ofList [int, real, three, intReal.params, realInt.params, realReal.params, reals, threeReal,
      realsAgain]
    (by simp [int, real, three, intReal, realInt, realReal, reals, threeReal, realsAgain,
      Node.children])
    (by decide)

theorem mem_callGraph : ∀ candidate ∈ offered, parameters candidate ∈ callGraph := by
  intro candidate member
  change candidate.params ∈ [int, real, three, intReal.params, realInt.params, realReal.params,
    reals, threeReal, realsAgain]
  simp only [offered, List.mem_cons, List.not_mem_nil, or_false] at member
  rcases member with rfl | rfl | rfl | rfl <;> simp

theorem arguments_mem_callGraph :
    threeReal ∈ callGraph ∧ reals ∈ callGraph ∧ realsAgain ∈ callGraph := by
  refine ⟨?_, ?_, ?_⟩ <;> change _ ∈ [int, real, three, intReal.params, realInt.params,
    realReal.params, reals, threeReal, realsAgain] <;> simp

end NumberPairs

open NumberPairs in
/-- Two reals select the overload that takes them.  A literal integer and a real lie below and
select a narrower overload; another list of two reals selects the same one. -/
theorem resolve_monotone_numberPairs :
    threeReal ≤ reals ∧
      (ofOffers "f" offered).resolve reals {} = .ok realReal ∧
      (ofOffers "f" offered).resolve threeReal {} = .ok intReal ∧
      intReal.params ≤ realReal.params ∧
      Agree Eq (ofOffers "f" offered) (ofOffers "f" offered) realsAgain reals {} {} := by
  obtain ⟨insideThree, insideReals, insideAgain⟩ := arguments_mem_callGraph
  have below : threeReal ≤ reals := by decide
  have selected : (ofOffers "f" offered).resolve reals {} = .ok realReal := rfl
  have narrower : (ofOffers "f" offered).resolve threeReal {} = .ok intReal := rfl
  have equal : realsAgain ≈ reals := by decide
  obtain ⟨monotone, -⟩ :=
    resolve_monotone callGraph "f" offered mem_callGraph insideThree insideReals {} {}
  obtain ⟨-, agree⟩ :=
    resolve_monotone callGraph "f" offered mem_callGraph insideAgain insideReals {} {}
  exact ⟨below, selected, narrower, ((monotone below).2 realReal selected).2 intReal narrower,
    agree equal⟩

/-! ## Arguments that are equal to parameters -/

/-- Whatever accepts arguments that are equal to the parameters of a candidate lies above them, so
the candidate is the least. -/
theorem isLeast_of_equiv {arguments : Node}
    (inside : ∀ candidate ∈ set.candidates, parameters candidate ∈ graph)
    (distinct : Distinct set.candidates) (insideArguments : arguments ∈ graph) {candidate : α}
    (member : candidate ∈ set.candidates) (equal : arguments ≈ parameters candidate) :
    set.IsLeast arguments candidate := by
  refine ⟨member, Node.le_of_equiv equal, fun other listed different accepts => ?_⟩
  have below : parameters candidate ≤ parameters other :=
    Node.le_trans graph (inside candidate member) insideArguments (inside other listed)
      (Node.le_of_equiv (Node.equiv_symm equal)) accepts
  have apart : ¬ parameters candidate ≈ parameters other :=
    not_equiv_of_ne distinct member listed (Ne.symm different)
  exact Node.lt_of_le_of_not_equiv below apart

/-- In a set filled by insertion every candidate can be called: arguments that are equal to its
parameters select it, its own parameters among them, whatever placeholders and unresolved use sites
they hold. -/
theorem resolve_of_equiv_parameters (graph : Graph) (name : String) (offered : List α)
    (inside : ∀ candidate ∈ offered, parameters candidate ∈ graph) {candidate : α}
    (member : candidate ∈ (ofOffers name offered).candidates) (site : Span) :
    (ofOffers name offered).resolve (parameters candidate) site = .ok candidate ∧
      ∀ arguments ∈ graph, arguments ≈ parameters candidate →
        (ofOffers name offered).resolve arguments site = .ok candidate := by
  have inside : ∀ candidate ∈ (ofOffers name offered).candidates, parameters candidate ∈ graph :=
    fun candidate member => inside candidate (mem_of_mem_ofOffers member)
  have distinct : Distinct (ofOffers name offered).candidates := distinct_ofOffers name offered
  have selected : ∀ arguments ∈ graph, arguments ≈ parameters candidate →
      (ofOffers name offered).resolve arguments site = .ok candidate := by
    intro arguments insideArguments equal
    exact (resolve_eq_ok_iff inside distinct site candidate).mpr
      (isLeast_of_equiv inside distinct insideArguments member equal)
  exact ⟨selected _ (inside candidate member) (Node.equiv_self _), selected⟩

/-! ## Methods that share a placeholder and an unresolved use site -/

namespace SharedParameters

open Node.SharedLists (placeholder pending three int real low middle high)

def method (id : NodeId) (params : Node) : Signature .method :=
  ⟨id, "m", params, .block ⟨8, [], {}⟩, {}⟩

def lowMethod : Signature .method := method 9 low
def middleMethod : Signature .method := method 10 middle
def highMethod : Signature .method := method 11 high
def offered : List (Signature .method) := [highMethod, lowMethod, middleMethod, lowMethod]

/-- Another list of the items of the lowest one. -/
def lowAgain : Node := .list ⟨12, [placeholder, pending, three], {}⟩

def methodGraph : Graph :=
  .ofList [placeholder, pending, three, int, real, low, middle, high, lowAgain]
    (by simp [placeholder, pending, three, int, real, low, middle, high, lowAgain, Node.children])
    (by decide)

theorem mem_methodGraph :
    (∀ candidate ∈ offered, parameters candidate ∈ methodGraph) ∧ lowAgain ∈ methodGraph := by
  constructor
  · intro candidate member
    change candidate.params ∈ [placeholder, pending, three, int, real, low, middle, high, lowAgain]
    simp only [offered, List.mem_cons, List.not_mem_nil, or_false] at member
    rcases member with rfl | rfl | rfl | rfl <;> simp [lowMethod, middleMethod, highMethod, method]
  · change _ ∈ [placeholder, pending, three, int, real, low, middle, high, lowAgain]
    simp

end SharedParameters

open SharedParameters in
/-- Three methods accept the parameters of the lowest one, in which a type is not known and a use
site is not resolved; they select it, and so does another list of the same items.  The highest
method is selected by its own parameters. -/
theorem resolve_of_equiv_parameters_shared :
    (∀ candidate ∈ offered, parameters candidate ∈ methodGraph) ∧ lowAgain ∈ methodGraph ∧
      lowAgain ≈ parameters lowMethod ∧
      (ofOffers "m" offered).applicable lowAgain = [highMethod, lowMethod, middleMethod] ∧
      (ofOffers "m" offered).resolve (parameters lowMethod) {} = .ok lowMethod ∧
      (ofOffers "m" offered).resolve lowAgain {} = .ok lowMethod ∧
      (ofOffers "m" offered).resolve (parameters highMethod) {} = .ok highMethod := by
  obtain ⟨inside, insideAgain⟩ := mem_methodGraph
  have equal : lowAgain ≈ parameters lowMethod := by decide
  have held : (ofOffers "m" offered).candidates = [highMethod, lowMethod, middleMethod] := rfl
  obtain ⟨own, others⟩ :=
    resolve_of_equiv_parameters methodGraph "m" offered inside (by simp [held] : lowMethod ∈ _) {}
  obtain ⟨highest, -⟩ :=
    resolve_of_equiv_parameters methodGraph "m" offered inside (by simp [held] : highMethod ∈ _) {}
  exact ⟨inside, insideAgain, equal, rfl, own, others lowAgain insideAgain equal, highest⟩

end OverloadSet
end ModelLang
