import ModelLang.Proofs.Overload.Selection
import ModelLang.Proofs.Scope

/-!
# Candidates that do not decide a call

A call compares its candidates with each other and with its arguments, and looks at their order in
no other way than to list competitors in it.  So sets that hold the same candidates in different
orders give the same answers.  Among the candidates only the minimal accepting ones decide: one that
refuses the arguments is not compared at all, and one that lies strictly above an accepting
candidate is not minimal and undercuts only what that candidate undercuts as well.
-/

namespace ModelLang
namespace OverloadSet

open Candidate

variable {α : Type}

/-! ## Answers -/

/-- Two choices are the same candidate, or nothing, or are between lists of candidates that are
related. -/
inductive SameChoice (related : List α → List α → Prop) : Choice α → Choice α → Prop
  | unique (candidate : α) : SameChoice related (.unique candidate) (.unique candidate)
  | inapplicable : SameChoice related .inapplicable .inapplicable
  | ambiguous {competitors competitors' : List α} : related competitors competitors' →
      SameChoice related (.ambiguous competitors) (.ambiguous competitors')

variable [Candidate α]

/-- Two calls select the same candidate, or both fail with the same kind of error, and the lists of
candidates that the errors show are related. -/
inductive Agree (related : List α → List α → Prop) (set set' : OverloadSet α)
    (arguments arguments' : Node) (site site' : Span) : Prop
  | selected (candidate : α) (first : set.resolve arguments site = .ok candidate)
      (second : set'.resolve arguments' site' = .ok candidate)
  | inapplicable (listed : related set.candidates set'.candidates)
      (first : set.resolve arguments site =
        .error (.noApplicableOverload set.name arguments.text (set.candidates.map text) site))
      (second : set'.resolve arguments' site' =
        .error (.noApplicableOverload set'.name arguments'.text (set'.candidates.map text) site'))
  | ambiguous (competitors competitors' : List α) (listed : related competitors competitors')
      (first : set.resolve arguments site =
        .error (.ambiguousOverload set.name arguments.text (competitors.map text) site))
      (second : set'.resolve arguments' site' =
        .error (.ambiguousOverload set'.name arguments'.text (competitors'.map text) site'))

variable {related : List α → List α → Prop} {set set' : OverloadSet α} {arguments arguments' : Node}

/-- Calls that choose alike agree. -/
theorem SameChoice.agree
    (chosen : SameChoice related (set.choose arguments) (set'.choose arguments'))
    (listed : related set.candidates set'.candidates) (site site' : Span) :
    Agree related set set' arguments arguments' site site' := by
  generalize first : set.choose arguments = choice at chosen
  generalize second : set'.choose arguments' = choice' at chosen
  cases chosen with
  | unique candidate =>
      exact .selected candidate (by rw [resolve, resolveAs, first])
        (by rw [resolve, resolveAs, second])
  | inapplicable =>
      exact .inapplicable listed (by rw [resolve, resolveAs, first])
        (by rw [resolve, resolveAs, second])
  | ambiguous competing =>
      exact .ambiguous _ _ competing (by rw [resolve, resolveAs, first])
        (by rw [resolve, resolveAs, second])

/-- When something accepts the arguments, the minimal accepting candidates decide. -/
theorem choose_of_applicable_ne_nil (accepted : set.applicable arguments ≠ []) :
    set.choose arguments =
      match minimal (set.applicable arguments) with
      | [best] => .unique best
      | [] => .ambiguous (set.applicable arguments)
      | competitors => .ambiguous competitors := by
  rw [choose]
  cases found : set.applicable arguments with
  | nil => exact absurd found accepted
  | cons first rest => rfl

/-! ## The order of the candidates -/

/-- Insert candidates from first to last, up to the first one that is refused. -/
def insertAll (set : OverloadSet α) (candidates : List α) : Except Diagnostic (OverloadSet α) :=
  candidates.foldlM insert set

/-- Candidates with different parameters are all inserted. -/
theorem insertAll_eq_ok {offered : List α} (distinct : Distinct (set.candidates ++ offered)) :
    set.insertAll offered = .ok ⟨set.name, set.candidates ++ offered⟩ := by
  induction offered generalizing set with
  | nil =>
      rw [List.append_nil]
      rfl
  | cons candidate offered induction =>
      have new : set.rival? candidate = none := by
        refine List.find?_eq_none.mpr fun existing member => ?_
        have apart := (List.pairwise_append.mp distinct).2.2 existing member candidate (by simp)
        simpa using apart
      have inserted : set.insert candidate = .ok ⟨set.name, set.candidates ++ [candidate]⟩ := by
        rw [insert, new]
      rw [List.append_cons] at distinct ⊢
      let grown : OverloadSet α := ⟨set.name, set.candidates ++ [candidate]⟩
      have rest : grown.insertAll offered = .ok ⟨grown.name, grown.candidates ++ offered⟩ :=
        induction distinct
      rw [insertAll, List.foldlM_cons, inserted]
      exact rest

theorem Distinct.perm {offered offered' : List α} (distinct : Distinct offered)
    (same : offered.Perm offered') : Distinct offered' :=
  (same.pairwise_iff fun apart equal => apart (Node.equiv_symm equal)).mp distinct

theorem minimal_perm {candidates candidates' : List α} (same : candidates.Perm candidates') :
    (minimal candidates).Perm (minimal candidates') := by
  have undercut (candidate : α) :
      (candidates.all fun other => ¬ parameters other < parameters candidate) =
        candidates'.all fun other => ¬ parameters other < parameters candidate := by
    rw [Bool.eq_iff_iff, List.all_eq_true, List.all_eq_true]
    exact forall_congr' fun other => imp_congr_left same.mem_iff
  simp only [minimal, undercut]
  exact same.filter _

/-- A choice does not depend on the order of the candidates. -/
theorem sameChoice_of_perm (same : set.candidates.Perm set'.candidates) :
    SameChoice List.Perm (set.choose arguments) (set'.choose arguments) := by
  have accepting : (set.applicable arguments).Perm (set'.applicable arguments) := same.filter _
  have least := minimal_perm accepting
  by_cases none : set.applicable arguments = []
  · have none' : set'.applicable arguments = [] := List.nil_perm.mp (none ▸ accepting)
    rw [choose, choose, none, none']
    exact .inapplicable
  · have some' : set'.applicable arguments ≠ [] := fun none' =>
      none (List.perm_nil.mp (none' ▸ accepting))
    rw [choose_of_applicable_ne_nil none, choose_of_applicable_ne_nil some']
    generalize minimal (set.applicable arguments) = competitors at least
    generalize minimal (set'.applicable arguments) = competitors' at least
    cases competitors with
    | nil =>
        obtain rfl := List.nil_perm.mp least
        exact .ambiguous accepting
    | cons first rest =>
        cases rest with
        | nil =>
            obtain rfl := List.singleton_perm.mp least
            exact .unique first
        | cons second rest =>
            -- As many compete in the other order, so the other choice is ambiguous as well.
            rcases competitors' with _ | ⟨first', _ | ⟨second', rest'⟩⟩
            · simp at least
            · simp at least
            · exact .ambiguous least

/-! ## Candidates that do not decide -/

/-- A further candidate refuses the arguments, or lies strictly above one that accepts them. -/
def Irrelevant (set : OverloadSet α) (arguments : Node) (added : α) : Prop :=
  ¬ Accepts added arguments ∨
    ∃ candidate ∈ set.candidates,
      Accepts candidate arguments ∧ parameters candidate < parameters added

section Added

variable {graph : Graph} {candidates : List α} {added : α}
  (inside : ∀ candidate ∈ candidates, parameters candidate ∈ graph)
  (insideAdded : parameters added ∈ graph)

include inside insideAdded

/-- A candidate that lies strictly above another one is not minimal, and what it undercuts is
undercut without it. -/
theorem minimal_append_of_lt {below : α} (member : below ∈ candidates)
    (above : parameters below < parameters added) :
    minimal (candidates ++ [added]) = minimal candidates := by
  have refused : ¬ (candidates ++ [added]).all
      fun other => ¬ parameters other < parameters added := by
    simp only [List.all_eq_true, decide_eq_true_eq]
    exact fun minimal => minimal below (List.mem_append_left _ member) above
  have kept : ∀ candidate ∈ candidates,
      ((candidates ++ [added]).all fun other => ¬ parameters other < parameters candidate) =
        candidates.all fun other => ¬ parameters other < parameters candidate := by
    intro candidate listed
    rw [List.all_append, Bool.and_eq_left_iff_imp, List.all_eq_true]
    intro minimal
    -- The candidate below undercuts whatever the added one undercuts.
    have spared : ¬ parameters added < parameters candidate := by
      intro undercut
      have lower : parameters below < parameters candidate :=
        Node.lt_of_lt_of_le graph (inside below member) insideAdded (inside candidate listed) above
          (Node.le_of_lt undercut)
      exact of_decide_eq_true (minimal below member) lower
    simpa using spared
  calc
    minimal (candidates ++ [added]) = minimal candidates ++ [] := by
      rw [minimal, List.filter_append]
      exact congrArg₂ (· ++ ·) (List.filter_congr kept) (List.filter_cons_of_neg refused)
    _ = minimal candidates := List.append_nil _

end Added

/-- Calls whose minimal accepting candidates are the same get the same answer. -/
theorem resolve_eq_of_minimal_eq (named : set.name = set'.name)
    (least : minimal (set.applicable arguments) = minimal (set'.applicable arguments))
    (some : minimal (set.applicable arguments) ≠ []) (site : Span) :
    set.resolve arguments site = set'.resolve arguments site := by
  match found : minimal (set.applicable arguments) with
  | [] => exact absurd found some
  | [best] =>
      rw [resolve_of_minimal_eq_singleton found, resolve_of_minimal_eq_singleton (least ▸ found)]
  | first :: second :: rest =>
      have several : 2 ≤ (minimal (set.applicable arguments)).length := by simp [found]
      rw [resolve_of_two_le_length several, resolve_of_two_le_length (least ▸ several), least,
        named]

/-- An irrelevant candidate leaves the minimal accepting candidates as they are. -/
theorem minimal_applicable_of_insert {graph : Graph} {grown : OverloadSet α} {added : α}
    (inside : ∀ candidate ∈ set.candidates, parameters candidate ∈ graph)
    (insideAdded : parameters added ∈ graph) (inserted : set.insert added = .ok grown)
    (irrelevant : set.Irrelevant arguments added) :
    minimal (grown.applicable arguments) = minimal (set.applicable arguments) := by
  obtain ⟨-, candidates_eq⟩ := insert_eq_ok inserted
  have applicable_eq : grown.applicable arguments =
      set.applicable arguments ++ if Accepts added arguments then [added] else [] := by
    rw [applicable, applicable, candidates_eq, List.filter_append]
    congr 1
    by_cases accepts : Accepts added arguments <;> simp [accepts]
  rw [applicable_eq]
  split
  case isFalse => rw [List.append_nil]
  case isTrue accepts =>
    obtain ⟨candidate, member, accepted, above⟩ := irrelevant.resolve_left (not_not_intro accepts)
    exact minimal_append_of_lt (inside_applicable inside) insideAdded
      ((mem_applicable _ _ _).mpr ⟨member, accepted⟩) above

/-- Candidates with different parameters are all inserted in any order, and two orders of them give
the same answers.  A further candidate that refuses the arguments of a call, or whose parameters lie
strictly above those of an accepting candidate, leaves the answer to the call as it was. -/
theorem resolve_decided (graph : Graph) (name : String) :
    (∀ offered offered' : List α, Distinct offered → offered.Perm offered' →
      insertAll { name } offered = .ok ⟨name, offered⟩ ∧
        insertAll { name } offered' = .ok ⟨name, offered'⟩ ∧
        ∀ arguments site,
          Agree List.Perm ⟨name, offered⟩ ⟨name, offered'⟩ arguments arguments site site) ∧
    ∀ offered : List α, (∀ candidate ∈ offered, parameters candidate ∈ graph) →
      ∀ added : α, parameters added ∈ graph →
        ∀ grown, (ofOffers name offered).insert added = .ok grown →
          ∀ arguments,
            (∃ candidate ∈ (ofOffers name offered).candidates, Accepts candidate arguments) →
            (ofOffers name offered).Irrelevant arguments added →
              ∀ site, grown.resolve arguments site =
                (ofOffers name offered).resolve arguments site := by
  constructor
  · intro offered offered' distinct same
    refine ⟨insertAll_eq_ok distinct, insertAll_eq_ok (distinct.perm same), ?_⟩
    intro arguments site
    exact (sameChoice_of_perm same).agree same site site
  · intro offered inside added insideAdded grown inserted arguments accepted irrelevant site
    have inside : ∀ candidate ∈ (ofOffers name offered).candidates, parameters candidate ∈ graph :=
      fun candidate member => inside candidate (mem_of_mem_ofOffers member)
    have least := minimal_applicable_of_insert inside insideAdded inserted irrelevant
    obtain ⟨named, -⟩ := insert_eq_ok inserted
    refine resolve_eq_of_minimal_eq named least ?_ site
    rw [least]
    refine minimal_ne_nil (inside_applicable inside) fun none => ?_
    obtain ⟨candidate, member, accepts⟩ := accepted
    exact applicable_eq_nil_iff.mp none candidate member accepts

open NumberPairs in
/-- Three overloads in two orders agree on a call with reals, which one of them takes, and on a call
with integers, for which two compete.  The overload that takes reals does not matter to the
latter. -/
theorem resolve_decided_numberPairs :
    Distinct [intReal, realInt, realReal] ∧
      insertAll { name := "f" } [realReal, realInt, intReal] =
        .ok ⟨"f", [realReal, realInt, intReal]⟩ ∧
      (∀ arguments, Agree List.Perm ⟨"f", [intReal, realInt, realReal]⟩
        ⟨"f", [realReal, realInt, intReal]⟩ arguments arguments {} {}) ∧
      (ofOffers "f" [intReal, realInt]).Irrelevant ints realReal ∧
      (⟨"f", [intReal, realInt, realReal]⟩ : OverloadSet (Signature .function)).resolve ints {} =
        (ofOffers "f" [intReal, realInt]).resolve ints {} := by
  have distinct : Distinct [intReal, realInt, realReal] :=
    distinct_ofOffers "f" offered
  obtain ⟨reordered, added⟩ := resolve_decided graph "f" (α := Signature .function)
  obtain ⟨-, all, agree⟩ := reordered _ _ distinct (List.reverse_perm _).symm
  have inside : ∀ candidate ∈ [intReal, realInt], parameters candidate ∈ graph :=
    fun candidate member => mem_graph candidate (by grind [offered])
  have accepted : ∃ candidate ∈ (ofOffers "f" [intReal, realInt]).candidates,
      Accepts candidate ints := ⟨intReal, List.mem_cons_self, by decide⟩
  have irrelevant : (ofOffers "f" [intReal, realInt]).Irrelevant ints realReal :=
    .inr ⟨intReal, List.mem_cons_self, by decide, by decide⟩
  exact ⟨distinct, all, fun arguments => agree arguments {}, irrelevant,
    added _ inside realReal (mem_graph realReal (by simp [offered])) _ rfl ints accepted irrelevant
      {}⟩

end OverloadSet
end ModelLang
