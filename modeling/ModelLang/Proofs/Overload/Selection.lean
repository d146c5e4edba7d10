import Mathlib.Data.List.Pairwise
import ModelLang.OverloadSet
import ModelLang.Proofs.Order.Node

/-!
# Overload selection

A set that was filled by inserting candidates, some of them refused, never holds two candidates with
equal parameters.  With the laws of the node order this makes selection exact: the candidates that
no other accepting one undercuts are pairwise incomparable and lie below all accepting ones, so a
call selects the least accepting candidate, and fails only when nothing accepts the arguments or
when at least two incomparable candidates compete.
-/

namespace ModelLang
namespace OverloadSet

open Candidate

variable {α : Type} [Candidate α]

/-! ## Sets filled by insertion -/

/-- Insert a candidate; a refused one leaves the set as it is. -/
def offer (set : OverloadSet α) (candidate : α) : OverloadSet α :=
  match set.insert candidate with
  | .ok extended => extended
  | .error _ => set

/-- The set of a name after candidates were offered to it from first to last. -/
def ofOffers (name : String) (offered : List α) : OverloadSet α :=
  offered.foldl offer { name }

/-- No two of the candidates have equal parameters. -/
def Distinct (candidates : List α) : Prop :=
  candidates.Pairwise fun first second => ¬ parameters first ≈ parameters second

theorem offer_eq (set : OverloadSet α) (candidate : α) :
    set.offer candidate =
      if (set.rival? candidate).isNone then
        { set with candidates := set.candidates ++ [candidate] }
      else set := by
  unfold offer insert
  cases set.rival? candidate <;> rfl

@[simp]
theorem name_offer (set : OverloadSet α) (candidate : α) :
    (set.offer candidate).name = set.name := by
  rw [offer_eq]
  split <;> rfl

theorem mem_offer {set : OverloadSet α} {offered candidate : α}
    (h : candidate ∈ (set.offer offered).candidates) :
    candidate ∈ set.candidates ∨ candidate = offered := by
  rw [offer_eq] at h
  split at h
  · simpa using h
  · exact .inl h

theorem not_equiv_of_rival?_isNone {set : OverloadSet α} {candidate existing : α}
    (h : (set.rival? candidate).isNone = true) (member : existing ∈ set.candidates) :
    ¬ parameters existing ≈ parameters candidate := by
  simp only [rival?, Option.isNone_iff_eq_none, List.find?_eq_none, decide_eq_true_eq] at h
  exact h existing member

theorem distinct_offer {set : OverloadSet α} (distinct : Distinct set.candidates)
    (candidate : α) : Distinct (set.offer candidate).candidates := by
  rw [offer_eq]
  split
  · next new =>
      refine List.pairwise_append.mpr ⟨distinct, List.pairwise_singleton _ _, ?_⟩
      intro existing member added h
      obtain rfl : added = candidate := by simpa using h
      exact not_equiv_of_rival?_isNone new member
  · exact distinct

/-- What every sequence of offers keeps: the name, that candidates were offered, and that no two of
them have equal parameters. -/
theorem foldl_offer (set : OverloadSet α) (offered : List α) (distinct : Distinct set.candidates) :
    (offered.foldl offer set).name = set.name ∧
      Distinct (offered.foldl offer set).candidates ∧
      ∀ candidate ∈ (offered.foldl offer set).candidates,
        candidate ∈ set.candidates ∨ candidate ∈ offered := by
  induction offered generalizing set with
  | nil => exact ⟨rfl, distinct, fun _ member => .inl member⟩
  | cons first offered induction =>
      obtain ⟨name, distinct, source⟩ := induction (set.offer first) (distinct_offer distinct first)
      refine ⟨name.trans (name_offer set first), distinct, ?_⟩
      intro candidate member
      rcases source candidate member with old | new
      · rcases mem_offer old with old | rfl
        · exact .inl old
        · exact .inr List.mem_cons_self
      · exact .inr (List.mem_cons_of_mem first new)

@[simp]
theorem name_ofOffers (name : String) (offered : List α) :
    (ofOffers name offered).name = name :=
  (foldl_offer { name } offered List.Pairwise.nil).1

theorem distinct_ofOffers (name : String) (offered : List α) :
    Distinct (ofOffers name offered).candidates :=
  (foldl_offer { name } offered List.Pairwise.nil).2.1

theorem mem_of_mem_ofOffers {name : String} {offered : List α} {candidate : α}
    (h : candidate ∈ (ofOffers name offered).candidates) : candidate ∈ offered := by
  rcases (foldl_offer { name } offered List.Pairwise.nil).2.2 candidate h with none | some
  · cases none
  · exact some

/-- Two different candidates of a set have different parameters. -/
theorem not_equiv_of_ne {candidates : List α} (distinct : Distinct candidates) {first second : α}
    (h₁ : first ∈ candidates) (h₂ : second ∈ candidates) (h : first ≠ second) :
    ¬ parameters first ≈ parameters second := by
  have : Std.Symm fun first second : α => ¬ parameters first ≈ parameters second :=
    ⟨fun _ _ different equal => different (Node.equiv_symm equal)⟩
  exact List.Pairwise.forall distinct h₁ h₂ h

/-! ## Minimal candidates -/

section Minimal

variable {graph : Graph} {candidates : List α}

/-- Below every candidate there is a minimal one. -/
theorem exists_minimal_le (inside : ∀ candidate ∈ candidates, parameters candidate ∈ graph)
    {candidate : α} (member : candidate ∈ candidates) :
    ∃ least ∈ minimal candidates, parameters least ≤ parameters candidate := by
  simp only [mem_minimal]
  induction candidates generalizing candidate with
  | nil => cases member
  | cons first rest induction =>
      have inside_rest : ∀ candidate ∈ rest, parameters candidate ∈ graph :=
        fun candidate member => inside candidate (List.mem_cons_of_mem first member)
      have inside_first : parameters first ∈ graph := inside first List.mem_cons_self
      -- A minimal candidate of the rest stays minimal, unless the first one undercuts it.
      have extend : ∀ least ∈ rest,
          (∀ other ∈ rest, ¬ parameters other < parameters least) →
          ¬ parameters first < parameters least →
          ∀ other ∈ first :: rest, ¬ parameters other < parameters least := by
        intro least _ minimal above other member
        rcases List.mem_cons.mp member with rfl | member
        · exact above
        · exact minimal other member
      rcases List.mem_cons.mp member with rfl | member
      · by_cases undercut : ∃ other ∈ rest, parameters other < parameters candidate
        · obtain ⟨other, other_mem, below⟩ := undercut
          obtain ⟨least, ⟨least_mem, minimal⟩, least_le⟩ := induction inside_rest other_mem
          have inside_least : parameters least ∈ graph := inside_rest least least_mem
          have least_lt : parameters least < parameters candidate :=
            Node.lt_of_le_of_lt graph inside_least (inside_rest other other_mem) inside_first
              least_le below
          refine ⟨least, ⟨List.mem_cons_of_mem _ least_mem, ?_⟩, Node.le_of_lt least_lt⟩
          apply extend least least_mem minimal
          intro above
          exact Node.not_lt_self _ (Node.lt_of_lt_of_le graph inside_first inside_least inside_first
            above (Node.le_of_lt least_lt))
        · refine ⟨candidate, ⟨List.mem_cons_self, ?_⟩, Node.le_self _⟩
          intro other member below
          rcases List.mem_cons.mp member with rfl | member
          · exact Node.not_lt_self _ below
          · exact undercut ⟨other, member, below⟩
      · obtain ⟨least, ⟨least_mem, minimal⟩, least_le⟩ := induction inside_rest member
        have inside_least : parameters least ∈ graph := inside_rest least least_mem
        by_cases below : parameters first < parameters least
        · refine ⟨first, ⟨List.mem_cons_self, ?_⟩, Node.le_of_lt
            (Node.lt_of_lt_of_le graph inside_first inside_least (inside_rest _ member)
              below least_le)⟩
          intro other member above
          rcases List.mem_cons.mp member with rfl | member
          · exact Node.not_lt_self _ above
          · exact minimal other member (Node.lt_of_lt_of_le graph (inside_rest _ member)
              inside_first inside_least above (Node.le_of_lt below))
        · exact ⟨least, ⟨List.mem_cons_of_mem _ least_mem,
            extend least least_mem minimal below⟩, least_le⟩

/-- Among candidates there is a minimal one. -/
theorem minimal_ne_nil (inside : ∀ candidate ∈ candidates, parameters candidate ∈ graph)
    (nonempty : candidates ≠ []) : minimal candidates ≠ [] := by
  obtain ⟨candidate, member⟩ := List.exists_mem_of_ne_nil candidates nonempty
  obtain ⟨least, least_mem, -⟩ := exists_minimal_le inside member
  exact List.ne_nil_of_mem least_mem

/-- Minimal candidates are incomparable in pairs. -/
theorem pairwise_minimal (distinct : Distinct candidates) :
    (minimal candidates).Pairwise fun first second =>
      (parameters first).compare (parameters second) = .incomparable := by
  refine (distinct.filter _).imp_of_mem ?_
  intro first second first_mem second_mem different
  have first_mem := (mem_minimal _ _).mp first_mem
  have second_mem := (mem_minimal _ _).mp second_mem
  exact Node.compare_eq_incomparable (second_mem.2 first first_mem.1)
    (first_mem.2 second second_mem.1) different

/-- A candidate is the only minimal one if and only if it lies below all the others. -/
theorem minimal_eq_singleton_iff
    (inside : ∀ candidate ∈ candidates, parameters candidate ∈ graph)
    (distinct : Distinct candidates) (best : α) :
    minimal candidates = [best] ↔
      best ∈ candidates ∧
        ∀ other ∈ candidates, other ≠ best → parameters best < parameters other := by
  constructor
  · intro only
    have best_mem : best ∈ minimal candidates := by simp [only]
    have best_mem : best ∈ candidates := ((mem_minimal _ _).mp best_mem).1
    refine ⟨best_mem, fun other member different => ?_⟩
    obtain ⟨least, least_mem, least_le⟩ := exists_minimal_le inside member
    obtain rfl : least = best := by simpa [only] using least_mem
    have apart := not_equiv_of_ne distinct best_mem member different.symm
    exact Node.lt_of_le_of_not_equiv least_le apart
  · rintro ⟨best_mem, below⟩
    have best_minimal : best ∈ minimal candidates := by
      refine (mem_minimal _ _).mpr ⟨best_mem, fun other member undercuts => ?_⟩
      by_cases equal : other = best
      · exact Node.not_lt_self _ (equal ▸ undercuts)
      · have inside_best := inside best best_mem
        exact Node.not_lt_self _ (Node.lt_of_lt_of_le graph inside_best (inside other member)
          inside_best (below other member equal) (Node.le_of_lt undercuts))
    have only : ∀ other ∈ minimal candidates, other = best := by
      intro other member
      obtain ⟨member, minimal⟩ := (mem_minimal _ _).mp member
      by_contra different
      exact minimal best best_mem (below other member different)
    have apart := pairwise_minimal distinct
    match found : minimal candidates with
    | [] => simp [found] at best_minimal
    | [single] => rw [only single (by simp [found])]
    | first :: second :: rest =>
        -- Both are the candidate itself, which is not incomparable to itself.
        rw [found] at apart
        have first_eq : first = best := only first (by simp [found])
        have second_eq : second = best := only second (by simp [found])
        have self := List.rel_of_pairwise_cons apart (List.mem_cons_self (a := second))
        rw [first_eq, second_eq, Node.compare_self] at self
        cases self

end Minimal

/-! ## What a call selects -/

/-- The candidate accepts the arguments and lies strictly below all others that do. -/
def IsLeast (set : OverloadSet α) (arguments : Node) (candidate : α) : Prop :=
  candidate ∈ set.candidates ∧ Accepts candidate arguments ∧
    ∀ other ∈ set.candidates, other ≠ candidate → Accepts other arguments →
      parameters candidate < parameters other

/-- The candidates between which a call cannot decide. -/
structure Compete (set : OverloadSet α) (arguments : Node) (competitors : List α) : Prop where
  /-- They are listed in the order of insertion. -/
  sublist : competitors.Sublist set.candidates
  two_le_length : 2 ≤ competitors.length
  accepts : ∀ candidate ∈ competitors, Accepts candidate arguments
  incomparable : competitors.Pairwise fun first second =>
    (parameters first).compare (parameters second) = .incomparable
  /-- Every candidate that accepts the arguments is above or equal to one of them. -/
  covers : ∀ candidate ∈ set.candidates, Accepts candidate arguments →
    ∃ competitor ∈ competitors, parameters competitor ≤ parameters candidate

variable {set : OverloadSet α} {arguments : Node}

theorem applicable_eq_nil_iff :
    set.applicable arguments = [] ↔
      ∀ candidate ∈ set.candidates, ¬ Accepts candidate arguments := by
  simp [applicable, List.filter_eq_nil_iff]

theorem resolve_of_applicable_eq_nil (h : set.applicable arguments = []) (site : Span) :
    set.resolve arguments site =
      .error (.noApplicableOverload set.name arguments.text (set.candidates.map text) site) := by
  simp [resolve, resolveAs, choose, h]

theorem resolve_of_minimal_eq_singleton {best : α}
    (h : minimal (set.applicable arguments) = [best]) (site : Span) :
    set.resolve arguments site = .ok best := by
  unfold resolve resolveAs choose
  cases found : set.applicable arguments with
  | nil => simp [found, minimal] at h
  | cons first rest => simp [← found, h]

theorem resolve_of_two_le_length (h : 2 ≤ (minimal (set.applicable arguments)).length)
    (site : Span) :
    set.resolve arguments site =
      .error (.ambiguousOverload set.name arguments.text
        ((minimal (set.applicable arguments)).map text) site) := by
  unfold resolve resolveAs choose
  cases found : set.applicable arguments with
  | nil => simp [found, minimal] at h
  | cons first rest =>
      simp only [← found]
      rcases competitors : minimal (set.applicable arguments) with _ | ⟨_, _ | ⟨_, _⟩⟩
      · simp [competitors] at h
      · simp [competitors] at h
      · rfl

section Selection

variable {graph : Graph}
  (inside : ∀ candidate ∈ set.candidates, parameters candidate ∈ graph)
  (distinct : Distinct set.candidates)

include inside in
theorem inside_applicable :
    ∀ candidate ∈ set.applicable arguments, parameters candidate ∈ graph :=
  fun candidate member => inside candidate ((mem_applicable _ _ _).mp member).1

include distinct in
theorem distinct_applicable : Distinct (set.applicable arguments) :=
  List.Pairwise.filter _ distinct

include inside distinct

theorem minimal_applicable_eq_singleton_iff (candidate : α) :
    minimal (set.applicable arguments) = [candidate] ↔ set.IsLeast arguments candidate := by
  rw [minimal_eq_singleton_iff (inside_applicable inside) (distinct_applicable distinct)]
  simp only [mem_applicable, IsLeast]
  grind

/-- Minimal accepting candidates compete as soon as there are two of them. -/
theorem compete_minimal (h : 2 ≤ (minimal (set.applicable arguments)).length) :
    set.Compete arguments (minimal (set.applicable arguments)) where
  sublist := List.filter_sublist.trans List.filter_sublist
  two_le_length := h
  accepts _ member := ((mem_applicable _ _ _).mp ((mem_minimal _ _).mp member).1).2
  incomparable := pairwise_minimal (distinct_applicable distinct)
  covers _ member accepts :=
    exists_minimal_le (inside_applicable inside) ((mem_applicable _ _ _).mpr ⟨member, accepts⟩)

omit distinct in
/-- Nothing accepts the arguments, or one minimal candidate does, or several minimal ones do. -/
theorem minimal_applicable_cases (arguments : Node) :
    set.applicable arguments = [] ∨ (∃ best, minimal (set.applicable arguments) = [best]) ∨
      2 ≤ (minimal (set.applicable arguments)).length := by
  match found : minimal (set.applicable arguments) with
  | [] =>
      left
      by_contra some_accept
      exact minimal_ne_nil (inside_applicable inside) some_accept found
  | [best] => exact .inr (.inl ⟨best, rfl⟩)
  | first :: second :: rest => exact .inr (.inr (by simp))

/-- A call selects a candidate if and only if it is the least one that accepts the arguments. -/
theorem resolve_eq_ok_iff (site : Span) (candidate : α) :
    set.resolve arguments site = .ok candidate ↔ set.IsLeast arguments candidate := by
  rw [← minimal_applicable_eq_singleton_iff inside distinct]
  constructor
  · intro selected
    rcases minimal_applicable_cases inside arguments with none | ⟨best, one⟩ | several
    · simp [resolve_of_applicable_eq_nil none] at selected
    · obtain rfl : best = candidate := by
        simpa [resolve_of_minimal_eq_singleton one] using selected
      exact one
    · simp [resolve_of_two_le_length several] at selected
  · intro one
    exact resolve_of_minimal_eq_singleton one site

omit distinct in
/-- A call has no applicable overload if and only if no candidate accepts the arguments. -/
theorem resolve_eq_noApplicableOverload_iff (site : Span) :
    set.resolve arguments site =
        .error (.noApplicableOverload set.name arguments.text (set.candidates.map text) site) ↔
      ∀ candidate ∈ set.candidates, ¬ Accepts candidate arguments := by
  rw [← applicable_eq_nil_iff]
  constructor
  · intro failed
    rcases minimal_applicable_cases inside arguments with none | ⟨best, one⟩ | several
    · exact none
    · simp [resolve_of_minimal_eq_singleton one] at failed
    · simp [resolve_of_two_le_length several] at failed
  · intro none
    exact resolve_of_applicable_eq_nil none site

/-- A call that some candidates accept and that has no least one is ambiguous. -/
theorem exists_compete_of_not_isLeast
    (accepted : ∃ candidate ∈ set.candidates, Accepts candidate arguments)
    (undecided : ¬ ∃ candidate, set.IsLeast arguments candidate) (site : Span) :
    ∃ competitors, set.Compete arguments competitors ∧
      set.resolve arguments site =
        .error (.ambiguousOverload set.name arguments.text (competitors.map text) site) := by
  rcases minimal_applicable_cases inside arguments with none | ⟨best, one⟩ | several
  · obtain ⟨candidate, member, accepts⟩ := accepted
    exact absurd accepts (applicable_eq_nil_iff.mp none candidate member)
  · exact absurd ⟨best, (minimal_applicable_eq_singleton_iff inside distinct best).mp one⟩ undecided
  · exact ⟨_, compete_minimal inside distinct several, resolve_of_two_le_length several site⟩

end Selection

/-- In a set filled by insertion, a call selects exactly the least accepting candidate; it has no
applicable overload exactly when nothing accepts the arguments, and is ambiguous between at least
two incomparable candidates otherwise.  Whenever something accepts the arguments, some accepting
candidate is minimal. -/
theorem resolve_ofOffers (graph : Graph) (name : String) (offered : List α)
    (inside : ∀ candidate ∈ offered, parameters candidate ∈ graph) (arguments : Node)
    (site : Span) :
    let set := ofOffers name offered
    (∀ candidate,
      set.resolve arguments site = .ok candidate ↔ set.IsLeast arguments candidate) ∧
    (set.resolve arguments site =
        .error (.noApplicableOverload name arguments.text (set.candidates.map text) site) ↔
      ∀ candidate ∈ set.candidates, ¬ Accepts candidate arguments) ∧
    ((∃ candidate ∈ set.candidates, Accepts candidate arguments) →
      (¬ ∃ candidate, set.IsLeast arguments candidate) →
      ∃ competitors, set.Compete arguments competitors ∧
        set.resolve arguments site =
          .error (.ambiguousOverload name arguments.text (competitors.map text) site)) ∧
    (set.applicable arguments ≠ [] → minimal (set.applicable arguments) ≠ []) := by
  intro set
  have inside : ∀ candidate ∈ set.candidates, parameters candidate ∈ graph :=
    fun candidate member => inside candidate (mem_of_mem_ofOffers member)
  have distinct : Distinct set.candidates := distinct_ofOffers name offered
  have named : set.name = name := name_ofOffers name offered
  rw [← named]
  exact ⟨resolve_eq_ok_iff inside distinct site, resolve_eq_noApplicableOverload_iff inside site,
    fun accepted undecided => exists_compete_of_not_isLeast inside distinct accepted undecided site,
    minimal_ne_nil (inside_applicable inside)⟩

/-! ## Three overloads of two numbers, the first of them offered twice -/

namespace NumberPairs

def int : Node := .typeRef ⟨0, .int, {}⟩
def real : Node := .typeRef ⟨1, .real, {}⟩
def body : Node := .block ⟨2, [], {}⟩
def intReal : Signature .function := ⟨3, "f", .list ⟨4, [int, real], {}⟩, body, {}⟩
def realInt : Signature .function := ⟨5, "f", .list ⟨6, [real, int], {}⟩, body, {}⟩
def realReal : Signature .function := ⟨7, "f", .list ⟨8, [real, real], {}⟩, body, {}⟩
def ints : Node := .list ⟨9, [int, int], {}⟩
def reals : Node := .list ⟨10, [real, real], {}⟩
def offered : List (Signature .function) := [intReal, realInt, intReal, realReal]

def graph : Graph :=
  .ofList [int, real, intReal.params, realInt.params, realReal.params]
    (by simp [int, real, intReal, realInt, realReal, Node.children]) (by decide)

theorem mem_graph : ∀ candidate ∈ offered, parameters candidate ∈ graph := by
  intro candidate member
  change candidate.params ∈ [int, real, intReal.params, realInt.params, realReal.params]
  simp only [offered, List.mem_cons, List.not_mem_nil, or_false] at member
  rcases member with rfl | rfl | rfl | rfl <;> simp

theorem candidates_eq : (ofOffers "f" offered).candidates = [intReal, realInt, realReal] := rfl

theorem mem_candidates {candidate : Signature .function} :
    candidate ∈ (ofOffers "f" offered).candidates ↔
      candidate = intReal ∨ candidate = realInt ∨ candidate = realReal := by
  simp [candidates_eq]

/-- The two overloads that take an integer on one side have nothing below them. -/
theorem not_lt_narrow {candidate other : Signature .function}
    (member : candidate ∈ (ofOffers "f" offered).candidates)
    (narrow : other = intReal ∨ other = realInt) : ¬ parameters candidate < parameters other := by
  rcases narrow with rfl | rfl <;> rcases mem_candidates.mp member with rfl | rfl | rfl <;> decide

theorem not_isLeast_ints (least : Signature .function) :
    ¬ (ofOffers "f" offered).IsLeast ints least := by
  rintro ⟨member, -, below⟩
  obtain ⟨other, narrow, different⟩ :
      ∃ other, (other = intReal ∨ other = realInt) ∧ other ≠ least := by
    by_cases equal : intReal = least
    · refine ⟨realInt, .inr rfl, ?_⟩
      rintro rfl
      exact absurd (congrArg (·.id) equal) (by decide)
    · exact ⟨intReal, .inl rfl, equal⟩
  have accepts : Accepts other ints := by
    rcases narrow with rfl | rfl <;> decide
  have offers : other ∈ (ofOffers "f" offered).candidates := by
    rw [mem_candidates, ← or_assoc]
    exact .inl narrow
  exact not_lt_narrow member narrow (below other offers different accepts)

end NumberPairs

open NumberPairs in
/-- Reals select the only overload that takes them; integers are accepted by all three, and the two
narrow ones compete. -/
theorem resolve_ofOffers_numberPairs :
    (∀ candidate ∈ offered, parameters candidate ∈ graph) ∧
      (ofOffers "f" offered).resolve reals {} = .ok realReal ∧
      ∃ competitors, (ofOffers "f" offered).Compete ints competitors := by
  refine ⟨mem_graph, ?_, ?_⟩
  · obtain ⟨selects, -⟩ := resolve_ofOffers graph "f" offered mem_graph reals {}
    refine (selects realReal).mpr ⟨mem_candidates.mpr (by simp), by decide, ?_⟩
    intro other member different accepts
    rcases mem_candidates.mp member with rfl | rfl | rfl
    · exact absurd accepts (by decide)
    · exact absurd accepts (by decide)
    · exact absurd rfl different
  · obtain ⟨-, -, competes, -⟩ := resolve_ofOffers graph "f" offered mem_graph ints {}
    have accepted := mem_candidates.mpr (.inl rfl : intReal = intReal ∨ _)
    obtain ⟨competitors, compete, -⟩ :=
      competes ⟨intReal, accepted, by decide⟩ fun ⟨least, h⟩ => not_isLeast_ints least h
    exact ⟨competitors, compete⟩

end OverloadSet
end ModelLang
