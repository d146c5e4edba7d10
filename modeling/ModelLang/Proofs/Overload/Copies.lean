import ModelLang.Proofs.Order.Copies
import ModelLang.Proofs.Overload.Selection

/-!
# Overload sets of copies

Selection only compares parameters and arguments, so replacing the candidates of a set commutes
with every operation as long as these comparisons come out alike.  Nodes whose types are known
compare like their copies.  The central statement offers declarations and copies of them to two
sets, one beside the other: insertion, acceptance and selection agree place by place, whatever is
shared on either side.
-/

namespace ModelLang

variable {α β : Type} [Candidate α] [Candidate β]

namespace Candidate

/-- Replacing candidates keeps what insertion and selection see of them: their texts and spans, and
how their parameters compare. -/
structure Keeps (f : α → β) (candidates : List α) : Prop where
  text_eq : ∀ candidate ∈ candidates, text (f candidate) = text candidate
  span_eq : ∀ candidate ∈ candidates, span (f candidate) = span candidate
  compare_eq : ∀ first ∈ candidates, ∀ second ∈ candidates,
    (parameters (f first)).compare (parameters (f second)) =
      (parameters first).compare (parameters second)

namespace Keeps

variable {f : α → β} {candidates : List α}

theorem of_subset {fewer : List α} (keeps : Keeps f candidates) (subset : fewer ⊆ candidates) :
    Keeps f fewer where
  text_eq _ member := keeps.text_eq _ (subset member)
  span_eq _ member := keeps.span_eq _ (subset member)
  compare_eq _ first _ second := keeps.compare_eq _ (subset first) _ (subset second)

theorem equiv_iff (keeps : Keeps f candidates) {first second : α} (h₁ : first ∈ candidates)
    (h₂ : second ∈ candidates) :
    parameters (f first) ≈ parameters (f second) ↔ parameters first ≈ parameters second := by
  change Comparison.isEq _ = true ↔ Comparison.isEq _ = true
  rw [keeps.compare_eq first h₁ second h₂]

theorem lt_iff (keeps : Keeps f candidates) {first second : α} (h₁ : first ∈ candidates)
    (h₂ : second ∈ candidates) :
    parameters (f first) < parameters (f second) ↔ parameters first < parameters second := by
  change Comparison.isLT _ = true ↔ Comparison.isLT _ = true
  rw [keeps.compare_eq first h₁ second h₂]

theorem map_text (keeps : Keeps f candidates) :
    (candidates.map f).map text = candidates.map text := by
  rw [List.map_map]
  exact List.map_congr_left keeps.text_eq

end Keeps

/-- The arguments are accepted by the same candidates after a replacement. -/
def Answers (f : α → β) (candidates : List α) (arguments arguments' : Node) : Prop :=
  ∀ candidate ∈ candidates,
    arguments'.compare (parameters (f candidate)) = arguments.compare (parameters candidate)

theorem Answers.accepts_iff {f : α → β} {candidates : List α} {arguments arguments' : Node}
    (answers : Answers f candidates arguments arguments') {candidate : α}
    (member : candidate ∈ candidates) :
    Accepts (f candidate) arguments' ↔ Accepts candidate arguments := by
  change Comparison.isLE _ = true ↔ Comparison.isLE _ = true
  rw [answers candidate member]

end Candidate

namespace Choice

/-- A choice between other candidates. -/
def map {α β : Type} (f : α → β) : Choice α → Choice β
  | unique candidate => unique (f candidate)
  | inapplicable => inapplicable
  | ambiguous competitors => ambiguous (competitors.map f)

end Choice

namespace OverloadSet

open Candidate

/-- A set with other candidates in the places of its own. -/
def map {α β : Type} (f : α → β) (set : OverloadSet α) : OverloadSet β :=
  ⟨set.name, set.candidates.map f⟩

variable {f : α → β} {set : OverloadSet α} {arguments arguments' : Node}

/-! ## Replacing the candidates of a set -/

theorem rival?_map {candidate : α} (keeps : Keeps f (candidate :: set.candidates)) :
    (set.map f).rival? (f candidate) = (set.rival? candidate).map f := by
  rw [rival?, rival?, map, List.find?_map, ← List.head?_filter, ← List.head?_filter]
  congr 2
  refine List.filter_congr fun existing member => decide_eq_decide.mpr ?_
  exact keeps.equiv_iff (List.mem_cons_of_mem _ member) List.mem_cons_self

/-- Insertion commutes with a replacement of the candidates. -/
theorem insert_map {candidate : α} (keeps : Keeps f (candidate :: set.candidates)) :
    (set.map f).insert (f candidate) = (set.insert candidate).map (map f) := by
  rw [insert, insert, rival?_map keeps]
  cases found : set.rival? candidate with
  | none => simp [map, Except.map]
  | some rival =>
      have member : rival ∈ candidate :: set.candidates :=
        List.mem_cons_of_mem _ (List.mem_of_find?_eq_some found)
      simp only [Option.map_some, Except.map, map, keeps.text_eq rival member,
        keeps.span_eq rival member, keeps.text_eq candidate List.mem_cons_self,
        keeps.span_eq candidate List.mem_cons_self]

theorem offer_map {candidate : α} (keeps : Keeps f (candidate :: set.candidates)) :
    (set.map f).offer (f candidate) = (set.offer candidate).map f := by
  rw [offer, offer, insert_map keeps]
  cases set.insert candidate <;> rfl

theorem foldl_offer_map {offered : List α} (keeps : Keeps f (set.candidates ++ offered)) :
    (offered.map f).foldl offer (set.map f) = (offered.foldl offer set).map f := by
  induction offered generalizing set with
  | nil => rfl
  | cons candidate offered induction =>
      rw [List.map_cons, List.foldl_cons, List.foldl_cons, offer_map, induction]
      · apply keeps.of_subset
        rw [offer_eq]
        split <;> simp
      · apply keeps.of_subset
        simp

/-- Sets that were offered candidates and their replacements hold them at the same places. -/
theorem ofOffers_map (name : String) {offered : List α} (keeps : Keeps f offered) :
    ofOffers name (offered.map f) = (ofOffers name offered).map f := by
  have empty_map : ({ name } : OverloadSet α).map f = { name } := rfl
  rw [ofOffers, ← empty_map]
  exact foldl_offer_map keeps

/-- The candidates of a set are some of those that were offered to it, in the same order. -/
theorem sublist_ofOffers (name : String) (offered : List α) :
    (ofOffers name offered).candidates.Sublist offered := by
  suffices extended : ∀ set : OverloadSet α,
      (offered.foldl offer set).candidates.Sublist (set.candidates ++ offered) by
    exact extended { name }
  induction offered with
  | nil => simp
  | cons candidate offered induction =>
      intro set
      refine (induction (set.offer candidate)).trans ?_
      rw [offer_eq]
      split
      · simp
      · exact (List.Sublist.refl set.candidates).append (List.sublist_cons_self candidate offered)

theorem applicable_map (answers : Answers f set.candidates arguments arguments') :
    (set.map f).applicable arguments' = (set.applicable arguments).map f := by
  rw [applicable, applicable, map, List.filter_map]
  congr 1
  exact List.filter_congr fun candidate member =>
    decide_eq_decide.mpr (answers.accepts_iff member)

theorem minimal_map {candidates : List α} (keeps : Keeps f candidates) :
    minimal (candidates.map f) = (minimal candidates).map f := by
  rw [minimal, minimal, List.filter_map]
  congr 1
  refine List.filter_congr fun candidate member => ?_
  rw [Function.comp, List.all_map, Bool.eq_iff_iff, List.all_eq_true, List.all_eq_true]
  refine forall₂_congr fun other member' => ?_
  simp [keeps.lt_iff member' member]

/-- Selection commutes with a replacement of the candidates. -/
theorem choose_map (keeps : Keeps f set.candidates)
    (answers : Answers f set.candidates arguments arguments') :
    (set.map f).choose arguments' = (set.choose arguments).map f := by
  have keeps : Keeps f (set.applicable arguments) := keeps.of_subset List.filter_sublist.subset
  rw [choose, choose, applicable_map answers]
  cases accepting : set.applicable arguments with
  | nil => rfl
  | cons first rest =>
      rw [accepting] at keeps
      have least := minimal_map keeps
      rw [List.map_cons] at least ⊢
      simp only [least]
      rcases minimal (first :: rest) with _ | ⟨best, _ | ⟨second, others⟩⟩ <;> rfl

theorem sublist_of_choose_eq_ambiguous {competitors : List α}
    (h : set.choose arguments = .ambiguous competitors) :
    competitors.Sublist set.candidates := by
  dsimp only [choose] at h
  split at h
  case h_1 => cases h
  case h_2 =>
    split at h
    case h_1 => cases h
    case h_2 =>
      cases h
      exact List.filter_sublist
    case h_3 =>
      cases h
      exact List.filter_sublist.trans List.filter_sublist

/-- A call is answered alike after a replacement of the candidates, if its arguments are written
alike. -/
theorem resolve_map (keeps : Keeps f set.candidates)
    (answers : Answers f set.candidates arguments arguments')
    (text_eq : arguments'.text = arguments.text) (site : Span) :
    (set.map f).resolve arguments' site = (set.resolve arguments site).map f := by
  rw [resolve, resolve, resolveAs, resolveAs, choose_map keeps answers]
  cases chosen : set.choose arguments with
  | unique candidate => rfl
  | inapplicable =>
      simp only [Choice.map, Except.map, map, text_eq, keeps.map_text]
  | ambiguous competitors =>
      have competing := keeps.of_subset (sublist_of_choose_eq_ambiguous chosen).subset
      simp only [Choice.map, Except.map, map, text_eq, competing.map_text]

end OverloadSet

/-! ## Two sets of copies -/

/-- A candidate and a copy of it: the first belongs to one graph and has known parameter types, the
second belongs to another one and may share other nodes. -/
structure Candidate.Twins (graph graph' : Graph) (pair : α × α) : Prop where
  mem_first : parameters pair.1 ∈ graph
  mem_second : parameters pair.2 ∈ graph'
  known : (parameters pair.1).TypesKnown
  alike : (node pair.1).Alike (node pair.2)
  parameters_alike : (parameters pair.1).Alike (parameters pair.2)

namespace OverloadSet

open Candidate

/-- Two sets, one of the first and one of the second candidates of pairs, answer alike. -/
structure AnswersAlike (graph graph' : Graph) (both : OverloadSet (α × α)) : Prop where
  /-- Both take a further candidate, or both report the same error. -/
  insert : ∀ pair, Twins graph graph' pair →
    ∃ outcome : Except Diagnostic (OverloadSet (α × α)),
      (both.map Prod.fst).insert pair.1 = outcome.map (map Prod.fst) ∧
        (both.map Prod.snd).insert pair.2 = outcome.map (map Prod.snd)
  /-- The candidates at the same places accept the arguments and their copy. -/
  applicable : ∀ arguments ∈ graph, ∀ arguments' ∈ graph', arguments.Alike arguments' →
    ∃ accepting : List (α × α), accepting.Sublist both.candidates ∧
      (both.map Prod.fst).applicable arguments = accepting.map Prod.fst ∧
        (both.map Prod.snd).applicable arguments' = accepting.map Prod.snd
  /-- Both select the candidates of one pair, or both report the same error. -/
  resolve : ∀ arguments ∈ graph, ∀ arguments' ∈ graph', arguments.Alike arguments' → ∀ site,
    ∃ outcome : Except Diagnostic (α × α), (∀ pair, outcome = .ok pair → pair ∈ both.candidates) ∧
      (both.map Prod.fst).resolve arguments site = outcome.map Prod.fst ∧
        (both.map Prod.snd).resolve arguments' site = outcome.map Prod.snd

section Twins

variable {graph graph' : Graph} {pairs : List (α × α)}

-- In the proofs a pair stands for its first candidate, so a set of pairs answers like the set of
-- the first candidates.
local instance : Candidate (α × α) where
  node pair := node pair.1
  parameters pair := parameters pair.1

theorem keeps_fst (pairs : List (α × α)) : Keeps Prod.fst pairs where
  text_eq _ _ := rfl
  span_eq _ _ := rfl
  compare_eq _ _ _ _ := rfl

theorem keeps_snd (twins : ∀ pair ∈ pairs, Twins graph graph' pair) : Keeps Prod.snd pairs where
  text_eq pair member := (twins pair member).alike.text_eq.symm
  span_eq pair member := (twins pair member).alike.span_eq.symm
  compare_eq first h₁ second h₂ :=
    have one := twins first h₁
    have other := twins second h₂
    (one.parameters_alike.compare_eq other.parameters_alike one.mem_first other.mem_first
      one.mem_second other.mem_second one.known).symm

/-- Arguments and their copy compare alike with the two candidates of a pair. -/
theorem answers_snd {arguments arguments' : Node} (inside : arguments ∈ graph)
    (inside' : arguments' ∈ graph') (alike : arguments.Alike arguments')
    (twins : ∀ pair ∈ pairs, Twins graph graph' pair) :
    Answers Prod.snd pairs arguments arguments' := by
  intro pair member
  have twin := twins pair member
  have compare_eq : (parameters pair.1).compare arguments =
      (parameters pair.2).compare arguments' :=
    twin.parameters_alike.compare_eq alike twin.mem_first inside twin.mem_second inside' twin.known
  rw [Node.compare_swap (parameters pair.2), ← compare_eq, ← Node.compare_swap]
  rfl

/-- Sets that hold candidates and their copies at the same places answer alike. -/
theorem answersAlike_of_twins {both : OverloadSet (α × α)}
    (twins : ∀ pair ∈ both.candidates, Twins graph graph' pair) :
    AnswersAlike graph graph' both where
  insert pair twin := by
    have all : ∀ other ∈ pair :: both.candidates, Twins graph graph' other :=
      List.forall_mem_cons.mpr ⟨twin, twins⟩
    exact ⟨both.insert pair, insert_map (keeps_fst _), insert_map (keeps_snd all)⟩
  applicable arguments inside arguments' inside' alike :=
    ⟨both.applicable arguments, List.filter_sublist, applicable_map fun _ _ => rfl,
      applicable_map (answers_snd inside inside' alike twins)⟩
  resolve arguments inside arguments' inside' alike site := by
    refine ⟨both.resolve arguments site, fun pair selected => ?_,
      resolve_map (keeps_fst _) (fun _ _ => rfl) rfl site,
      resolve_map (keeps_snd twins) (answers_snd inside inside' alike twins)
        alike.text_eq.symm site⟩
    exact (mem_of_choose_eq_unique (resolveAs_eq_ok_iff.mp selected)).1

/-- Where types are known, the identities of nodes play no part.  The comparison of two nodes is
their comparison by structure, so it comes out alike for copies; and two sets that were offered
candidates and copies of them hold the same ones of both and answer alike. -/
theorem answersAlike_of_copies (graph graph' : Graph) :
    (∀ a ∈ graph, ∀ b ∈ graph, a.TypesKnown → a.compare b = a.compareStructurally b) ∧
    (∀ a ∈ graph, ∀ b ∈ graph, ∀ a' ∈ graph', ∀ b' ∈ graph', a.TypesKnown → a.Alike a' →
      b.Alike b' → a.compare b = a'.compare b') ∧
    ∀ (name : String) (offered : List (α × α)), (∀ pair ∈ offered, Twins graph graph' pair) →
      ∃ both : OverloadSet (α × α), both.candidates.Sublist offered ∧
        ofOffers name (offered.map Prod.fst) = both.map Prod.fst ∧
        ofOffers name (offered.map Prod.snd) = both.map Prod.snd ∧
        AnswersAlike graph graph' both := by
  refine ⟨fun a ha b hb => Node.compare_eq_compareStructurally graph ha hb,
    fun a ha b hb a' ha' b' hb' known alike alike' =>
      alike.compare_eq alike' ha hb ha' hb' known, ?_⟩
  intro name offered twins
  have kept : (ofOffers name offered).candidates.Sublist offered := sublist_ofOffers name offered
  exact ⟨ofOffers name offered, kept, ofOffers_map name (keeps_fst offered),
    ofOffers_map name (keeps_snd twins),
    answersAlike_of_twins fun pair member => twins pair (kept.subset member)⟩

end Twins

/-! ## An overload that is offered twice, as one node and as two copies -/

namespace OfferedTwice

def param (id : NodeId) (ty : Ty) : Node := .typeRef ⟨id, ty, {}⟩
def couple (id first second : NodeId) (ty : Ty) : Node :=
  .list ⟨id, [param first ty, param second ty], {}⟩
def overload (id : NodeId) (params : Node) : Signature .function :=
  ⟨id, "f", params, .block ⟨0, [], {}⟩, {}⟩

def narrow : Signature .function := overload 3 (couple 4 1 1 .int)
def wide : Signature .function := overload 5 (couple 6 2 2 .real)
def ints : Node := couple 7 1 1 .int

def narrowCopy : Signature .function := overload 10 (couple 11 12 13 .int)
def narrowCopy' : Signature .function := overload 14 (couple 15 16 17 .int)
def wideCopy : Signature .function := overload 18 (couple 19 20 21 .real)
def intsCopy : Node := couple 22 12 17 .int

def graph : Graph :=
  .ofList [param 1 .int, param 2 .real, narrow.params, wide.params, ints]
    (by simp [param, couple, overload, narrow, wide, ints, Node.children]) (by decide)

def copies : Graph :=
  .ofList
    [param 12 .int, param 13 .int, param 16 .int, param 17 .int, param 20 .real, param 21 .real,
      narrowCopy.params, narrowCopy'.params, wideCopy.params, intsCopy]
    (by simp [param, couple, overload, narrowCopy, narrowCopy', wideCopy, intsCopy, Node.children])
    (by decide)

/-- On one side a node is offered twice; on the other side two copies of it are. -/
def offered : List (Signature .function × Signature .function) :=
  [(narrow, narrowCopy), (narrow, narrowCopy'), (wide, wideCopy)]

theorem typesKnown_couple (id first second : NodeId) {ty : Ty} (known : ty.hasUnknown = false) :
    (couple id first second ty).TypesKnown := by
  have param_known (id : NodeId) : (param id ty).TypesKnown := by
    refine Node.typesKnown_iff.mpr ⟨?_, by simp [param, Node.children]⟩
    rintro _ ⟨⟩
    exact known
  refine Node.typesKnown_iff.mpr ⟨by simp [couple, Node.leaf?], ?_⟩
  simp [couple, Node.children, param_known]

theorem twins : ∀ pair ∈ offered, Twins graph copies pair := by
  intro pair member
  simp only [offered, List.mem_cons, List.not_mem_nil, or_false] at member
  rcases member with rfl | rfl | rfl
  all_goals
    refine ⟨?_, ?_, typesKnown_couple _ _ _ rfl, rfl, rfl⟩
    · change _ ∈ [_, _, _, _, _]
      simp [parameters]
    · change _ ∈ [_, _, _, _, _, _, _, _, _, _]
      simp [parameters]

theorem mem_ints : ints ∈ graph ∧ intsCopy ∈ copies := by
  constructor
  · change _ ∈ [_, _, _, _, _]
    simp
  · change _ ∈ [_, _, _, _, _, _, _, _, _, _]
    simp

end OfferedTwice

open OfferedTwice in
/-- The second offer is refused on both sides, once because it is the same node and once because of
its structure; integers select the narrow overload on one side and a copy of it on the other. -/
theorem answersAlike_of_copies_offeredTwice :
    (∀ pair ∈ offered, Twins graph copies pair) ∧ ints.Alike intsCopy ∧
      ints.compare narrow.params = intsCopy.compare narrowCopy.params ∧
      (ofOffers "f" [narrow, narrow, wide]).resolve ints {} = .ok narrow ∧
      ∃ copy ∈ [narrowCopy, narrowCopy'],
        (ofOffers "f" [narrowCopy, narrowCopy', wideCopy]).resolve intsCopy {} = .ok copy := by
  obtain ⟨-, compare_eq, sets⟩ :=
    answersAlike_of_copies (α := Signature .function) graph copies
  obtain ⟨inside, insideCopy⟩ := mem_ints
  have narrow_twins := twins (narrow, narrowCopy) (by simp [offered])
  have selects : (ofOffers "f" [narrow, narrow, wide]).resolve ints {} = .ok narrow := rfl
  refine ⟨twins, rfl, ?_, selects, ?_⟩
  · exact compare_eq _ inside _ narrow_twins.mem_first _ insideCopy _ narrow_twins.mem_second
      (typesKnown_couple _ _ _ rfl) rfl rfl
  · obtain ⟨both, kept, first, second, alike⟩ := sets "f" offered twins
    obtain ⟨outcome, member, chosen, chosenCopy⟩ :=
      alike.resolve ints inside intsCopy insideCopy rfl {}
    rw [← first] at chosen
    rw [← second] at chosenCopy
    cases outcome with
    | error error => cases selects.symm.trans chosen
    | ok pair =>
        have first_eq : narrow = pair.1 := Except.ok.inj (selects.symm.trans chosen)
        have listed : pair ∈ offered := kept.subset (member pair rfl)
        refine ⟨pair.2, ?_, chosenCopy⟩
        simp only [offered, List.mem_cons, List.not_mem_nil, or_false] at listed
        rcases listed with rfl | rfl | rfl
        · simp
        · simp
        · exact absurd (congrArg (·.id) first_eq) (by decide)

end OverloadSet
end ModelLang
