import Mathlib.Data.List.Forall2
import ModelLang.Proofs.Declaration.Account

/-!
# The order of declarations

Which of several items that repeat each other is adopted depends on the order of the items.  The
classes of items that repeat each other do not, so in any two orders the adopted items correspond
one to one.  Errors are found in one order if and only if they are found in another one: two items
conflict when one repeats the other, unless they are dims with equal extents, and conflicts have no
direction.
-/

namespace ModelLang

/-- The elements of two lists correspond one to one, and those that correspond are related. -/
def Matched {α β : Type} (r : α → β → Prop) (xs : List α) (ys : List β) : Prop :=
  ∃ paired, List.Forall₂ r xs paired ∧ paired.Perm ys

namespace Matched

variable {α β γ δ : Type} {r : α → β → Prop} {xs : List α} {ys : List β}

theorem length_eq (matched : Matched r xs ys) : xs.length = ys.length := by
  obtain ⟨paired, related, same⟩ := matched
  exact related.length_eq.trans same.length_eq

/-- What is taken from corresponding elements corresponds. -/
theorem filterMap {r' : γ → δ → Prop} {f : α → Option γ} {g : β → Option δ}
    (matched : Matched r xs ys) (parts : ∀ x y, r x y → Option.Rel r' (f x) (g y)) :
    Matched r' (xs.filterMap f) (ys.filterMap g) := by
  obtain ⟨paired, related, same⟩ := matched
  exact ⟨paired.filterMap g, List.rel_filterMap parts related, same.filterMap g⟩

/-- A test that tells no corresponding elements apart keeps the correspondence. -/
theorem filter {p : α → Bool} {q : β → Bool} (matched : Matched r xs ys)
    (alike : ∀ x y, r x y → (p x ↔ q y)) : Matched r (xs.filter p) (ys.filter q) := by
  obtain ⟨paired, related, same⟩ := matched
  exact ⟨paired.filter q, List.rel_filter alike related, same.filter q⟩

/-- If all lists are nonempty, a missing one corresponds to a missing one. -/
theorem rel_of_getD {f : γ → List α} {g : δ → List β} {found : Option γ} {found' : Option δ}
    (nonempty : ∀ set, found = some set → f set ≠ [])
    (nonempty' : ∀ set, found' = some set → g set ≠ [])
    (matched : Matched r ((found.map f).getD []) ((found'.map g).getD [])) :
    Option.Rel (fun set set' => Matched r (f set) (g set')) found found' := by
  have length_eq := matched.length_eq
  cases found with
  | none =>
      cases found' with
      | none => exact .none
      | some set =>
          exact absurd (List.length_eq_zero_iff.mp length_eq.symm) (nonempty' set rfl)
  | some set =>
      cases found' with
      | none => exact absurd (List.length_eq_zero_iff.mp length_eq) (nonempty set rfl)
      | some set' => exact .some matched

end Matched

/-- Items that do not repeat `x` do not repeat what `x` repeats either, so each repeats one of the
rest. -/
theorem covers_rest {graph : Graph} {x y : Item} {xs rest : List Item}
    (inside : ∀ item ∈ x :: xs, item.node ∈ graph) (inside_y : y.node ∈ graph)
    (repeats : x.Repeats y) (apart : ∀ item ∈ xs, ¬ x.Repeats item)
    (covers : ∀ item ∈ xs, ∃ other ∈ y :: rest, item.Repeats other) :
    ∀ item ∈ xs, ∃ other ∈ rest, item.Repeats other := by
  intro item member
  obtain ⟨other, listed, again⟩ := covers item member
  rcases List.mem_cons.mp listed with rfl | listed
  · exact absurd (repeats.of_common (inside x List.mem_cons_self)
      (inside item (List.mem_cons_of_mem x member)) inside_y again) (apart item member)
  · exact ⟨other, listed, again⟩

/-- Items that repeat none of their list correspond one to one to those of another such list, if
every item of one list repeats one of the other. -/
theorem matched_of_covers {graph : Graph} {xs ys : List Item}
    (inside : ∀ x ∈ xs, x.node ∈ graph) (inside' : ∀ y ∈ ys, y.node ∈ graph)
    (apart : xs.Pairwise fun first second => ¬ first.Repeats second)
    (apart' : ys.Pairwise fun first second => ¬ first.Repeats second)
    (covers : ∀ x ∈ xs, ∃ y ∈ ys, x.Repeats y) (covers' : ∀ y ∈ ys, ∃ x ∈ xs, y.Repeats x) :
    Matched Item.Repeats xs ys := by
  induction xs generalizing ys with
  | nil =>
      obtain rfl : ys = [] := List.eq_nil_iff_forall_not_mem.mpr fun y member => by
        obtain ⟨_, none, _⟩ := covers' y member
        cases none
      exact ⟨[], .nil, .refl _⟩
  | cons x xs induction =>
      obtain ⟨y, member, repeats⟩ := covers x List.mem_cons_self
      -- The items of the other list in an order in which the partner of `x` comes first.
      obtain ⟨rest, same⟩ : ∃ rest, ys.Perm (y :: rest) := by
        obtain ⟨earlier, later, rfl⟩ := List.append_of_mem member
        exact ⟨earlier ++ later, List.perm_middle⟩
      have inside_y : ∀ item ∈ y :: rest, item.node ∈ graph :=
        fun item member => inside' item (same.mem_iff.mpr member)
      obtain ⟨apart_x, apart⟩ := List.pairwise_cons.mp apart
      obtain ⟨apart_y, apart_rest⟩ := List.pairwise_cons.mp
        ((same.pairwise_iff fun different again => different again.symm).mp apart')
      have covers_xs : ∀ item ∈ xs, ∃ other ∈ y :: rest, item.Repeats other := by
        intro item member
        obtain ⟨other, listed, again⟩ := covers item (List.mem_cons_of_mem x member)
        exact ⟨other, same.mem_iff.mp listed, again⟩
      have covers_ys : ∀ item ∈ rest, ∃ other ∈ x :: xs, item.Repeats other :=
        fun item member => covers' item (same.mem_iff.mpr (List.mem_cons_of_mem y member))
      obtain ⟨paired, related, perm⟩ := induction (List.forall_mem_cons.mp inside).2
        (List.forall_mem_cons.mp inside_y).2 apart apart_rest
        (covers_rest inside (inside' y member) repeats apart_x covers_xs)
        (covers_rest inside_y (inside x List.mem_cons_self) repeats.symm apart_y covers_ys)
      exact ⟨y :: paired, .cons repeats related, (perm.cons y).trans same.symm⟩

/-- Every adopted item repeats one that is adopted in another order. -/
theorem adopted_covers {graph : Graph} {items items' : List Item}
    (inside : ∀ item ∈ items, item.node ∈ graph) (same : items.Perm items') :
    ∀ item ∈ adopted items', ∃ other ∈ adopted items, item.Repeats other := by
  intro item kept
  have member := mem_of_adopted kept
  obtain ⟨first, kept, repeats⟩ := exists_adopted inside (same.mem_iff.mpr member)
  exact ⟨first, kept, repeats.symm⟩

/-- In another order other items are adopted, but they correspond one to one. -/
theorem matched_adopted {graph : Graph} {items items' : List Item}
    (inside : ∀ item ∈ items, item.node ∈ graph) (same : items.Perm items') :
    Matched Item.Repeats (adopted items) (adopted items') := by
  have inside' : ∀ item ∈ items', item.node ∈ graph :=
    fun item member => inside item (same.mem_iff.mpr member)
  exact matched_of_covers (fun item kept => inside item (mem_of_adopted kept))
    (fun item kept => inside' item (mem_of_adopted kept))
    (pairwise_adopted items) (pairwise_adopted items') (adopted_covers inside' same.symm)
    (adopted_covers inside same)

/-! ## Conflicts -/

/-- The items are dims with equal extents. -/
def Item.Agrees (first second : Item) : Prop :=
  ∃ dim dim', first = .dim dim ∧ second = .dim dim' ∧ dim.extent ≈ dim'.extent

/-- The items cannot both be declared. -/
def Item.Conflicts (first second : Item) : Prop :=
  first.Repeats second ∧ ¬ first.Agrees second

namespace Item

theorem Agrees.symm {first second : Item} (h : first.Agrees second) : second.Agrees first := by
  obtain ⟨dim, dim', rfl, rfl, equal⟩ := h
  exact ⟨dim', dim, rfl, rfl, Node.equiv_symm equal⟩

theorem Agrees.trans {graph : Graph} {first second third : Item} (inside : first.node ∈ graph)
    (inside' : second.node ∈ graph) (inside'' : third.node ∈ graph) (h : first.Agrees second)
    (h' : second.Agrees third) : first.Agrees third := by
  obtain ⟨dim, dim', rfl, rfl, equal⟩ := h
  obtain ⟨_, dim'', ⟨⟩, rfl, equal'⟩ := h'
  have extent_mem {dim : Dim} (inside : (Item.dim dim).node ∈ graph) : dim.extent ∈ graph :=
    graph.mem_child inside (List.mem_singleton_self _)
  exact ⟨dim, dim'', rfl, rfl, Node.equiv_trans graph (extent_mem inside) (extent_mem inside')
    (extent_mem inside'') equal equal'⟩

theorem Conflicts.symm {first second : Item} (h : first.Conflicts second) :
    second.Conflicts first :=
  ⟨h.1.symm, fun agrees => h.2 agrees.symm⟩

theorem complaint_eq_none_iff {first again : Item} (repeats : first.Repeats again) :
    first.complaint true again = none ↔ first.Agrees again := by
  cases again with
  | dim declared =>
      cases first with
      | dim bound => simp [complaint, Agrees, Scope.Unifies]
      | function | method => cases repeats.1
  | function | method =>
      rw [complaint_of_overload true repeats rfl]
      simp [Agrees]

end Item

section Graph

variable {graph : Graph} {items : List Item} (inside : ∀ item ∈ items, item.node ∈ graph)
include inside

/-- Among items without conflicts, nothing is reported for a further item if and only if it does not
conflict with any of them. -/
theorem fault_eq_none_iff {item : Item} (inside_item : item.node ∈ graph)
    (peace : items.Pairwise fun first second => ¬ first.Conflicts second) :
    item.fault true items = none ↔ ∀ earlier ∈ items, ¬ earlier.Conflicts item := by
  by_cases new : item.NewAfter items
  · rw [fault_of_new inside inside_item true new]
    exact iff_of_true rfl fun earlier member conflicts => new earlier member conflicts.1
  · obtain ⟨first, rival⟩ := exists_rival inside inside_item new
    obtain ⟨kept, repeats⟩ := mem_of_rival rival
    have member_first := mem_of_adopted kept
    have inside_first := inside first member_first
    rw [fault_of_rival rival, Item.complaint_eq_none_iff repeats]
    constructor
    · intro agrees earlier member conflicts
      have inside_earlier := inside earlier member
      have disagrees : ¬ earlier.Agrees first := fun agrees' =>
        conflicts.2 (agrees'.trans inside_earlier inside_first inside_item agrees)
      have repeats' : earlier.Repeats first :=
        conflicts.1.of_common inside_earlier inside_first inside_item repeats
      by_cases equal : earlier = first
      · exact conflicts.2 (equal ▸ agrees)
      · have : Std.Symm fun first second : Item => ¬ first.Conflicts second :=
          ⟨fun _ _ peace conflicts => peace conflicts.symm⟩
        exact peace.forall member member_first equal ⟨repeats', disagrees⟩
    · intro peaceful
      by_contra disagrees
      exact peaceful first member_first ⟨repeats, disagrees⟩

/-- Declaring the items gives no error if and only if no two of them conflict. -/
theorem faults_eq_nil_iff :
    faults true items = [] ↔ items.Pairwise fun first second => ¬ first.Conflicts second := by
  induction items using List.reverseRecOn with
  | nil => exact iff_of_true rfl List.Pairwise.nil
  | append_singleton items item induction =>
      obtain ⟨inside_items, inside_item⟩ := List.forall_mem_append.mp inside
      have inside_item := inside_item item (List.mem_singleton_self item)
      rw [faults_concat, List.append_eq_nil_iff, induction inside_items, List.pairwise_append]
      refine and_congr_right fun peace => ?_
      rw [Option.toList_eq_nil_iff, fault_eq_none_iff inside_items inside_item peace]
      simp

end Graph

/-! ## Two orders -/

namespace Item

theorem Repeats.function?_rel {first again : Item} (h : first.Repeats again) :
    Option.Rel (fun first again => first.params ≈ again.params) first.function?
      again.function? := by
  cases again with
  | function =>
      cases first with
      | function => exact .some (repeats_function_iff.mp h).2
      | dim | method => cases h.1
  | dim | method => cases first <;> first | exact .none | cases h.1

theorem Repeats.method?_rel {first again : Item} (h : first.Repeats again) :
    Option.Rel (fun first again => first.params ≈ again.params) first.method? again.method? := by
  cases again with
  | method =>
      cases first with
      | method => exact .some (repeats_method_iff.mp h).2
      | dim | function => cases h.1
  | dim | function => cases first <;> first | exact .none | cases h.1

end Item

namespace Scope

theorem functionOverloads_eq (scope : Scope) (name : String) :
    scope.functionOverloads name = (scope.filed (.function name)).filterMap Item.function? := by
  rw [filed, List.filterMap_map]
  exact List.filterMap_some.symm

theorem methodOverloads_eq (scope : Scope) (receiver name : String) :
    scope.methodOverloads receiver name =
      (scope.filed (.method receiver name)).filterMap Item.method? := by
  rw [filed, List.filterMap_map]
  exact List.filterMap_some.symm

end Scope

/-- Two sets of overloads correspond one to one, with equal parameters. -/
def OverloadSet.Matches {c : Callable} (set set' : OverloadSet (Signature c)) : Prop :=
  Matched (fun first second => first.params ≈ second.params) set.candidates set'.candidates

/-- The outcomes of two declarations agree up to which of several equal overloads were kept. -/
structure SameUpToOrder (outcome outcome' : Declared) : Prop where
  errors_eq_nil_iff : outcome.errors = [] ↔ outcome'.errors = []
  dims_eq : outcome.dims = outcome'.dims
  functions_eq : outcome.functions = outcome'.functions
  methods_eq : outcome.methods = outcome'.methods
  /-- A function is missing in both, or its sets correspond. -/
  function : ∀ name,
    Option.Rel OverloadSet.Matches (outcome.scope.function? name) (outcome'.scope.function? name)
  /-- A method is missing in both, or its sets correspond. -/
  method : ∀ receiver name,
    Option.Rel (fun method method' => method.overloads.Matches method'.overloads)
      (outcome.scope.method? receiver name) (outcome'.scope.method? receiver name)

/-- Declaring the same items in another order gives the same counts, corresponding overloads, and
errors in one order if and only if in the other. -/
theorem sameUpToOrder_of_perm (graph : Graph) {items items' : List Item}
    (inside : ∀ item ∈ items, item.node ∈ graph) (same : items.Perm items') :
    SameUpToOrder (({} : Scope).declareAll true items) (({} : Scope).declareAll true items') := by
  have inside' : ∀ item ∈ items', item.node ∈ graph :=
    fun item member => inside item (same.mem_iff.mpr member)
  have reached := reached_declareAll true inside
  have reached' := reached_declareAll true inside'
  have kept : Matched Item.Repeats (adopted items) (adopted items') := matched_adopted inside same
  have filed (place : Place) :
      Matched Item.Repeats ((({} : Scope).declareAll true items).scope.filed place)
        ((({} : Scope).declareAll true items').scope.filed place) := by
    rw [reached.filed_eq, reached'.filed_eq]
    refine kept.filter fun first second repeats => ?_
    rw [decide_eq_true_iff, decide_eq_true_iff, repeats.1]
  constructor
  case errors_eq_nil_iff =>
    rw [reached.errors_eq, reached'.errors_eq, faults_eq_nil_iff inside, faults_eq_nil_iff inside']
    exact same.pairwise_iff fun peace conflicts => peace conflicts.symm
  case dims_eq =>
    rw [reached.dims_eq, reached'.dims_eq, countP_adopted_dim inside, countP_adopted_dim inside']
    exact (same.filterMap _).dedup.length_eq
  case functions_eq =>
    rw [reached.functions_eq, reached'.functions_eq, ← List.length_filterMap_eq_countP,
      ← List.length_filterMap_eq_countP]
    exact (kept.filterMap fun _ _ repeats => repeats.function?_rel).length_eq
  case methods_eq =>
    rw [reached.methods_eq, reached'.methods_eq, ← List.length_filterMap_eq_countP,
      ← List.length_filterMap_eq_countP]
    exact (kept.filterMap fun _ _ repeats => repeats.method?_rel).length_eq
  case function =>
    intro name
    have matched := (filed (.function name)).filterMap fun _ _ repeats => repeats.function?_rel
    rw [← Scope.functionOverloads_eq, ← Scope.functionOverloads_eq] at matched
    exact matched.rel_of_getD (fun _ found => (reached.consistent.function found).nonempty)
      fun _ found => (reached'.consistent.function found).nonempty
  case method =>
    intro receiver name
    have matched := (filed (.method receiver name)).filterMap fun _ _ repeats =>
      repeats.method?_rel
    rw [← Scope.methodOverloads_eq, ← Scope.methodOverloads_eq] at matched
    exact matched.rel_of_getD (fun _ found => (reached.consistent.method found).2.nonempty)
      fun _ found => (reached'.consistent.method found).2.nonempty

open Redeclared in
/-- Declared from last to first, other overloads of the function are kept, but as many. -/
theorem sameUpToOrder_of_perm_reversed :
    (∀ item ∈ items, item.node ∈ graph) ∧ items.Perm items.reverse ∧
      (({} : Scope).declareAll true items).scope.functionOverloads "f" = [narrow, wide] ∧
      (({} : Scope).declareAll true items.reverse).scope.functionOverloads "f" = [wide, thrice] ∧
      (({} : Scope).declareAll true items.reverse).functions = 2 ∧
      (({} : Scope).declareAll true items.reverse).errors ≠ [] ∧
      Option.Rel OverloadSet.Matches ((({} : Scope).declareAll true items).scope.function? "f")
        ((({} : Scope).declareAll true items.reverse).scope.function? "f") := by
  have same : items.Perm items.reverse := (List.reverse_perm items).symm
  have agree := sameUpToOrder_of_perm graph mem_graph same
  have fails : (({} : Scope).declareAll true items).errors ≠ [] := by decide
  exact ⟨mem_graph, same, rfl, rfl, agree.functions_eq.symm,
    fun none => fails (agree.errors_eq_nil_iff.mpr none), agree.function "f"⟩

end ModelLang
