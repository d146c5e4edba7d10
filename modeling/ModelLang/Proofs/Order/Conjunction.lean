import Mathlib.Data.List.Perm.Basic
import ModelLang.Proofs.Order.Pairwise

/-!
# Products that are abandoned early

The product of a sequence is told by which components occur in it: strict components of one
direction decide it, and two that disagree, or one that is incomparable, make it incomparable.  So
neither the order of the components nor a division into parts matters.

A product is abandoned when it becomes incomparable.  What is looked at until then is made visible
by folding computations in place of outcomes: a component is computed only when the fold comes to
it.  The components computed are those of the shortest incomparable prefix, or all of them.
-/

namespace ModelLang
namespace Comparison

/-! ## Which components decide a product -/

section Decided

variable {components : List Comparison}

theorem conjoinAll_eq_equal_iff :
    conjoinAll components = equal ↔ ∀ c ∈ components, c = equal := by
  simp only [← isEq_iff]
  exact conjoinAll_test rfl isEq_conjoin

/-- A direction in which two elements may be ordered strictly. -/
def IsStrict (direction : Comparison) : Prop :=
  direction = less ∨ direction = greater

variable {direction : Comparison}

theorem IsStrict.ne_equal (strict : direction.IsStrict) : direction ≠ equal := by
  rcases strict with rfl | rfl <;> decide

/-- A product points no other way than a direction if none of its components does. -/
theorem conjoinAll_aligned_iff (strict : direction.IsStrict) :
    (conjoinAll components = direction ∨ conjoinAll components = equal) ↔
      ∀ c ∈ components, c = direction ∨ c = equal := by
  let test (c : Comparison) : Bool := c == direction || c == equal
  have product (a b : Comparison) : test (a.conjoin b) = (test a && test b) := by
    rcases strict with rfl | rfl <;> cases a <;> cases b <;> rfl
  have tested : test (conjoinAll components) = true ↔ ∀ c ∈ components, test c = true :=
    conjoinAll_test (by simp [test]) product
  simpa [test] using tested

theorem conjoinAll_eq_strict_iff (strict : direction.IsStrict) :
    conjoinAll components = direction ↔
      (∀ c ∈ components, c = direction ∨ c = equal) ∧ direction ∈ components := by
  rw [← conjoinAll_aligned_iff strict]
  constructor
  · intro decided
    refine ⟨.inl decided, ?_⟩
    have unequal : ¬ ∀ c ∈ components, c = equal := by
      rw [← conjoinAll_eq_equal_iff, decided]
      exact strict.ne_equal
    obtain ⟨c, member, other⟩ : ∃ c ∈ components, c ≠ equal := by simpa using unequal
    have aligned := (conjoinAll_aligned_iff strict).mp (.inl decided) c member
    rwa [← aligned.resolve_right other]
  · rintro ⟨aligned, occurs⟩
    refine aligned.resolve_right fun allEqual => ?_
    exact strict.ne_equal (conjoinAll_eq_equal_iff.mp allEqual direction occurs)

theorem conjoinAll_eq_incomparable_iff :
    conjoinAll components = incomparable ↔
      incomparable ∈ components ∨ less ∈ components ∧ greater ∈ components := by
  have unaligned : conjoinAll components = incomparable ↔
      ¬ (conjoinAll components = less ∨ conjoinAll components = equal) ∧
        ¬ (conjoinAll components = greater ∨ conjoinAll components = equal) := by
    cases conjoinAll components <;> simp
  have below (c : Comparison) : ¬ (c = less ∨ c = equal) ↔ c = incomparable ∨ c = greater := by
    cases c <;> simp
  have above (c : Comparison) : ¬ (c = greater ∨ c = equal) ↔ c = incomparable ∨ c = less := by
    cases c <;> simp
  rw [unaligned, conjoinAll_aligned_iff (.inl rfl), conjoinAll_aligned_iff (.inr rfl)]
  simp only [not_forall, exists_prop, below, above, and_or_left, exists_or, exists_eq_right]
  tauto

theorem conjoinAll_append (front back : List Comparison) :
    conjoinAll (front ++ back) = (conjoinAll front).conjoin (conjoinAll back) := by
  induction front with
  | nil => simp
  | cons component rest induction =>
      rw [List.cons_append, conjoinAll_cons, conjoinAll_cons, induction, conjoin_assoc]

/-- The parts of a sequence may be folded on their own. -/
theorem conjoinAll_flatten (parts : List (List Comparison)) :
    conjoinAll (parts.map conjoinAll) = conjoinAll parts.flatten := by
  induction parts with
  | nil => rfl
  | cons part parts induction =>
      rw [List.map_cons, conjoinAll_cons, induction, List.flatten_cons, conjoinAll_append]

theorem conjoinAll_perm {others : List Comparison} (perm : components.Perm others) :
    conjoinAll components = conjoinAll others := by
  induction perm with
  | nil => rfl
  | cons component _ induction => rw [conjoinAll_cons, conjoinAll_cons, induction]
  | swap first second rest =>
      simp only [conjoinAll_cons, ← conjoin_assoc, conjoin_comm first second]
  | trans _ _ first second => exact first.trans second

end Decided

/-! ## Where a fold stops -/

/-- A fold stops after so many components: no shorter prefix is incomparable, and the prefix of this
length is, unless it is the whole sequence. -/
structure StopsAt (components : List Comparison) (count : Nat) : Prop where
  le_length : count ≤ components.length
  before : ∀ shorter < count, conjoinAll (components.take shorter) ≠ incomparable
  stop : conjoinAll (components.take count) = incomparable ∨ count = components.length

/-- A fold stops at one place. -/
theorem StopsAt.unique {components : List Comparison} {count count' : Nat}
    (stops : StopsAt components count) (stops' : StopsAt components count') : count = count' := by
  have no_earlier {n n' : Nat} (stops : StopsAt components n) (stops' : StopsAt components n') :
      n' ≤ n := by
    rcases stops.stop with incomparable | whole
    · exact Nat.le_of_not_lt fun earlier => stops'.before n earlier incomparable
    · exact whole ▸ stops'.le_length
  exact Nat.le_antisymm (no_earlier stops' stops) (no_earlier stops stops')

/-- From a product that is not abandoned yet, so many components are looked at as there are in the
shortest prefix that makes it incomparable. -/
theorem inspectedFrom_spec {product : Comparison} (comparable : product ≠ incomparable)
    (components : List Comparison) :
    product.inspectedFrom components ≤ components.length ∧
      (∀ shorter < product.inspectedFrom components,
        product.conjoin (conjoinAll (components.take shorter)) ≠ incomparable) ∧
      (product.conjoin (conjoinAll (components.take (product.inspectedFrom components))) =
          incomparable ∨
        product.inspectedFrom components = components.length) := by
  induction components generalizing product with
  | nil => simp [inspectedFrom]
  | cons component rest induction =>
      have grown (n : Nat) : product.conjoin (conjoinAll ((component :: rest).take (n + 1))) =
          (product.conjoin component).conjoin (conjoinAll (rest.take n)) := by
        rw [List.take_succ_cons, conjoinAll_cons, conjoin_assoc]
      by_cases abandoned : product.conjoin component = incomparable
      · have one : product.inspectedFrom (component :: rest) = 1 := by
          rw [inspectedFrom, abandoned]
        rw [one]
        refine ⟨by simp, fun shorter earlier => ?_, .inl ?_⟩
        · obtain rfl : shorter = 0 := by omega
          simpa using comparable
        · rw [grown 0, abandoned, incomparable_conjoin]
      · have next : product.inspectedFrom (component :: rest) =
            (product.conjoin component).inspectedFrom rest + 1 := by
          rw [inspectedFrom]
          split
          · contradiction
          · rfl
        obtain ⟨bound, before, stop⟩ := induction abandoned
        rw [next, grown, List.length_cons]
        refine ⟨by omega, fun shorter earlier => ?_, stop.imp_right (congrArg (· + 1))⟩
        cases shorter with
        | zero => simpa using comparable
        | succ shorter =>
            rw [grown]
            exact before shorter (by omega)

theorem stopsAt_inspected (components : List Comparison) :
    StopsAt components (inspected components) := by
  obtain ⟨bound, before, stop⟩ := inspectedFrom_spec (by decide : equal ≠ incomparable) components
  simp only [equal_conjoin] at before stop
  exact ⟨bound, before, stop⟩

/-! ## What a fold computes -/

section Computed

variable {m : Type → Type} [Monad m]

/-- Add components to a product already compared, each computed when its turn comes; those after an
incomparable product are not computed. -/
def computeFrom (product : Comparison) : List (m Comparison) → m Comparison
  | [] => pure product
  | component :: rest => do
      match product.conjoin (← component) with
      | incomparable => pure incomparable
      | extended => extended.computeFrom rest

/-- The product of components that are computed one after the other. -/
def computeAll (components : List (m Comparison)) : m Comparison :=
  equal.computeFrom components

/-- Compare two sequences position by position with a comparison that may have effects. -/
def computePairwise {α : Type} (compare : α → α → m Comparison) (xs ys : List α) : m Comparison :=
  if xs.length = ys.length then computeAll (List.zipWith compare xs ys) else pure incomparable

end Computed

/-- A component that takes down its label when it is computed. -/
def noting {ι : Type} (label : ι) (component : Comparison) : StateM (List ι) Comparison :=
  fun labels => (component, labels ++ [label])

/-- A fold computes the components that it looks at, one after the other, and no others. -/
theorem computeFrom_noting {ι : Type} (product : Comparison) (components : List (ι × Comparison))
    (labels : List ι) :
    product.computeFrom (components.map fun c => noting c.1 c.2) labels =
      (product.conjoinFrom (components.map Prod.snd),
        labels ++
          (components.map Prod.fst).take (product.inspectedFrom (components.map Prod.snd))) := by
  induction components generalizing product labels with
  | nil => exact congrArg (product, ·) (List.append_nil labels).symm
  | cons component rest induction =>
      obtain ⟨label, component⟩ := component
      simp only [List.map_cons, computeFrom, conjoinFrom, inspectedFrom]
      change (match product.conjoin component with
        | incomparable => (pure incomparable : StateM (List ι) Comparison)
        | extended => extended.computeFrom _) (labels ++ [label]) = _
      cases product.conjoin component with
      | incomparable => rfl
      | less | equal | greater => simpa using induction _ (labels ++ [label])

theorem computeAll_noting {ι : Type} (components : List (ι × Comparison)) :
    computeAll (components.map fun c => noting c.1 c.2) [] =
      (conjoinAll (components.map Prod.snd),
        (components.map Prod.fst).take (inspected (components.map Prod.snd))) :=
  computeFrom_noting equal components []

/-- Two sequences of one length are compared at the positions that the fold comes to. -/
theorem computePairwise_noting {α : Type} (compare : α → α → Comparison) {xs ys : List α}
    (aligned : xs.length = ys.length) :
    computePairwise (fun x y => noting (x, y) (compare x y)) xs ys [] =
      (pairwise compare xs ys, (xs.zip ys).take (inspected (List.zipWith compare xs ys))) := by
  let components := (xs.zip ys).map fun pair => (pair, compare pair.1 pair.2)
  have labels : components.map Prod.fst = xs.zip ys := by simp [components, Function.comp_def]
  have outcomes : components.map Prod.snd = List.zipWith compare xs ys := by
    rw [zipWith_eq_map_zip, List.map_map]
    rfl
  have computed : List.zipWith (fun x y => noting (x, y) (compare x y)) xs ys =
      components.map fun c => noting c.1 c.2 := by
    rw [zipWith_eq_map_zip, List.map_map]
    rfl
  rw [computePairwise, pairwise, if_pos aligned, if_pos aligned, computed, computeAll_noting,
    labels, outcomes]

/-- A product is folded from the left and abandoned when it becomes incomparable.  Its outcome is
told by the components that occur, so it is the same in every order and for every division into
parts that are folded on their own.  The fold computes the components of the shortest incomparable
prefix, or all of them if there is none.  Two sequences are compared at the positions of that
prefix, and nowhere if their lengths differ. -/
theorem conjoinAll_folds_prefix (components : List Comparison) :
    (conjoinAll components = equal ↔ ∀ c ∈ components, c = equal) ∧
      (conjoinAll components = less ↔
        (∀ c ∈ components, c = less ∨ c = equal) ∧ less ∈ components) ∧
      (conjoinAll components = greater ↔
        (∀ c ∈ components, c = greater ∨ c = equal) ∧ greater ∈ components) ∧
      (conjoinAll components = incomparable ↔
        incomparable ∈ components ∨ less ∈ components ∧ greater ∈ components) ∧
      (∀ others, others.Perm components → conjoinAll others = conjoinAll components) ∧
      (∀ parts : List (List Comparison), parts.flatten = components →
        conjoinAll (parts.map conjoinAll) = conjoinAll components) ∧
      (∀ count, StopsAt components count ↔ count = inspected components) ∧
      computeAll (components.map fun c => noting c c) [] =
        (conjoinAll components, components.take (inspected components)) ∧
      ∀ {α : Type} (compare : α → α → Comparison) (xs ys : List α),
        let calls := computePairwise (fun x y => noting (x, y) (compare x y)) xs ys []
        calls = (pairwise compare xs ys, (xs.zip ys).take (pairwiseInspected compare xs ys)) ∧
          (xs.length = ys.length →
            StopsAt (List.zipWith compare xs ys) (pairwiseInspected compare xs ys)) ∧
          (xs.length ≠ ys.length → calls = (incomparable, [])) := by
  refine ⟨conjoinAll_eq_equal_iff, conjoinAll_eq_strict_iff (.inl rfl),
    conjoinAll_eq_strict_iff (.inr rfl), conjoinAll_eq_incomparable_iff,
    fun others perm => conjoinAll_perm perm, ?parts, fun count => ⟨?unique, ?stops⟩, ?computed,
    fun compare xs ys => ?calls⟩
  case parts =>
    rintro parts rfl
    exact conjoinAll_flatten parts
  case unique => exact fun stops => stops.unique (stopsAt_inspected components)
  case stops =>
    rintro rfl
    exact stopsAt_inspected components
  case computed =>
    have computed := computeAll_noting (components.map fun c => (c, c))
    simpa [Function.comp_def] using computed
  case calls =>
    by_cases aligned : xs.length = ys.length
    · have calls := computePairwise_noting compare aligned
      rw [pairwiseInspected, if_pos aligned]
      exact ⟨calls, fun _ => stopsAt_inspected _, fun different => absurd aligned different⟩
    · have uncalled : computePairwise (fun x y => noting (x, y) (compare x y)) xs ys [] =
          (incomparable, []) := by
        rw [computePairwise, if_neg aligned]
        rfl
      rw [pairwise, pairwiseInspected, if_neg aligned, if_neg aligned, uncalled]
      exact ⟨rfl, fun same => absurd same aligned, fun _ => rfl⟩

/-- Of the components `<`, `=`, `>`, `<` the last one is not looked at.  In another order the fold
stops earlier, and its outcome is the same. -/
theorem conjoinAll_folds_prefix_disagreement :
    computeAll ([less, equal, greater, less].map fun c => noting c c) [] =
        (incomparable, [less, equal, greater]) ∧
      [greater, less, less, equal].Perm [less, equal, greater, less] ∧
      conjoinAll [greater, less, less, equal] = conjoinAll [less, equal, greater, less] ∧
      inspected [greater, less, less, equal] = 2 ∧
      [[less, equal], [greater, less]].flatten = [less, equal, greater, less] ∧
      conjoinAll [conjoinAll [less, equal], conjoinAll [greater, less]] =
        conjoinAll [less, equal, greater, less] := by
  obtain ⟨-, -, -, -, reordered, divided, -, computed, -⟩ :=
    conjoinAll_folds_prefix [less, equal, greater, less]
  have perm : [greater, less, less, equal].Perm [less, equal, greater, less] := by decide
  exact ⟨computed, perm, reordered _ perm, rfl, rfl, divided [[less, equal], [greater, less]] rfl⟩

end Comparison
end ModelLang
