import ModelLang.Node.Text
import ModelLang.Proofs.Order.Copies
import ModelLang.Proofs.Order.Product

/-!
# Equality and spelling

Two unresolved use sites are equal if they have one receiver, one name and equal children.  Their
children are compared as nodes are, so what the order does not see of a child does not matter to
them: how a leaf that stands for its type is written, the sign of a zero, and the name of a
declaration.  These are all the differences there are.  Equal nodes are written alike, unless two
nodes at one place in them are merged in one of these three ways.
-/

namespace ModelLang

/-- Items at the same positions have one relation at all positions, or the other one at some. -/
theorem forall₂_or_exists {α : Type} {r s : α → α → Prop} {xs ys : List α}
    (h : List.Forall₂ (fun x y => r x y ∨ s x y) xs ys) :
    List.Forall₂ r xs ys ∨ ∃ pair ∈ xs.zip ys, s pair.1 pair.2 := by
  induction h with
  | nil => exact .inl .nil
  | cons head _ induction =>
      rcases head with head | found
      · rcases induction with tail | ⟨pair, member, found⟩
        · exact .inl (.cons head tail)
        · exact .inr ⟨pair, List.mem_cons_of_mem _ member, found⟩
      · exact .inr ⟨_, List.mem_cons_self, found⟩

/-! ## Equal values -/

namespace Binary64

/-- One of the two words is `0.0` and the other one is `-0.0`. -/
def OppositeZeros (x y : Binary64) : Prop :=
  x.isZero = true ∧ y.isZero = true ∧ x.isNegative ≠ y.isNegative

theorem text_of_isNaN {x : Binary64} (nan : x.isNaN = true) : x.text = "NaN" := by
  rw [text, if_pos nan]

theorem text_of_isZero {x : Binary64} (zero : x.isZero = true) :
    x.text = (if x.isNegative then "-" else "") ++ "0.0" := by
  simp only [isZero, Bool.and_eq_true, beq_iff_eq] at zero
  have units : x.units = 0 := by simp [Binary64.units, significand, zero]
  have nan : x.isNaN = false := by simp [isNaN, zero]
  have infinite : x.isInfinite = false := by simp [isInfinite, zero]
  have magnitude : x.magnitudeText = "0.0" := by
    simp only [magnitudeText, isWhole, units, Nat.zero_mod, Nat.zero_div, BEq.rfl, if_true]
    rfl
  rw [text, nan, infinite, magnitude]
  rfl

/-- Equal reals are written alike, the two zeros apart. -/
theorem text_eq_or_of_same {x y : Binary64} (same : x.same y = true) :
    x.text = y.text ∨ x.OppositeZeros y := by
  simp only [Binary64.same, Bool.or_eq_true, Bool.and_eq_true, beq_iff_eq] at same
  rcases same with (⟨nan, nan'⟩ | ⟨zero, zero'⟩) | bits
  · rw [text_of_isNaN nan, text_of_isNaN nan']
    exact .inl rfl
  · by_cases sign : x.isNegative = y.isNegative
    · rw [text_of_isZero zero, text_of_isZero zero', sign]
      exact .inl rfl
    · exact .inr ⟨zero, zero', sign⟩
  · obtain rfl : x = y := by
      cases x
      cases y
      simp_all
    exact .inl rfl

end Binary64

/-- Equal values are written alike, the two zeros apart. -/
theorem Value.text_eq_or_of_same {u v : Value} (same : u.same v = true) :
    u.text = v.text ∨ ∃ x y, u = .real x ∧ v = .real y ∧ x.OppositeZeros y := by
  cases u with
  | int u =>
      cases v with
      | int v =>
          obtain rfl : u = v := by simpa [Value.same] using same
          exact .inl rfl
      | _ => cases same
  | real x =>
      cases v with
      | real y =>
          rcases Binary64.text_eq_or_of_same same with alike | zeros
          · exact .inl alike
          · exact .inr ⟨x, y, rfl, rfl, zeros⟩
      | _ => cases same
  | bool u =>
      cases v with
      | bool v =>
          obtain rfl : u = v := by simpa [Value.same] using same
          exact .inl rfl
      | _ => cases same

/-- Equal leaves hold equal values, or stand for one type. -/
theorem Leaf.cases_of_compare_eq {x y : Leaf} (equal : x.compare y = .equal) :
    (∃ u v, x = .value u ∧ y = .value v ∧ u.same v = true) ∨
      ∃ ty, x = .ofType ty ∧ y = .ofType ty := by
  cases x with
  | value u =>
      cases y with
      | value v =>
          have same := Comparison.isLE_iff.mpr (.inr equal)
          rw [compare, Comparison.isLE_equalIf] at same
          exact .inl ⟨u, v, rfl, rfl, same⟩
      | ofType ty =>
          rw [compare] at equal
          split at equal <;> cases equal
  | ofType ty =>
      cases y with
      | value v =>
          rw [compare] at equal
          split at equal <;> cases equal
      | ofType ty' =>
          obtain rfl : ty = ty' := Ty.eq_of_compare_eq equal
          exact .inr ⟨ty, rfl, rfl⟩

/-- Equal outlines are of one form, and what is in them is equal. -/
theorem Outline.cases_of_compareWith_eq {rule : Node → Node → Comparison} {a b : Outline}
    (equal : a.compareWith rule b = .equal) :
    (∃ x y, a = .leaf x ∧ b = .leaf y ∧ x.compare y = .equal) ∨
      (∃ receiver name brackets parens brackets' parens',
        a = .pending receiver name brackets parens ∧
        b = .pending receiver name brackets' parens' ∧
        compareWith.sameBy rule brackets brackets' = true ∧
        compareWith.sameBy rule parens parens' = true) ∨
      ∃ kind parts parts', a = .product kind parts ∧ b = .product kind parts' ∧
        Comparison.pairwise rule parts parts' = .equal := by
  cases a with
  | leaf x =>
      cases b with
      | leaf y => exact .inl ⟨x, y, rfl, rfl, equal⟩
      | pending | product => cases equal
  | pending receiver name brackets parens =>
      cases b with
      | pending receiver' name' brackets' parens' =>
          have alike := Comparison.isLE_iff.mpr (.inr equal)
          simp only [compareWith, Comparison.isLE_equalIf, Bool.and_eq_true, beq_iff_eq] at alike
          obtain ⟨⟨⟨rfl, rfl⟩, brackets_same⟩, parens_same⟩ := alike
          exact .inr (.inl ⟨_, _, _, _, _, _, rfl, rfl, brackets_same, parens_same⟩)
      | leaf | product => cases equal
  | product kind parts =>
      cases b with
      | product kind' parts' =>
          rw [compareWith] at equal
          split at equal
          · next kinds =>
            subst kinds
            exact .inr (.inr ⟨kind, parts, parts', rfl, rfl, equal⟩)
          · cases equal
      | leaf | pending => cases equal

namespace Node

/-! ## What makes nodes equal -/

/-- What equality of two nodes says of them. -/
inductive EqualBy : Node → Node → Prop
  | itself (node : Node) : EqualBy node node
  | values {a b : Literal} : a.value.same b.value = true → EqualBy (literal a) (literal b)
  | types {a b : Node} {ty : Ty} :
      a.leaf? = some (.ofType ty) → b.leaf? = some (.ofType ty) → EqualBy a b
  | spelling {a b : Reference} :
      a.receiver = b.receiver → a.name = b.name →
        List.Forall₂ (· ≈ ·) a.brackets.toList b.brackets.toList →
        List.Forall₂ (· ≈ ·) a.parens.toList b.parens.toList →
          EqualBy (reference a) (reference b)
  | children {a b : Node} :
      a.kind = b.kind → a.kind.isLeaf = false → List.Forall₂ (· ≈ ·) a.children b.children →
        EqualBy a b

theorem exists_literal_of_outline {node : Node} {value : Value}
    (h : node.outline = .leaf (.value value)) : ∃ a : Literal, node = literal a ∧ a.value = value := by
  cases node with
  | literal a =>
      cases h
      exact ⟨a, rfl, rfl⟩
  | reference site =>
      rw [outline] at h
      split at h <;> cases h
  | _ => cases h

theorem exists_reference_of_outline {node : Node} {receiver : Option String} {name : String}
    {brackets parens : Option Node} (h : node.outline = .pending receiver name brackets parens) :
    ∃ a : Reference, node = reference a ∧ a.receiver = receiver ∧ a.name = name ∧
      a.brackets = brackets ∧ a.parens = parens := by
  cases node with
  | reference a =>
      rw [outline] at h
      split at h <;> cases h
      exact ⟨a, rfl, rfl, rfl, rfl, rfl⟩
  | _ => cases h

theorem compound_of_outline {node : Node} {kind : Kind} {parts : List Node}
    (h : node.outline = .product kind parts) :
    node.kind = kind ∧ node.kind.isLeaf = false ∧ node.children = parts := by
  cases leaf : node.kind.isLeaf with
  | true => exact absurd h (outline_ne_product leaf kind parts)
  | false =>
      rw [outline_of_compound leaf] at h
      cases h
      exact ⟨rfl, rfl, rfl⟩

theorem forall₂_toList_of_sameBy {child child' : Option Node}
    (same : Outline.compareWith.sameBy compare child child' = true) :
    List.Forall₂ (· ≈ ·) child.toList child'.toList := by
  cases child <;> cases child' <;> simp_all [Outline.compareWith.sameBy]
  exact same

theorem isSome_eq_of_forall₂ {child child' : Option Node}
    (alike : List.Forall₂ (· ≈ ·) child.toList child'.toList) : child.isSome = child'.isSome := by
  cases child <;> cases child' <;> first | rfl | cases alike

theorem equalBy_of_equiv (graph : Graph) {a b : Node} (ha : a ∈ graph) (hb : b ∈ graph)
    (equal : a ≈ b) : EqualBy a b := by
  by_cases same : a.id = b.id
  · obtain rfl := graph.eq_of_id ha hb same
    exact .itself a
  have outcome : a.outline.compareWith compare b.outline = .equal := by
    rw [← compare_of_ne same]
    exact Comparison.isEq_iff.mp equal
  rcases Outline.cases_of_compareWith_eq outcome with ⟨x, y, left, right, leaves⟩ |
    ⟨receiver, name, _, _, _, _, left, right, brackets, parens⟩ |
    ⟨kind, parts, parts', left, right, products⟩
  · rcases Leaf.cases_of_compare_eq leaves with ⟨u, v, rfl, rfl, alike⟩ | ⟨ty, rfl, rfl⟩
    · obtain ⟨a, rfl, rfl⟩ := exists_literal_of_outline left
      obtain ⟨b, rfl, rfl⟩ := exists_literal_of_outline right
      exact .values alike
    · exact .types (leaf?_eq_some_of_outline left) (leaf?_eq_some_of_outline right)
  · obtain ⟨a, rfl, rfl, rfl, rfl, rfl⟩ := exists_reference_of_outline left
    obtain ⟨b, rfl, receivers, names, rfl, rfl⟩ := exists_reference_of_outline right
    exact .spelling receivers.symm names.symm (forall₂_toList_of_sameBy brackets)
      (forall₂_toList_of_sameBy parens)
  · obtain ⟨rfl, compound, rfl⟩ := compound_of_outline left
    obtain ⟨kinds, -, rfl⟩ := compound_of_outline right
    exact .children kinds.symm compound
      ((Comparison.isEq_pairwise _ _).mp (Comparison.isEq_iff.mpr products))

/-! ## What equal nodes show -/

/-- Two parts stand at one place in two nodes. -/
inductive Facing : Node → Node → Node → Node → Prop
  | itself (a b : Node) : Facing a b a b
  | child {a b c d x y : Node} :
      (c, d) ∈ a.children.zip b.children → Facing c d x y → Facing a b x y

/-- The name that a declaration is written with. -/
def declaredName? : Node → Option String
  | dim node => some node.name
  | function node => some node.name
  | method node => some node.name
  | _ => none

/-- Nodes that are written differently in what the order does not see of them. -/
inductive Merged : Node → Node → Prop
  /-- Leaves that stand for one type: written types, parameters and resolved use sites. -/
  | types {a b : Node} {ty : Ty} :
      a.leaf? = some (.ofType ty) → b.leaf? = some (.ofType ty) → a.text ≠ b.text → Merged a b
  | zeros {a b : Literal} {x y : Binary64} :
      a.value = .real x → b.value = .real y → x.OppositeZeros y → Merged (literal a) (literal b)
  /-- Declarations of one kind. -/
  | names {a b : Node} : a.kind = b.kind → a.declaredName? ≠ b.declaredName? → Merged a b

/-- Equal parts at one place in the two nodes are written differently. -/
def MergedWithin (a b : Node) : Prop :=
  ∃ x y, Facing a b x y ∧ x ≈ y ∧ Merged x y

theorem text_reference (site : Reference) :
    (reference site).text =
      (site.receiver.map (· ++ ".")).getD "" ++ site.name ++
        enclosedText "[" "]" site.brackets ++ enclosedText "(" ")" site.parens := by
  rw [text]

theorem enclosedText_congr {opening closing : String} {child child' : Option Node}
    (alike : child.toList.map text = child'.toList.map text) :
    enclosedText opening closing child = enclosedText opening closing child' := by
  cases child <;> cases child' <;> simp_all [enclosedText]

/-- Compound nodes of one kind and name are written alike if their children are. -/
theorem text_eq_of_children {a b : Node} (kinds : a.kind = b.kind)
    (compound : a.kind.isLeaf = false) (names : a.declaredName? = b.declaredName?)
    (children : a.children.map text = b.children.map text) : a.text = b.text := by
  cases a <;> cases b <;> cases kinds <;> try cases compound
  case list.list a b | block.block a b =>
      simp only [Node.children] at children
      simp only [text, itemTexts_eq_map, children]
  case dim.dim a b | function.function a b | method.method a b =>
      simp only [Node.children, List.map_cons, List.map_nil, List.cons.injEq] at children
      simp only [declaredName?, Option.some.injEq] at names
      simp only [text, children, names]

section Graph

variable (graph : Graph)
include graph

/-- Equal nodes are written alike, unless equal parts at one place in them are written differently in
what the order does not see. -/
theorem text_eq_or_mergedWithin {a b : Node} (ha : a ∈ graph) (hb : b ∈ graph) (equal : a ≈ b) :
    a.text = b.text ∨ MergedWithin a b := by
  induction a using induct generalizing b with
  | step a children_alike =>
      have within (children : List.Forall₂ (· ≈ ·) a.children b.children) :
          a.children.map text = b.children.map text ∨ MergedWithin a b := by
        have alike := forall₂_imp_of_mem children fun x hx y hy equal =>
          children_alike x hx (graph.mem_child ha hx) (graph.mem_child hb hy) equal
        rcases forall₂_or_exists alike with texts | ⟨⟨c, d⟩, member, x, y, facing, merged⟩
        · left
          rw [← List.forall₂_eq_eq_eq, List.forall₂_map_left_iff, List.forall₂_map_right_iff]
          exact texts
        · exact .inr ⟨x, y, .child member facing, merged⟩
      cases equalBy_of_equiv graph ha hb equal with
      | itself => exact .inl rfl
      | values same =>
          rcases Value.text_eq_or_of_same same with alike | ⟨x, y, left, right, zeros⟩
          · exact .inl alike
          · exact .inr ⟨_, _, .itself _ _, equal, .zeros left right zeros⟩
      | types left right =>
          by_cases alike : a.text = b.text
          · exact .inl alike
          · exact .inr ⟨a, b, .itself a b, equal, .types left right alike⟩
      | @spelling a b receivers names brackets parens =>
          rcases within (List.rel_append brackets parens) with texts | merged
          · left
            simp only [children, List.map_append] at texts
            have lengths := brackets.length_eq
            obtain ⟨brackets, parens⟩ := List.append_inj texts (by simpa using lengths)
            rw [text_reference, text_reference, receivers, names, enclosedText_congr brackets,
              enclosedText_congr parens]
          · exact .inr merged
      | children kinds compound children =>
          by_cases names : a.declaredName? = b.declaredName?
          · exact (within children).imp_left (text_eq_of_children kinds compound names)
          · exact .inr ⟨a, b, .itself a b, equal, .names kinds names⟩

/-- Unresolved use sites that are equal have one receiver and one name, and brackets and parentheses
in the same places.  They are written alike, unless equal parts at one place in their brackets or
parentheses are written differently: two leaves that stand for one type, the two zeros, or two
declarations of one kind under different names. -/
theorem spelling_of_equiv {site site' : Reference} (inside : reference site ∈ graph)
    (inside' : reference site' ∈ graph) (pending : site.target = none)
    (pending' : site'.target = none) (equal : reference site ≈ reference site') :
    site.receiver = site'.receiver ∧ site.name = site'.name ∧
      site.brackets.isSome = site'.brackets.isSome ∧ site.parens.isSome = site'.parens.isSome ∧
      ((reference site).text = (reference site').text ∨
        ∃ pair ∈ (reference site).children.zip (reference site').children,
          MergedWithin pair.1 pair.2) := by
  have unseen : (reference site).leaf? = none := by
    simp [leaf?, ReferenceOf.isResolved, pending]
  obtain ⟨receivers, names, brackets, parens⟩ :
      site.receiver = site'.receiver ∧ site.name = site'.name ∧
        site.brackets.isSome = site'.brackets.isSome ∧
        site.parens.isSome = site'.parens.isSome := by
    cases equalBy_of_equiv graph inside inside' equal with
    | itself => exact ⟨rfl, rfl, rfl, rfl⟩
    | types left => simp [unseen] at left
    | spelling receivers names brackets parens =>
        refine ⟨receivers, names, ?_, ?_⟩
        · exact isSome_eq_of_forall₂ brackets
        · exact isSome_eq_of_forall₂ parens
    | children _ compound => cases compound
  refine ⟨receivers, names, brackets, parens, ?_⟩
  rcases text_eq_or_mergedWithin graph inside inside' equal with alike | ⟨x, y, facing, merged⟩
  · exact .inl alike
  right
  cases facing with
  | child member facing => exact ⟨_, member, x, y, facing, merged⟩
  | itself =>
      -- An unresolved use site is compared by its spelling alone.
      cases merged.2 with
      | types left => simp [unseen] at left
      | names _ names => exact absurd rfl names

end Graph

/-- The two zeros are equal, and so are calls with them as arguments. -/
example :
    let zero (id : NodeId) (bits : UInt64) : Node := .literal ⟨id, .real ⟨bits⟩, {}⟩
    let call (id : NodeId) (argument : Node) : Node :=
      .reference ⟨id, none, "f", none, some argument, .unknown, none, {}⟩
    call 2 (zero 0 0) ≈ call 3 (zero 1 0x8000000000000000) := by
  decide +kernel

/-! ## Unresolved calls with resolved arguments -/

namespace ResolvedArguments

def x : Param := ⟨1, "x", ⟨0, .int, {}⟩, {}⟩
def y : Param := ⟨2, "y", ⟨0, .int, {}⟩, {}⟩
def useX : Node := .reference ⟨3, none, "x", none, none, .int, some (.param x), {}⟩
def useY : Node := .reference ⟨4, none, "y", none, none, .int, some (.param y), {}⟩
def argumentX : Node := .list ⟨5, [useX], {}⟩
def argumentY : Node := .list ⟨6, [useY], {}⟩

/-- The call `g(x)` of an unknown `g`, as its resolution leaves it. -/
def callX : Reference := ⟨7, none, "g", none, some argumentX, .unknown, none, { line := 1 }⟩

/-- The call `g(y)` of an unknown `g`, as its resolution leaves it. -/
def callY : Reference := ⟨8, none, "g", none, some argumentY, .unknown, none, { line := 2 }⟩

def graph : Graph :=
  .ofList [useX, useY, argumentX, argumentY, reference callX, reference callY]
    (by simp [useX, useY, argumentX, argumentY, callX, callY, children]) (by decide)

theorem mem_graph : reference callX ∈ graph ∧ reference callY ∈ graph := by
  constructor <;>
    change _ ∈ [useX, useY, argumentX, argumentY, reference callX, reference callY] <;> simp

end ResolvedArguments

open ResolvedArguments in
/-- The two calls are equal, since their arguments are of one type, and they are written
differently. -/
theorem spelling_of_equiv_resolvedArguments :
    (reference callX ∈ graph ∧ reference callY ∈ graph) ∧
      (callX.target = none ∧ callY.target = none) ∧ reference callX ≈ reference callY ∧
      (reference callX).text ≠ (reference callY).text ∧ callX.name = callY.name ∧
      MergedWithin argumentX argumentY := by
  obtain ⟨hx, hy⟩ := mem_graph
  have equal : reference callX ≈ reference callY := by decide
  have different : (reference callX).text ≠ (reference callY).text := by decide +kernel
  obtain ⟨-, names, -, -, spelled⟩ := spelling_of_equiv graph hx hy rfl rfl equal
  obtain ⟨pair, member, merged⟩ := spelled.resolve_left different
  obtain rfl := List.mem_singleton.mp member
  exact ⟨mem_graph, ⟨rfl, rfl⟩, equal, different, names, merged⟩

end Node
end ModelLang
