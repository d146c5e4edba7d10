import ModelLang.Proofs.Occurrences
import ModelLang.Proofs.Reach
import ModelLang.Proofs.TypeListing.Writer

/-!
# What a type listing shows

A type listing has one entry for each occurrence of a use site or a declaration below an item, where
the parameters of signatures and the targets of use sites do not count.  An occurrence is told by
the path that leads to it and by the declarations that enclose it, so the entries of an item are
listed here with their paths.  The order of the entries is then an order of paths: a declaration
stands before its contents, and a use site after its brackets and parentheses.
-/

namespace ModelLang

namespace Node

/-- A node has an entry in type listings: it is a use site or a declaration. -/
def IsShown : Node → Prop
  | reference _ | dim _ | function _ | method _ => True
  | literal _ | typeRef _ | param _ | list _ | block _ => False

/-- A node occurs below another one, at the end of a path and inside so many of the declarations
below that one.  The path goes through sequences, brackets, parentheses, and the contents of
declarations. -/
inductive Occurs : Node → List Nat → Nat → Node → Prop
  | self (node : Node) : node.Occurs [] 0 node
  | beside {node child found : Node} {index depth : Nat} {path : List Nat} :
      node.locals[index]? = some child → child.Occurs path depth found →
        node.Occurs (index :: path) depth found
  | inside {node contents found : Node} {depth : Nat} {path : List Nat} :
      node.contents? = some contents → contents.Occurs path depth found →
        node.Occurs (0 :: path) (depth + 1) found

/-- The nodes that a type listing goes on to from a node. -/
def within (node : Node) : List Node :=
  node.locals ++ node.contents?.toList

/-- How many more declarations enclose the nodes within a node than enclose the node. -/
def descent (node : Node) : Nat :=
  node.contents?.toList.length

theorem mem_children_of_mem_within {node child : Node} (h : child ∈ node.within) :
    child ∈ node.children := by
  rcases List.mem_append.mp h with here | here
  · exact mem_children_of_mem_locals here
  · exact mem_children_of_contents? (Option.mem_toList.mp here)

theorem within_of_contents? {node contents : Node} (h : node.contents? = some contents) :
    node.within = [contents] ∧ node.descent = 1 := by
  cases node <;> simp_all [within, descent, contents?, locals]

theorem within_of_locals {node child : Node} (h : child ∈ node.locals) :
    node.within = node.locals ∧ node.descent = 0 := by
  cases node <;> simp_all [within, descent, contents?, locals]

/-- A node that occurs at a path with an index is one that occurs below the node at that index. -/
theorem occurs_cons_iff {node found : Node} {index depth : Nat} {path : List Nat} :
    node.Occurs (index :: path) depth found ↔ ∃ child inner,
      node.within[index]? = some child ∧ child.Occurs path inner found ∧
        depth = node.descent + inner := by
  constructor
  · intro occurs
    cases occurs with
    | beside here below =>
        obtain ⟨sameNodes, sameDepth⟩ := within_of_locals (List.mem_of_getElem? here)
        exact ⟨_, _, sameNodes ▸ here, below, by omega⟩
    | inside isContents below =>
        obtain ⟨onlyContents, deeper⟩ := within_of_contents? isContents
        exact ⟨_, _, by rw [onlyContents]; rfl, below, by omega⟩
  · rintro ⟨child, inner, here, below, rfl⟩
    rcases List.mem_append.mp (List.mem_of_getElem? here) with member | member
    · obtain ⟨sameNodes, sameDepth⟩ := within_of_locals member
      rw [sameDepth, Nat.zero_add]
      exact .beside (sameNodes ▸ here) below
    · have isContents := Option.mem_toList.mp member
      obtain ⟨onlyContents, deeper⟩ := within_of_contents? isContents
      rw [onlyContents, List.getElem?_singleton] at here
      obtain rfl : index = 0 := by
        by_contra other
        simp [other] at here
      rw [deeper, Nat.add_comm]
      exact .inside isContents below

end Node

namespace TypeListing

/-- The entry of a declaration, which stands above the entries within it. -/
def opening (depth : Nat) (node : Node) : List (List Nat × Entry) :=
  node.contents?.toList.map fun _ => ([], ⟨depth, node⟩)

/-- The entry of a use site, which stands below the entries within it. -/
def closing (depth : Nat) : Node → List (List Nat × Entry)
  | .reference site => [([], ⟨depth, .reference site⟩)]
  | _ => []

/-- The entries of a node that `depth` declarations enclose, with the paths that lead to their
nodes. -/
def listed (depth : Nat) (node : Node) : List (List Nat × Entry) :=
  opening depth node ++
    gathered (node.within.attach.map fun child => listed (depth + node.descent) child.1) ++
    closing depth node
termination_by sizeOf node
decreasing_by exact Node.sizeOf_child_lt (Node.mem_children_of_mem_within child.2)

theorem listed_eq (depth : Nat) (node : Node) :
    listed depth node = opening depth node ++
      gathered (node.within.map (listed (depth + node.descent))) ++ closing depth node := by
  rw [listed, List.attach_map_val]

/-- Without the paths, the entries are those of the listing. -/
theorem map_snd_listed (depth : Nat) (node : Node) :
    (listed depth node).map Prod.snd = entries depth node := by
  induction node using Node.induct generalizing depth with
  | step node children =>
      have inner : (gathered (node.within.map (listed (depth + node.descent)))).map Prod.snd =
          node.within.flatMap (entries (depth + node.descent)) := by
        rw [map_snd_gathered, List.flatMap_map]
        exact List.flatMap_congr fun child member =>
          children child (Node.mem_children_of_mem_within member) _
      rw [listed_eq, List.map_append, List.map_append, inner]
      cases node with
      | literal | typeRef | param => rfl
      | reference node =>
          rw [entries_reference]
          simp [opening, closing, Node.within, Node.descent, Node.locals, Node.contents?,
            Node.children]
      | list node =>
          rw [entries_list]
          simp [opening, closing, Node.within, Node.descent, Node.locals, Node.contents?,
            Node.children]
      | block node =>
          rw [entries_block]
          simp [opening, closing, Node.within, Node.descent, Node.locals, Node.contents?,
            Node.children]
      | dim | function | method =>
          simp [opening, closing, Node.within, Node.descent, Node.locals, Node.contents?, entries]

/-- The own entry of a node, wherever it stands. -/
theorem mem_own_iff {depth : Nat} {node : Node} {path : List Nat} {entry : Entry} :
    (path, entry) ∈ opening depth node ∨ (path, entry) ∈ closing depth node ↔
      path = [] ∧ entry = ⟨depth, node⟩ ∧ node.IsShown := by
  cases node <;> simp [opening, closing, Node.contents?, Node.IsShown]

/-- The entries of a node show the use sites and the declarations that occur below it. -/
theorem mem_listed_iff {depth : Nat} {node : Node} {path : List Nat} {entry : Entry} :
    (path, entry) ∈ listed depth node ↔ ∃ inner,
      node.Occurs path inner entry.node ∧ entry.depth = depth + inner ∧ entry.node.IsShown := by
  induction node using Node.induct generalizing depth path with
  | step node children =>
      rw [listed_eq, List.mem_append, List.mem_append, or_right_comm, mem_own_iff,
        mem_gathered_iff]
      obtain ⟨entryDepth, found⟩ := entry
      cases path with
      | nil =>
          constructor
          · rintro (⟨-, isOwn, shown⟩ | ⟨_, _, _, isCons, -⟩)
            · obtain ⟨rfl, rfl⟩ := Entry.mk.inj isOwn
              exact ⟨0, .self found, rfl, shown⟩
            · cases isCons
          · rintro ⟨inner, occurs, rfl, shown⟩
            cases occurs
            exact .inl ⟨rfl, rfl, shown⟩
      | cons index path =>
          simp only [reduceCtorEq, false_and, false_or, List.cons.injEq, List.getElem?_map,
            Option.map_eq_some_iff, Node.occurs_cons_iff]
          constructor
          · rintro ⟨_, _, _, ⟨rfl, rfl⟩, ⟨child, here, rfl⟩, member⟩
            have below := Node.mem_children_of_mem_within (List.mem_of_getElem? here)
            obtain ⟨inner, occurs, isDepth, shown⟩ := (children child below).mp member
            exact ⟨_, ⟨child, inner, here, occurs, rfl⟩, isDepth.trans (Nat.add_assoc ..), shown⟩
          · rintro ⟨_, ⟨child, inner, here, occurs, rfl⟩, isDepth, shown⟩
            have below := Node.mem_children_of_mem_within (List.mem_of_getElem? here)
            refine ⟨index, path, _, ⟨rfl, rfl⟩, ⟨child, here, rfl⟩, ?_⟩
            exact (children child below).mpr
              ⟨inner, occurs, isDepth.trans (Nat.add_assoc ..).symm, shown⟩

/-- One entry stands before another one.  What is at a smaller index comes first; a declaration
comes before what is inside of it, and a use site after what is inside of it. -/
inductive Before : List Nat × Entry → List Nat × Entry → Prop
  | aside {i j : Nat} {p q : List Nat} {a b : Entry} : i < j → Before (i :: p, a) (j :: q, b)
  | under {i : Nat} {p q : List Nat} {a b : Entry} :
      Before (p, a) (q, b) → Before (i :: p, a) (i :: q, b)
  | declaration {j : Nat} {q : List Nat} {a b : Entry} :
      a.node.contents?.isSome → Before ([], a) (j :: q, b)
  | useSite {i : Nat} {p : List Nat} {a b : Entry} :
      b.node.kind = .reference → Before (i :: p, a) ([], b)

theorem Before.path_ne {a b : List Nat × Entry} (before : Before a b) : a.1 ≠ b.1 := by
  induction before with
  | aside smaller => exact fun equal => Nat.ne_of_lt smaller (List.cons.inj equal).1
  | under _ induction => exact fun equal => induction (List.cons.inj equal).2
  | declaration | useSite => simp

theorem listed_pairwise (depth : Nat) (node : Node) : (listed depth node).Pairwise Before := by
  induction node using Node.induct generalizing depth with
  | step node children =>
      have inner :
          (gathered (node.within.map (listed (depth + node.descent)))).Pairwise Before := by
        refine pairwise_gathered .aside .under fun listing member => ?_
        obtain ⟨child, below, rfl⟩ := List.mem_map.mp member
        exact children child (Node.mem_children_of_mem_within below) _
      have nested {path : List Nat} {entry : Entry}
          (member : (path, entry) ∈ gathered (node.within.map (listed (depth + node.descent)))) :
          ∃ index rest, path = index :: rest := by
        obtain ⟨index, rest, -, isCons, -⟩ := mem_gathered_iff.mp member
        exact ⟨index, rest, isCons⟩
      rw [listed_eq]
      cases node with
      | reference node =>
          refine List.pairwise_append.mpr ⟨inner, List.pairwise_singleton .., ?_⟩
          rintro ⟨path, entry⟩ member _ isOwn
          obtain ⟨index, rest, rfl⟩ := nested member
          rw [List.mem_singleton.mp isOwn]
          exact .useSite rfl
      | literal | typeRef | param | list | block =>
          exact (List.append_nil _).symm ▸ inner
      | dim | function | method =>
          refine (List.append_nil _).symm ▸ List.pairwise_cons.mpr ⟨?_, inner⟩
          rintro ⟨path, entry⟩ member
          obtain ⟨index, rest, rfl⟩ := nested member
          exact .declaration rfl

end TypeListing

/-- A type listing shows what occurs below its items.  It is the text that one walk over the items
writes, and the listing of two lists of items is the listing of the one and then that of the other.
A line shows the text and the type of a node, after four spaces for each declaration that encloses
the node.  The lines of an item are those of entries with paths.  The first entry is that of the
declaration, no path is listed twice, and what is listed are the use sites and the declarations that
occur below the item, each with the number of declarations that enclose it.  A declaration stands
before its contents, and a use site after its brackets and parentheses. -/
theorem typeListing_shows_occurrences :
    (∀ xs ys : List Item, typeListing (xs ++ ys) = typeListing xs ++ typeListing ys) ∧
      (∀ items, TypeListing.Writer.writeItems items = typeListing items) ∧
      (∀ entry : TypeListing.Entry, entry.line =
        String.ofList (List.replicate (4 * entry.depth) ' ') ++ entry.node.text ++ " : " ++
          entry.node.ty.text ++ "\n") ∧
      ∀ item : Item,
        item.typeListing = item.receiverMark ++ String.join
          ((TypeListing.listed 0 item.node).map fun shown => shown.2.line) ∧
        (TypeListing.listed 0 item.node).head? = some ([], ⟨0, item.node⟩) ∧
        ((TypeListing.listed 0 item.node).map Prod.fst).Nodup ∧
        (∀ path entry, (path, entry) ∈ TypeListing.listed 0 item.node ↔
          item.node.Occurs path entry.depth entry.node ∧ entry.node.IsShown) ∧
        (TypeListing.listed 0 item.node).Pairwise TypeListing.Before := by
  refine ⟨fun xs ys => ?appended, TypeListing.Writer.writeItems_eq, fun _ => rfl, fun item =>
    ⟨?lines, ?first, ?once, fun path entry => ?shown, TypeListing.listed_pairwise 0 item.node⟩⟩
  case appended => rw [typeListing, typeListing, typeListing, List.map_append, String.join_append]
  case lines =>
    rw [Item.typeListing, ← TypeListing.map_snd_listed, List.map_map]
    rfl
  case first =>
    rw [TypeListing.listed_eq]
    cases item <;> rfl
  case once =>
    rw [List.Nodup, List.pairwise_map]
    exact (TypeListing.listed_pairwise 0 item.node).imp TypeListing.Before.path_ne
  case shown =>
    rw [TypeListing.mem_listed_iff]
    simp only [Nat.zero_add]
    constructor
    · rintro ⟨inner, occurs, isDepth, shown⟩
      exact ⟨isDepth ▸ occurs, shown⟩
    · rintro ⟨occurs, shown⟩
      exact ⟨entry.depth, occurs, rfl, shown⟩

namespace TypeListing.NestedDeclaration

def x : Param := ⟨1, "x", ⟨0, .int, {}⟩, {}⟩
def params : Node := .list ⟨2, [.param x], {}⟩
def useX : Reference := ⟨3, none, "x", none, none, .int, some (.param x), {}⟩
def inner : Signature .function := ⟨5, "inner", params, .block ⟨4, [.reference useX], {}⟩, {}⟩
def call : Reference :=
  ⟨7, none, "inner", none, some (.list ⟨6, [.reference useX], {}⟩), .int,
    some (.function inner), {}⟩
def run : Signature .method :=
  ⟨9, "run", params, .block ⟨8, [.function inner, .reference call], {}⟩, {}⟩
def n : Dim := ⟨11, "n", .literal ⟨10, .int 10, {}⟩, {}⟩

theorem listed_run : listed 0 (.method run) =
    [([], ⟨0, .method run⟩), ([0, 0], ⟨1, .function inner⟩), ([0, 0, 0, 0], ⟨2, .reference useX⟩),
      ([0, 1, 0, 0], ⟨1, .reference useX⟩), ([0, 1], ⟨1, .reference call⟩)] := by
  simp [listed_eq, opening, closing, gathered, Node.within, Node.descent, Node.locals,
    Node.contents?, run, inner, call, useX]

end TypeListing.NestedDeclaration

open TypeListing TypeListing.NestedDeclaration in
/-- The body of a method declares a function `inner` and calls it.  One use site of `x` stands in
the body of `inner` and in the parentheses of the call, and has a line for each, the first of them
inside of one more declaration. -/
theorem typeListing_shows_occurrences_nestedDeclaration :
    Writer.writeItems [.method "model" run, .dim n] =
        "model: method run(x:Int) \x7bfunction inner(x:Int) \x7bx\x7d; inner(x)\x7d" ++
          " : (Int) -> Int\n" ++
        "    function inner(x:Int) \x7bx\x7d : (Int) -> Int\n" ++
        "        x : Int\n" ++
        "    x : Int\n" ++
        "    inner(x) : Int\n" ++
        "dim n[10] : Int\n" ∧
      ((listed 0 (.method run)).tail.map fun shown => (shown.1, shown.2.line)) =
        [([0, 0], "    function inner(x:Int) \x7bx\x7d : (Int) -> Int\n"),
          ([0, 0, 0, 0], "        x : Int\n"), ([0, 1, 0, 0], "    x : Int\n"),
          ([0, 1], "    inner(x) : Int\n")] ∧
      (Node.method run).Occurs [0, 0, 0, 0] 2 (.reference useX) ∧
      (Node.method run).Occurs [0, 1, 0, 0] 1 (.reference useX) ∧
      Before ([0, 1, 0, 0], ⟨1, .reference useX⟩) ([0, 1], ⟨1, .reference call⟩) := by
  obtain ⟨appended, written, line, shows⟩ := typeListing_shows_occurrences
  obtain ⟨-, -, -, shown, ordered⟩ := shows (.method "model" run)
  rw [Item.node, listed_run] at ordered
  refine ⟨?text, ?lines, ?body, ?parens, ?after⟩
  case text =>
    rw [written, ← List.singleton_append, appended]
    decide +kernel
  case lines =>
    simp only [listed_run, List.tail_cons, List.map_cons, List.map_nil, line]
    decide +kernel
  case body => exact ((shown _ ⟨2, _⟩).mp (by simp [Item.node, listed_run])).1
  case parens => exact ((shown _ ⟨1, _⟩).mp (by simp [Item.node, listed_run])).1
  case after =>
    exact List.pairwise_iff_getElem.mp ordered 3 4 (by decide) (by decide) (by decide)

end ModelLang
