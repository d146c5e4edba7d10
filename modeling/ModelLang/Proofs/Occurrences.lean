import ModelLang.Proofs.Graph

/-!
# Occurrences of nodes

A path leads from a root to a node below it: it is a list of indices, each of which says to which
child to go on.  A shared node lies at the end of several paths, and it occurs once at each.

What is listed of the nodes below a root is listed with their paths.  The preorder comes from such a
listing: it has every path that leads somewhere, once, and the paths stand in lexicographic order.
-/

namespace ModelLang

section Listings

variable {α : Type}

/-- What is listed of the children of a node, listed for the node itself: a path that leads
somewhere from a child leads there from the node when the index of the child comes before it. -/
def gathered (listings : List (List (List Nat × α))) : List (List Nat × α) :=
  listings.zipIdx.flatMap fun listing => listing.1.map fun entry => (listing.2 :: entry.1, entry.2)

variable {listings : List (List (List Nat × α))}

theorem mem_gathered_iff {path : List Nat} {x : α} :
    (path, x) ∈ gathered listings ↔ ∃ index rest listing,
      path = index :: rest ∧ listings[index]? = some listing ∧ (rest, x) ∈ listing := by
  simp only [gathered, List.mem_flatMap, List.mem_map, List.mem_zipIdx_iff_getElem?, Prod.exists,
    Prod.mk.injEq]
  constructor
  · rintro ⟨listing, index, here, rest, x, member, rfl, rfl⟩
    exact ⟨index, rest, listing, rfl, here, member⟩
  · rintro ⟨index, rest, listing, rfl, here, member⟩
    exact ⟨listing, index, here, rest, x, member, rfl, rfl⟩

theorem map_snd_gathered :
    (gathered listings).map Prod.snd = listings.flatMap (List.map Prod.snd) := by
  calc
    (gathered listings).map Prod.snd =
        listings.zipIdx.flatMap fun listing => listing.1.map Prod.snd := by
      simp [gathered, List.map_flatMap, Function.comp_def]
    _ = (listings.zipIdx.map Prod.fst).flatMap (List.map Prod.snd) :=
      (List.flatMap_map Prod.fst _ _).symm
    _ = listings.flatMap (List.map Prod.snd) := by rw [List.zipIdx_map_fst]

/-- The numbers that are given to the members of a list grow along it. -/
theorem pairwise_zipIdx {β : Type} (xs : List β) (first : Nat) :
    (xs.zipIdx first).Pairwise fun x y => x.2 < y.2 := by
  rw [← List.pairwise_map, List.zipIdx_map_snd]
  exact List.pairwise_lt_range'

/-- A gathered listing is in an order that puts smaller indices first, if the listings of the
children are. -/
theorem pairwise_gathered {Before : List Nat × α → List Nat × α → Prop}
    (aside : ∀ {i j p q x y}, i < j → Before (i :: p, x) (j :: q, y))
    (inside : ∀ {i p q x y}, Before (p, x) (q, y) → Before (i :: p, x) (i :: q, y))
    (each : ∀ listing ∈ listings, listing.Pairwise Before) :
    (gathered listings).Pairwise Before := by
  rw [gathered, List.pairwise_flatMap]
  constructor
  · rintro ⟨listing, index⟩ member
    rw [List.pairwise_map]
    have ordered := each listing (List.fst_mem_of_mem_zipIdx member)
    exact ordered.imp inside
  · refine (pairwise_zipIdx listings 0).imp fun {a b} smaller x xs y ys => ?_
    obtain ⟨x, -, rfl⟩ := List.mem_map.mp xs
    obtain ⟨y, -, rfl⟩ := List.mem_map.mp ys
    exact aside smaller

end Listings

namespace Node

/-- The node at the end of a path. -/
def at? : Node → List Nat → Option Node
  | node, [] => some node
  | node, index :: path => node.children[index]?.bind (at? · path)

/-- The nodes below a root with the paths that lead to them, a node before its children. -/
def occurrences (node : Node) : List (List Nat × Node) :=
  ([], node) :: gathered (node.children.attach.map fun child => occurrences child.1)
termination_by sizeOf node
decreasing_by exact sizeOf_child_lt child.2

theorem occurrences_eq (node : Node) :
    node.occurrences = ([], node) :: gathered (node.children.map occurrences) := by
  rw [occurrences, List.attach_map_val]

/-- The nodes below a root in preorder, each as often as it occurs. -/
def preorder (node : Node) : List Node :=
  node.occurrences.map Prod.snd

theorem preorder_eq (node : Node) : node.preorder = node :: node.children.flatMap preorder := by
  rw [preorder, occurrences_eq, List.map_cons, map_snd_gathered, List.flatMap_map]
  rfl

/-- A node is listed with a path if and only if it lies at the end of the path. -/
theorem mem_occurrences_iff {node found : Node} {path : List Nat} :
    (path, found) ∈ node.occurrences ↔ node.at? path = some found := by
  induction node using Node.induct generalizing path with
  | step node children =>
      rw [occurrences_eq, List.mem_cons]
      cases path with
      | nil => simp [at?, mem_gathered_iff, eq_comm]
      | cons index path =>
          simp only [Prod.mk.injEq, reduceCtorEq, false_and, false_or, mem_gathered_iff,
            List.getElem?_map, at?, Option.bind_eq_some_iff, List.cons.injEq]
          constructor
          · rintro ⟨_, _, listing, ⟨rfl, rfl⟩, isListing, member⟩
            obtain ⟨child, here, rfl⟩ := Option.map_eq_some_iff.mp isListing
            exact ⟨child, here, (children child (List.mem_of_getElem? here)).mp member⟩
          · rintro ⟨child, here, leads⟩
            exact ⟨_, _, _, ⟨rfl, rfl⟩, Option.map_eq_some_iff.mpr ⟨child, here, rfl⟩,
              (children child (List.mem_of_getElem? here)).mpr leads⟩

/-- The paths stand in lexicographic order, so none is listed twice. -/
theorem occurrences_pairwise (node : Node) :
    node.occurrences.Pairwise fun a b => List.Lex (· < ·) a.1 b.1 := by
  induction node using Node.induct with
  | step node children =>
      rw [occurrences_eq, List.pairwise_cons]
      constructor
      · rintro ⟨path, found⟩ member
        obtain ⟨index, rest, -, rfl, -⟩ := mem_gathered_iff.mp member
        exact .nil
      · refine pairwise_gathered .rel .cons fun listing member => ?_
        obtain ⟨child, below, rfl⟩ := List.mem_map.mp member
        exact children child below

end Node

end ModelLang
