import ModelLang.Proofs.Order.Copies
import ModelLang.TypeListing

/-!
# Type listings and identities

A type listing shows texts and types, so items that differ only in the identities of their nodes
are listed alike.
-/

namespace ModelLang

namespace TypeListing

theorem itemEntries_eq_flatMap (depth : Nat) (items : List Node) :
    itemEntries depth items = items.flatMap (entries depth) := by
  induction items with
  | nil => rfl
  | cons item items induction => rw [itemEntries, induction, List.flatMap_cons]

theorem childEntries_eq_flatMap (depth : Nat) (child : Option Node) :
    childEntries depth child = child.toList.flatMap (entries depth) := by
  cases child <;> simp [childEntries]

/-- A use site stands below the entries of its children. -/
theorem entries_reference (depth : Nat) (site : Reference) :
    entries depth (.reference site) =
      (Node.reference site).children.flatMap (entries depth) ++ [⟨depth, .reference site⟩] := by
  rw [Node.children, List.flatMap_append, ← childEntries_eq_flatMap, ← childEntries_eq_flatMap]
  rfl

theorem entries_list (depth : Nat) (node : Sequence) :
    entries depth (.list node) = (Node.list node).children.flatMap (entries depth) :=
  itemEntries_eq_flatMap depth node.items

theorem entries_block (depth : Nat) (node : Sequence) :
    entries depth (.block node) = (Node.block node).children.flatMap (entries depth) :=
  itemEntries_eq_flatMap depth node.items

variable {f : NodeId → NodeId}

/-- An entry with other identities. -/
def Entry.rename (f : NodeId → NodeId) (entry : Entry) : Entry :=
  { entry with node := entry.node.rename f }

/-- Identities are not shown. -/
theorem Entry.line_rename (entry : Entry) : (entry.rename f).line = entry.line := by
  rw [line, line, rename, Node.text_rename, Node.ty_rename]

/-- A node with other identities has the same entries with other identities. -/
theorem entries_rename (depth : Nat) (node : Node) :
    entries depth (node.rename f) = (entries depth node).map (Entry.rename f) := by
  induction node using Node.induct generalizing depth with
  | step node children =>
      have inner (depth : Nat) : (node.rename f).children.flatMap (entries depth) =
          (node.children.flatMap (entries depth)).map (Entry.rename f) := by
        rw [Node.children_rename, List.flatMap_map, List.map_flatMap]
        exact List.flatMap_congr fun child inside => children child inside depth
      cases node with
      | literal | typeRef | param => rfl
      | reference site =>
          have own : Entry.rename f ⟨depth, .reference site⟩ =
              ⟨depth, .reference (site.rename f)⟩ := by
            rw [Entry.rename, Node.rename_reference]
          rw [Node.rename_reference] at inner ⊢
          rw [entries_reference, entries_reference, inner, List.map_append, List.map_singleton, own]
      | list node =>
          rw [Node.rename_list] at inner ⊢
          rw [entries_list, entries_list, inner]
      | block node =>
          rw [Node.rename_block] at inner ⊢
          rw [entries_block, entries_block, inner]
      | dim node =>
          have extent := children node.extent (by simp [Node.children]) (depth + 1)
          exact congrArg (_ :: ·) extent
      | function node | method node =>
          have body := children node.body (by simp [Node.children]) (depth + 1)
          exact congrArg (_ :: ·) body

end TypeListing

/-- Items that differ in identities only are listed alike. -/
theorem Item.typeListing_rename {f : NodeId → NodeId} (item : Item) :
    (item.rename f).typeListing = item.typeListing := by
  have node_rename : (item.rename f).node = item.node.rename f := by cases item <;> rfl
  have mark_rename : (item.rename f).receiverMark = item.receiverMark := by cases item <;> rfl
  have lines : TypeListing.Entry.line ∘ TypeListing.Entry.rename f = TypeListing.Entry.line :=
    funext TypeListing.Entry.line_rename
  rw [typeListing, typeListing, node_rename, mark_rename, TypeListing.entries_rename, List.map_map,
    lines]

/-- Lists of items that are the same up to identities are listed alike. -/
theorem typeListing_congr {f : NodeId → NodeId} {items items' : List Item}
    (alike : items.map (Item.rename f) = items'.map (Item.rename f)) :
    typeListing items = typeListing items' := by
  have renamed (items : List Item) :
      (items.map (Item.rename f)).map Item.typeListing = items.map Item.typeListing := by
    rw [List.map_map]
    exact List.map_congr_left fun item _ => item.typeListing_rename
  rw [typeListing, typeListing, ← renamed, alike, renamed]

end ModelLang
