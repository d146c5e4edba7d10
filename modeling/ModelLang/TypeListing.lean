import ModelLang.Item

/-!
# Type listings

A type listing shows the type of every declaration and use site of a list of items, one on a line.
The contents of a declaration stand below it, indented by four more spaces; a use site stands
below the use sites of its own brackets and arguments.  Parameters and targets are not listed.
-/

namespace ModelLang

namespace TypeListing

/-- One line of a listing. -/
structure Entry where
  /-- How many declarations enclose the node. -/
  depth : Nat
  /-- The node whose type is shown. -/
  node : Node

/-- The line of an entry. -/
def Entry.line (entry : Entry) : String :=
  String.ofList (List.replicate (4 * entry.depth) ' ') ++ entry.node.text ++ " : " ++
    entry.node.ty.text ++ "\n"

mutual

/-- The entries of a node that `depth` declarations enclose. -/
def entries (depth : Nat) : Node → List Entry
  | .literal _ => []
  | .typeRef _ => []
  | .param _ => []
  | .reference ⟨id, receiver, name, brackets, parens, ty, target, span⟩ =>
      childEntries depth brackets ++ childEntries depth parens ++
        [⟨depth, .reference ⟨id, receiver, name, brackets, parens, ty, target, span⟩⟩]
  | .list ⟨_, items, _⟩ => itemEntries depth items
  | .block ⟨_, items, _⟩ => itemEntries depth items
  | .dim ⟨id, name, extent, span⟩ =>
      ⟨depth, .dim ⟨id, name, extent, span⟩⟩ :: entries (depth + 1) extent
  | .function ⟨id, name, params, body, span⟩ =>
      ⟨depth, .function ⟨id, name, params, body, span⟩⟩ :: entries (depth + 1) body
  | .method ⟨id, name, params, body, span⟩ =>
      ⟨depth, .method ⟨id, name, params, body, span⟩⟩ :: entries (depth + 1) body

/-- The entries of the nodes of a sequence, in order. -/
def itemEntries (depth : Nat) : List Node → List Entry
  | [] => []
  | item :: items => entries depth item ++ itemEntries depth items

/-- The entries of a child that may be missing. -/
def childEntries (depth : Nat) : Option Node → List Entry
  | none => []
  | some child => entries depth child

end

end TypeListing

/-- The lines of an item; the first one starts with the receiver of a method. -/
def Item.typeListing (item : Item) : String :=
  item.receiverMark ++ String.join ((TypeListing.entries 0 item.node).map TypeListing.Entry.line)

/-- The lines of items, in order. -/
def typeListing (items : List Item) : String :=
  String.join (items.map Item.typeListing)

end ModelLang
