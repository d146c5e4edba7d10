import ModelLang.Node.Traversal
import ModelLang.Proofs.TypeListing

/-!
# Writing a type listing

A type listing can be written in one walk that appends lines to a text and counts the declarations
that it is inside of.  The count is raised before the contents of a declaration are walked and
lowered after, so every walk leaves it as it was, and what is written below a node is the lines of
the entries of that node.
-/

namespace ModelLang

namespace TypeListing

/-- A text that is being written. -/
structure Writer where
  /-- What is written. -/
  text : String := ""
  /-- How many declarations enclose the node whose line is written next. -/
  depth : Nat := 0

namespace Writer

/-- Write a text at the end. -/
def write (text : String) : StateM Writer Unit :=
  modify fun writer => { writer with text := writer.text ++ text }

/-- Write the line of a node. -/
def writeLine (node : Node) : StateM Writer Unit := do
  let writer ← get
  write (Entry.line ⟨writer.depth, node⟩)

/-- Do something inside one more declaration. -/
def nested (walk : StateM Writer Node) : StateM Writer Node := do
  modify fun writer => { writer with depth := writer.depth + 1 }
  let node ← walk
  modify fun writer => { writer with depth := writer.depth - 1 }
  pure node

/-- The walk that writes the lines.  A use site is written after its brackets and its parentheses,
a declaration before its contents; the parameters of a signature are not walked. -/
def writing : Traversal (StateM Writer) :=
  { Traversal.keeping with
    reference := fun node brackets parens => do
      discard (Traversal.keeping.reference node brackets parens)
      writeLine (.reference node)
      pure (.reference node)
    dim := fun node extent => do
      writeLine (.dim node)
      nested (Traversal.keeping.dim node extent)
    function := fun node _ body => do
      writeLine (.function node)
      nested do
        discard (body ())
        pure (.function node)
    method := fun node _ body => do
      writeLine (.method node)
      nested do
        discard (body ())
        pure (.method node) }

/-- Write the lines of an item, after the receiver of a method. -/
def writeItem (item : Item) : StateM Writer Unit := do
  if let some receiver := item.receiver? then
    write (receiver ++ ": ")
  discard (writing.visit item.node)

/-- The text that is written for items. -/
def writeItems (items : List Item) : String :=
  (forM items writeItem {}).2.text

/-- A writer that has also written some entries. -/
def add (writer : Writer) (entries : List Entry) : Writer :=
  { writer with text := writer.text ++ String.join (entries.map Entry.line) }

@[simp]
theorem add_nil (writer : Writer) : writer.add [] = writer := by
  simp [add]

@[simp]
theorem add_add (writer : Writer) (xs ys : List Entry) :
    (writer.add xs).add ys = writer.add (xs ++ ys) := by
  simp [add, String.append_assoc]

@[simp]
theorem depth_add (writer : Writer) (xs : List Entry) : (writer.add xs).depth = writer.depth :=
  rfl

theorem writeLine_eq (node : Node) (writer : Writer) :
    writeLine node writer = ((), writer.add [⟨writer.depth, node⟩]) := by
  have written :
      String.join [Entry.line ⟨writer.depth, node⟩] = Entry.line ⟨writer.depth, node⟩ := by
    simp
  rw [add, List.map_singleton, written]
  rfl

/-- A walk writes the entries of a node, wherever it starts, and ends as deep as it started. -/
def Writes (walk : StateM Writer Node) (node : Node) : Prop :=
  ∀ writer, (walk writer).2 = writer.add (entries writer.depth node)

/-- A walk inside one more declaration writes its entries one level deeper, and lowers the depth
again. -/
theorem Writes.nested {walk : StateM Writer Node} {contents : Node} (writes : Writes walk contents)
    (declaration : Node) (writer : Writer) :
    (nested (do discard walk; pure declaration) writer).2 =
      writer.add (entries (writer.depth + 1) contents) := by
  let inner : Writer := { writer with depth := writer.depth + 1 }
  calc
    _ = { (walk inner).2 with depth := (walk inner).2.depth - 1 } := rfl
    _ = writer.add (entries (writer.depth + 1) contents) := by
      rw [writes inner]
      rfl

/-- A declaration is written above its contents. -/
theorem Writes.enclosed {walk : StateM Writer Node} {declaration contents : Node}
    (writes : Writes walk contents) (writer : Writer) :
    ((do
      writeLine declaration
      Writer.nested do
        discard walk
        pure declaration) writer).2 =
      writer.add (⟨writer.depth, declaration⟩ :: entries (writer.depth + 1) contents) := by
  calc
    _ = (Writer.nested (do discard walk; pure declaration) (writeLine declaration writer).2).2 :=
      rfl
    _ = writer.add (⟨writer.depth, declaration⟩ :: entries (writer.depth + 1) contents) := by
      rw [writes.nested, writeLine_eq, depth_add, add_add, List.singleton_append]

/-- Walks that write entries, run one after the other, write the entries one after the other. -/
theorem runAll_eq {walk : Node → StateM Writer Node} (items : List Node)
    (writes : ∀ item ∈ items, Writes (walk item) item) (writer : Writer) :
    (Traversal.runAll (items.map fun item _ => walk item) writer).2 =
      writer.add (items.flatMap (entries writer.depth)) := by
  induction items generalizing writer with
  | nil => exact writer.add_nil.symm
  | cons item items induction =>
      have rest := induction fun item member => writes item (by simp [member])
      calc
        _ = (Traversal.runAll (items.map fun item _ => walk item) (walk item writer).2).2 := rfl
        _ = writer.add ((item :: items).flatMap (entries writer.depth)) := by
          rw [writes item (by simp), rest, depth_add, add_add, List.flatMap_cons]

theorem runChild_eq {walk : Node → StateM Writer Node} (child : Option Node)
    (writes : ∀ item ∈ child.toList, Writes (walk item) item) (writer : Writer) :
    (Traversal.runChild (child.map fun item _ => walk item) writer).2 =
      writer.add (child.toList.flatMap (entries writer.depth)) := by
  cases child with
  | none => exact writer.add_nil.symm
  | some item =>
      rw [Option.toList_some, List.flatMap_singleton, ← writes item (by simp)]
      rfl

/-- The walk writes the lines of the entries of a node and leaves the depth as it was. -/
theorem writes_visit (node : Node) : Writes (writing.visit node) node := by
  induction node using Node.induct with
  | step node children =>
      intro writer
      cases node with
      | literal | typeRef | param => exact writer.add_nil.symm
      | reference node =>
          have brackets := runChild_eq node.brackets
            (fun child below => children child (List.mem_append_left _ below))
          have parens := runChild_eq node.parens
            (fun child below => children child (List.mem_append_right _ below))
          calc
            _ = (writeLine (.reference node)
                  (Traversal.runChild (node.parens.map fun child _ => writing.visit child)
                    (Traversal.runChild (node.brackets.map fun child _ => writing.visit child)
                      writer).2).2).2 := by
              rw [Traversal.visit_reference]
              rfl
            _ = writer.add (entries writer.depth (.reference node)) := by
              simp only [brackets, parens, writeLine_eq, entries_reference, Node.children,
                List.flatMap_append, List.append_assoc, depth_add, add_add]
      | list node =>
          rw [Traversal.visit_list, entries_list, Node.children, ← runAll_eq node.items children]
          rfl
      | block node =>
          rw [Traversal.visit_block, entries_block, Node.children, ← runAll_eq node.items children]
          rfl
      | dim node => exact (children node.extent (by simp [Node.children])).enclosed writer
      | function node | method node =>
          exact (children node.body (by simp [Node.children])).enclosed writer

theorem writeItem_eq (item : Item) (text : String) :
    (writeItem item ⟨text, 0⟩).2 = ⟨text ++ item.typeListing, 0⟩ := by
  have marked : (writeItem item ⟨text, 0⟩).2 =
      (writing.visit item.node ⟨text ++ item.receiverMark, 0⟩).2 := by
    cases item with
    | dim declared =>
        rw [show (Item.dim declared).receiverMark = "" from rfl, String.append_empty]
        rfl
    | function declared =>
        rw [show (Item.function declared).receiverMark = "" from rfl, String.append_empty]
        rfl
    | method => rfl
  rw [marked, writes_visit, add, String.append_assoc, ← Item.typeListing]

/-- What is written for items is their listing. -/
theorem writeItems_eq (items : List Item) : writeItems items = typeListing items := by
  have written (text : String) :
      (forM items writeItem ⟨text, 0⟩).2 = ⟨text ++ typeListing items, 0⟩ := by
    induction items generalizing text with
    | nil => simp [typeListing]; rfl
    | cons item items induction =>
        calc
          _ = (forM items writeItem (writeItem item ⟨text, 0⟩).2).2 := rfl
          _ = ⟨text ++ typeListing (item :: items), 0⟩ := by
            rw [writeItem_eq, induction, typeListing, typeListing, List.map_cons, String.join_cons,
              String.append_assoc]
  have fromEmpty := written ""
  rw [writeItems, fromEmpty, String.empty_append]

end Writer

end TypeListing

end ModelLang
