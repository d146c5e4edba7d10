import Mathlib.Data.List.Dedup
import Mathlib.Data.List.Induction
import ModelLang.Declaration
import ModelLang.Proofs.Declaration.Places

/-!
# What declaring a list of items accepts and reports

An item is adopted if it repeats no item before it, whether that one was adopted or not.  The
declarations compare an item only with what the scope holds; since repeating is an equivalence, the
scope holds of every place exactly the adopted items, and an item that is not adopted repeats
exactly one of them.  This accounts for everything that declaring a list gives: what is accepted,
what each place holds, the errors in the order of the items, and the counters.
-/

namespace ModelLang

namespace Item

/-- The name of a dim. -/
def dimName? : Item → Option String
  | dim declared => some declared.name
  | _ => none

/-- An overload of a function. -/
def function? : Item → Option (Signature .function)
  | function declared => some declared
  | _ => none

/-- An overload of a method. -/
def method? : Item → Option (Signature .method)
  | method _ declared => some declared
  | _ => none

/-- The item repeats none of the items before it. -/
def NewAfter (earlier : List Item) (item : Item) : Prop :=
  ∀ first ∈ earlier, ¬ first.Repeats item

instance (earlier : List Item) (item : Item) : Decidable (item.NewAfter earlier) :=
  inferInstanceAs (Decidable (∀ first ∈ earlier, _))

end Item

/-- What each item gives in view of the items before it. -/
def gather {β : Type} (give : List Item → Item → Option β) (earlier : List Item) :
    List Item → List β
  | [] => []
  | item :: items => (give earlier item).toList ++ gather give (earlier ++ [item]) items

theorem gather_concat {β : Type} (give : List Item → Item → Option β) (earlier items : List Item)
    (item : Item) :
    gather give earlier (items ++ [item]) =
      gather give earlier items ++ (give (earlier ++ items) item).toList := by
  induction items generalizing earlier with
  | nil => simp [gather]
  | cons first items induction =>
      rw [List.cons_append, gather, gather, induction, List.append_assoc, List.append_assoc]
      rfl

/-- The items that repeat no earlier one. -/
def adopted (items : List Item) : List Item :=
  gather (fun earlier item => if item.NewAfter earlier then some item else none) [] items

/-- The error for an item: the complaint of the only adopted item that it repeats. -/
def Item.fault (strict : Bool) (earlier : List Item) (item : Item) : Option Diagnostic :=
  match (adopted earlier).filter (·.Repeats item) with
  | [first] => first.complaint strict item
  | _ => none

/-- The errors for the items, in their order. -/
def faults (strict : Bool) (items : List Item) : List Diagnostic :=
  gather (Item.fault strict) [] items

/-! ## Adopted items -/

theorem adopted_concat (items : List Item) (item : Item) :
    adopted (items ++ [item]) = adopted items ++ if item.NewAfter items then [item] else [] := by
  rw [adopted, gather_concat, List.nil_append]
  split <;> rfl

theorem faults_concat (strict : Bool) (items : List Item) (item : Item) :
    faults strict (items ++ [item]) = faults strict items ++ (item.fault strict items).toList :=
  gather_concat _ [] items item

theorem adopted_sublist (items : List Item) : (adopted items).Sublist items := by
  induction items using List.reverseRecOn with
  | nil => exact List.Sublist.refl _
  | append_singleton items item induction =>
      rw [adopted_concat]
      refine induction.append ?_
      split
      · exact List.Sublist.refl _
      · exact List.nil_sublist _

theorem mem_of_adopted {items : List Item} {item : Item} (kept : item ∈ adopted items) :
    item ∈ items :=
  (adopted_sublist items).subset kept

/-- No adopted item repeats another one. -/
theorem pairwise_adopted (items : List Item) :
    (adopted items).Pairwise fun first second => ¬ first.Repeats second := by
  induction items using List.reverseRecOn with
  | nil => exact List.Pairwise.nil
  | append_singleton items item induction =>
      rw [adopted_concat]
      split
      · next new =>
          refine List.pairwise_append.mpr ⟨induction, List.pairwise_singleton _ _, ?_⟩
          intro first member last here
          obtain rfl := List.mem_singleton.mp here
          exact new first (mem_of_adopted member)
      · rwa [List.append_nil]

/-- Dims of one name repeat each other, so only the first item at the place of a dim is adopted. -/
theorem filter_adopted_dim (items : List Item) (name : String) :
    (adopted items).filter (·.place = .dim name) =
      (items.find? (·.place = .dim name)).toList := by
  induction items using List.reverseRecOn with
  | nil => rfl
  | append_singleton items item induction =>
      rw [adopted_concat, List.filter_append, induction, List.find?_append]
      by_cases here : item.place = .dim name
      · have repeats_iff : ∀ first : Item, first.Repeats item ↔ first.place = .dim name := by
          intro first
          rw [Item.repeats_iff_of_place_eq_dim here]
        have new_iff : item.NewAfter items ↔ items.find? (·.place = .dim name) = none := by
          simp [Item.NewAfter, repeats_iff]
        cases found : items.find? (·.place = .dim name) with
        | none => simp [new_iff.mpr found, here]
        | some first => simp [new_iff, found]
      · split <;> simp [here]

section Graph

variable {graph : Graph} {items : List Item} (inside : ∀ item ∈ items, item.node ∈ graph)
include inside

/-- Every item repeats an adopted one. -/
theorem exists_adopted {item : Item} (member : item ∈ items) :
    ∃ first ∈ adopted items, first.Repeats item := by
  induction items using List.reverseRecOn generalizing item with
  | nil => cases member
  | append_singleton items last induction =>
      have inside_items : ∀ item ∈ items, item.node ∈ graph :=
        fun item member => inside item (List.mem_append_left _ member)
      rw [adopted_concat]
      rcases List.mem_append.mp member with member | here
      · obtain ⟨first, kept, repeats⟩ := induction inside_items member
        exact ⟨first, List.mem_append_left _ kept, repeats⟩
      · obtain rfl := List.mem_singleton.mp here
        by_cases new : item.NewAfter items
        · rw [if_pos new]
          exact ⟨item, List.mem_append_right _ (List.mem_singleton_self item), .refl item⟩
        · simp only [Item.NewAfter, not_forall, not_not] at new
          obtain ⟨earlier, member_earlier, again⟩ := new
          obtain ⟨first, kept, repeats⟩ := induction inside_items member_earlier
          have inside_first := inside_items first (mem_of_adopted kept)
          exact ⟨first, List.mem_append_left _ kept, repeats.trans inside_first
            (inside_items earlier member_earlier) (inside item member) again⟩

section Item

variable {item : Item} (inside_item : item.node ∈ graph)
include inside_item

/-- An item that is not new repeats an adopted one. -/
theorem newAfter_iff :
    item.NewAfter items ↔ ∀ first ∈ adopted items, ¬ first.Repeats item := by
  constructor
  · exact fun new first kept => new first (mem_of_adopted kept)
  · intro new earlier member again
    obtain ⟨first, kept, repeats⟩ := exists_adopted inside member
    exact new first kept (repeats.trans (inside first (mem_of_adopted kept))
      (inside earlier member) inside_item again)

theorem filter_adopted_of_new (new : item.NewAfter items) :
    (adopted items).filter (·.Repeats item) = [] := by
  simpa [List.filter_eq_nil_iff] using (newAfter_iff inside inside_item).mp new

/-- An item that is not new repeats exactly one adopted item. -/
theorem exists_rival (again : ¬ item.NewAfter items) :
    ∃ first, (adopted items).filter (·.Repeats item) = [first] := by
  have apart := (pairwise_adopted items).filter (·.Repeats item)
  have all : ∀ first ∈ (adopted items).filter (·.Repeats item),
      first.Repeats item ∧ first.node ∈ graph := by
    intro first member
    obtain ⟨kept, repeats⟩ := List.mem_filter.mp member
    exact ⟨of_decide_eq_true repeats, inside first (mem_of_adopted kept)⟩
  match found : (adopted items).filter (·.Repeats item) with
  | [] =>
      refine absurd ((newAfter_iff inside inside_item).mpr ?_) again
      simpa [List.filter_eq_nil_iff] using found
  | [first] => exact ⟨first, found⟩
  | first :: second :: rest =>
      rw [found] at apart all
      obtain ⟨repeats, inside_first⟩ := all first (by simp)
      obtain ⟨repeats', inside_second⟩ := all second (by simp)
      have apart := List.rel_of_pairwise_cons apart (List.mem_cons_self (a := second))
      exact absurd (repeats.of_common inside_first inside_second inside_item repeats') apart

omit inside inside_item in
theorem mem_of_rival {first : Item} (rival : (adopted items).filter (·.Repeats item) = [first]) :
    first ∈ adopted items ∧ first.Repeats item := by
  have member : first ∈ (adopted items).filter (·.Repeats item) := by simp [rival]
  obtain ⟨kept, repeats⟩ := List.mem_filter.mp member
  exact ⟨kept, of_decide_eq_true repeats⟩

omit inside inside_item in
theorem fault_of_rival {strict : Bool} {first : Item}
    (rival : (adopted items).filter (·.Repeats item) = [first]) :
    item.fault strict items = first.complaint strict item := by
  rw [Item.fault, rival]

theorem fault_of_new (strict : Bool) (new : item.NewAfter items) :
    item.fault strict items = none := by
  rw [Item.fault, filter_adopted_of_new inside inside_item new]

end Item

end Graph

/-! ## One more declaration -/

namespace Declared

variable {outcome : Declared} (consistent : outcome.scope.Consistent) (strict : Bool) {item : Item}
include consistent

/-- An item that repeats nothing goes to its place, and is counted. -/
theorem add_of_new (new : outcome.scope.repeated? item = none) :
    outcome.add strict item =
      { outcome with
        scope := outcome.scope.file item
        dims := outcome.dims + if item.dimName?.isSome then 1 else 0
        functions := outcome.functions + if item.function?.isSome then 1 else 0
        methods := outcome.methods + if item.method?.isSome then 1 else 0
        events := outcome.events ++ [outcome.scope.declared item] } := by
  have declared : outcome.scope.declare strict item = .ok (outcome.scope.file item) := by
    rw [consistent.declare_eq, new]
  rw [add, declared]
  cases item with
  | dim dim =>
      rw [consistent.repeated?_dim, Option.map_eq_none_iff] at new
      simp [count, new, Item.dimName?, Item.function?, Item.method?]
  | function | method => rfl

/-- An item that repeats another one without an error is a dim, and is not counted. -/
theorem add_of_agrees {first : Item} (found : outcome.scope.repeated? item = some first)
    (agrees : first.complaint strict item = none) :
    outcome.add strict item =
      { outcome with events := outcome.events ++ [outcome.scope.declared item] } := by
  have declared : outcome.scope.declare strict item = .ok outcome.scope := by
    rw [consistent.declare_eq, found]
    simp only [agrees]
  rw [add, declared]
  cases item with
  | dim dim =>
      rw [consistent.repeated?_dim, Option.map_eq_some_iff] at found
      obtain ⟨bound, found, -⟩ := found
      simp [count, found]
  | function declared =>
      rw [consistent.repeated?_function, Option.map_eq_some_iff] at found
      obtain ⟨rival, -, rfl⟩ := found
      cases agrees
  | method receiver declared =>
      rw [consistent.repeated?_method, Option.map_eq_some_iff] at found
      obtain ⟨rival, -, rfl⟩ := found
      cases agrees

theorem add_of_complaint {first : Item} {error : Diagnostic}
    (found : outcome.scope.repeated? item = some first)
    (complains : first.complaint strict item = some error) :
    outcome.add strict item = { outcome with errors := outcome.errors ++ [error] } := by
  have declared : outcome.scope.declare strict item = .error error := by
    rw [consistent.declare_eq, found]
    simp only [complains]
  rw [add, declared]

end Declared

/-- What has come of declarations: the items that the scope holds, and the reported errors. -/
structure Reached (kept : List Item) (reported : List Diagnostic) (outcome : Declared) : Prop where
  consistent : outcome.scope.Consistent
  filed_eq : ∀ place, outcome.scope.filed place = kept.filter (·.place = place)
  errors_eq : outcome.errors = reported
  dims_eq : outcome.dims = kept.countP (·.dimName?.isSome)
  functions_eq : outcome.functions = kept.countP (·.function?.isSome)
  methods_eq : outcome.methods = kept.countP (·.method?.isSome)

namespace Reached

theorem empty : Reached [] [] { scope := {} } where
  consistent := .empty
  filed_eq place := by cases place <;> rfl
  errors_eq := rfl
  dims_eq := rfl
  functions_eq := rfl
  methods_eq := rfl

variable {kept : List Item} {reported : List Diagnostic} {outcome : Declared}

/-- The scope compares an item with the kept items. -/
theorem repeated?_eq (reached : Reached kept reported outcome) (item : Item) :
    outcome.scope.repeated? item = (kept.filter (·.Repeats item)).head? := by
  rw [Scope.repeated?, reached.filed_eq, List.find?_filter, List.head?_filter]
  refine List.find?_congr fun first _ => ?_
  by_cases repeats : first.Repeats item
  · simp [repeats, repeats.1]
  · simp [repeats]

theorem add_of_new (reached : Reached kept reported outcome) (strict : Bool) {item : Item}
    (new : outcome.scope.repeated? item = none) :
    Reached (kept ++ [item]) reported (outcome.add strict item) := by
  have declared : outcome.scope.declare strict item = .ok (outcome.scope.file item) := by
    rw [reached.consistent.declare_eq, new]
  rw [Declared.add_of_new reached.consistent strict new]
  refine ⟨reached.consistent.declare declared, fun place => ?_, reached.errors_eq, ?_, ?_, ?_⟩
  · rw [reached.consistent.filed_file new, reached.filed_eq, List.filter_append]
    congr 1
    by_cases here : place = item.place <;> simp [here, eq_comm]
  · rw [List.countP_append, List.countP_singleton, ← reached.dims_eq]
  · rw [List.countP_append, List.countP_singleton, ← reached.functions_eq]
  · rw [List.countP_append, List.countP_singleton, ← reached.methods_eq]

theorem add_of_repeats (reached : Reached kept reported outcome) (strict : Bool)
    {first item : Item} (found : outcome.scope.repeated? item = some first) :
    Reached kept (reported ++ (first.complaint strict item).toList)
      (outcome.add strict item) := by
  cases complaint : first.complaint strict item with
  | none =>
      rw [Declared.add_of_agrees reached.consistent strict found complaint, Option.toList_none,
        List.append_nil]
      exact { reached with }
  | some error =>
      rw [Declared.add_of_complaint reached.consistent strict found complaint]
      exact { reached with errors_eq := congrArg (· ++ [error]) reached.errors_eq }

end Reached

/-! ## A list of declarations -/

section Run

variable {graph : Graph} (strict : Bool)

theorem reached_foldl {items : List Item} (inside : ∀ item ∈ items, item.node ∈ graph) :
    Reached (adopted items) (faults strict items)
      (items.foldl (Declared.add strict) { scope := {} }) := by
  induction items using List.reverseRecOn with
  | nil => exact .empty
  | append_singleton items item induction =>
      obtain ⟨inside_items, inside_item⟩ := List.forall_mem_append.mp inside
      have inside_item := inside_item item (List.mem_singleton_self item)
      have reached := induction inside_items
      rw [List.foldl_append, List.foldl_cons, List.foldl_nil, adopted_concat, faults_concat]
      by_cases new : item.NewAfter items
      · rw [if_pos new, fault_of_new inside_items inside_item strict new, Option.toList_none,
          List.append_nil]
        apply reached.add_of_new
        rw [reached.repeated?_eq, filter_adopted_of_new inside_items inside_item new,
          List.head?_nil]
      · obtain ⟨first, rival⟩ := exists_rival inside_items inside_item new
        rw [if_neg new, fault_of_rival rival, List.append_nil]
        apply reached.add_of_repeats
        rw [reached.repeated?_eq, rival, List.head?_cons]

theorem reached_declareAll {items : List Item} (inside : ∀ item ∈ items, item.node ∈ graph) :
    Reached (adopted items) (faults strict items) (({} : Scope).declareAll strict items) :=
  { reached_foldl strict inside with }

end Run

theorem Item.dimName?_eq_some_iff {item : Item} {name : String} :
    item.dimName? = some name ↔ item.place = .dim name := by
  cases item <;> simp [dimName?, place]

/-- As many dims are adopted as there are names of dims. -/
theorem countP_adopted_dim {graph : Graph} {items : List Item}
    (inside : ∀ item ∈ items, item.node ∈ graph) :
    (adopted items).countP (·.dimName?.isSome) =
      (items.filterMap Item.dimName?).dedup.length := by
  have distinct : ((adopted items).filterMap Item.dimName?).Nodup := by
    refine List.pairwise_filterMap.mpr ((pairwise_adopted items).imp ?_)
    intro first second apart name found name' found' same
    rw [Item.dimName?_eq_some_iff] at found found'
    exact apart ((Item.repeats_iff_of_place_eq_dim found').mpr (same ▸ found))
  rw [← List.length_filterMap_eq_countP]
  refine ((List.perm_ext_iff_of_nodup distinct (List.nodup_dedup _)).mpr fun name => ?_).length_eq
  rw [List.mem_dedup, List.mem_filterMap, List.mem_filterMap]
  constructor
  · rintro ⟨item, kept, found⟩
    exact ⟨item, mem_of_adopted kept, found⟩
  · rintro ⟨item, member, found⟩
    obtain ⟨first, kept, repeats⟩ := exists_adopted inside member
    rw [Item.dimName?_eq_some_iff] at found
    refine ⟨first, kept, Item.dimName?_eq_some_iff.mpr ?_⟩
    exact (Item.repeats_iff_of_place_eq_dim found).mp repeats

/-- What declaring the items gives. -/
structure Accounts (strict : Bool) (items : List Item) (outcome : Declared) : Prop where
  consistent : outcome.scope.Consistent
  /-- Every place holds its adopted items, in their order. -/
  filed_eq : ∀ place, outcome.scope.filed place = (adopted items).filter (·.place = place)
  /-- The name of a dim is bound to the first dim of that name. -/
  dim?_eq : ∀ name, (outcome.scope.dim? name).map .dim = items.find? (·.place = .dim name)
  errors_eq : outcome.errors = faults strict items
  /-- Dims are counted by their names. -/
  dims_eq : outcome.dims = (items.filterMap Item.dimName?).dedup.length
  functions_eq : outcome.functions = (adopted items).countP (·.function?.isSome)
  methods_eq : outcome.methods = (adopted items).countP (·.method?.isSome)

/-- How an item is received after the items before it. -/
structure Verdict (strict : Bool) (before : List Item) (item : Item) : Prop where
  /-- An overload is accepted if and only if no earlier one of its place, accepted or not, has equal
  parameters. -/
  accepted_iff : item.params?.isSome →
    ((∃ grown, (({} : Scope).declareAll strict before).scope.declare strict item = .ok grown) ↔
      item.NewAfter before)
  /-- Nothing is reported for the first item of its kind. -/
  of_new : item.NewAfter before → item.fault strict before = none
  /-- A refused overload is a duplicate of the only accepted one with equal parameters. -/
  of_overload : item.params?.isSome → ¬ item.NewAfter before →
    ∃ rival, (adopted before).filter (·.Repeats item) = [rival] ∧
      item.fault strict before =
        some (.duplicateSignature item.name item.node.text rival.node.text item.span rival.span)
  /-- A dim is compared with the first one of its name. -/
  of_dim : ∀ {first declared : Dim}, item = .dim declared →
    before.find? (·.place = item.place) = some (.dim first) →
      item.fault strict before =
        if Scope.Unifies strict first declared then none
        else some (.typeMismatch declared.name first.extent.text declared.extent.text declared.span)

theorem fault_dim {strict : Bool} {before : List Item} {first declared : Dim}
    (found : before.find? (·.place = .dim declared.name) = some (.dim first)) :
    (Item.dim declared).fault strict before =
      (Item.dim first).complaint strict (.dim declared) := by
  have alike : (adopted before).filter (·.Repeats (.dim declared)) =
      (adopted before).filter (·.place = .dim declared.name) :=
    List.filter_congr fun _ _ => decide_eq_decide.mpr (Item.repeats_iff_of_place_eq_dim rfl)
  apply fault_of_rival
  rw [alike, filter_adopted_dim, found, Option.toList_some]

theorem Verdict.of_graph {graph : Graph} (strict : Bool) {before : List Item} {item : Item}
    (inside : ∀ item ∈ before, item.node ∈ graph) (inside_item : item.node ∈ graph) :
    Verdict strict before item := by
  have reached := reached_declareAll strict inside
  have declared := reached.consistent.declare_eq strict item
  rw [reached.repeated?_eq] at declared
  have duplicate (overload : item.params?.isSome) (again : ¬ item.NewAfter before) :
      ∃ rival, (adopted before).filter (·.Repeats item) = [rival] ∧
        rival.complaint strict item =
          some (.duplicateSignature item.name item.node.text rival.node.text item.span
            rival.span) := by
    obtain ⟨rival, only⟩ := exists_rival inside inside_item again
    exact ⟨rival, only, Item.complaint_of_overload strict (mem_of_rival only).2 overload⟩
  constructor
  case accepted_iff =>
    intro overload
    constructor
    · rintro ⟨grown, accepted⟩
      by_contra again
      obtain ⟨rival, only, complaint⟩ := duplicate overload again
      rw [accepted, only, List.head?_cons] at declared
      simp only [complaint] at declared
      cases declared
    · intro new
      rw [filter_adopted_of_new inside inside_item new, List.head?_nil] at declared
      exact ⟨_, declared⟩
  case of_new => exact fault_of_new inside inside_item strict
  case of_overload =>
    intro overload again
    obtain ⟨rival, only, complaint⟩ := duplicate overload again
    exact ⟨rival, only, (fault_of_rival only).trans complaint⟩
  case of_dim =>
    rintro first declared rfl found
    exact fault_dim found

/-- Declaring items of a graph accepts an overload exactly when it repeats no earlier one, keeps at
each place what was accepted, and reports every other item by what it repeats. -/
theorem accounts_declareAll (graph : Graph) (strict : Bool) (items : List Item)
    (inside : ∀ item ∈ items, item.node ∈ graph) :
    Accounts strict items (({} : Scope).declareAll strict items) ∧
      ∀ before item after, items = before ++ item :: after → Verdict strict before item := by
  have reached := reached_declareAll strict inside
  constructor
  · refine {
      consistent := reached.consistent
      filed_eq := reached.filed_eq
      dim?_eq := fun name => ?_
      errors_eq := reached.errors_eq
      dims_eq := reached.dims_eq.trans (countP_adopted_dim inside)
      functions_eq := reached.functions_eq
      methods_eq := reached.methods_eq }
    have here := reached.filed_eq (.dim name)
    rw [filter_adopted_dim, Scope.filed, ← Option.toList_map] at here
    simpa using congrArg List.head? here
  · rintro before item after rfl
    rw [List.forall_mem_append, List.forall_mem_cons] at inside
    exact .of_graph strict inside.1 inside.2.1

/-! ## Items of every kind that are declared again -/

namespace Redeclared

def int : Node := .typeRef ⟨0, .int, {}⟩
def real : Node := .typeRef ⟨1, .real, {}⟩
def body : Node := .block ⟨2, [], {}⟩
def params (id : NodeId) (ty : Node) : Node := .list ⟨id, [ty], {}⟩

def narrow : Signature .function := ⟨10, "f", params 11 int, body, { line := 1 }⟩
def keep : Signature .method := ⟨12, "f", params 13 int, body, { line := 2 }⟩
def again : Signature .function := ⟨14, "f", params 15 int, body, { line := 3 }⟩
def size : Dim := ⟨16, "n", int, { line := 4 }⟩
def thrice : Signature .function := ⟨17, "f", params 15 int, body, { line := 5 }⟩
def keepAgain : Signature .method := ⟨18, "f", params 11 int, body, { line := 6 }⟩
def sizeAgain : Dim := ⟨19, "n", real, { line := 7 }⟩
def wide : Signature .function := ⟨20, "f", params 21 real, body, { line := 8 }⟩

def before : List Item := [.function narrow, .method "A" keep, .function again, .dim size]
def after : List Item := [.method "A" keepAgain, .dim sizeAgain, .function wide]
def items : List Item := before ++ .function thrice :: after

def nodes : List Node :=
  items.map Item.node ++
    [int, real, body, params 11 int, params 13 int, params 15 int, params 21 real]

def graph : Graph :=
  .ofList nodes
    (by simp [nodes, items, before, after, Item.node, narrow, keep, again, size, thrice, keepAgain,
      sizeAgain, wide, int, real, body, params, Node.children])
    (by decide)

theorem mem_graph : ∀ item ∈ items, item.node ∈ graph :=
  fun _ member => List.mem_append_left _ (List.mem_map_of_mem member)

end Redeclared

open Redeclared in
/-- The function is refused twice because of its first declaration, and the dim has two extents. -/
theorem accounts_declareAll_redeclared :
    (∀ item ∈ items, item.node ∈ graph) ∧
      (({} : Scope).declareAll true items).functions = 2 ∧
      (({} : Scope).declareAll true items).methods = 1 ∧
      (({} : Scope).declareAll true items).dims = 1 ∧
      (({} : Scope).declareAll true items).errors =
        [Scope.duplicate again narrow, Scope.duplicate thrice narrow,
          Scope.duplicate keepAgain keep, .typeMismatch "n" int.text real.text sizeAgain.span] ∧
      ¬ (Item.function thrice).NewAfter before ∧
      ¬ ∃ grown, (({} : Scope).declareAll true before).scope.declare true (.function thrice) =
        .ok grown := by
  obtain ⟨account, verdicts⟩ := accounts_declareAll graph true items mem_graph
  have repeated : ¬ (Item.function thrice).NewAfter before := by decide
  have verdict := verdicts before (.function thrice) after rfl
  refine ⟨mem_graph, account.functions_eq, account.methods_eq, account.dims_eq, ?_, repeated, ?_⟩
  · rw [account.errors_eq]
    rfl
  · exact fun accepted => repeated ((verdict.accepted_iff rfl).mp accepted)

end ModelLang
