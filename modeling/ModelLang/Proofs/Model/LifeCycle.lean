import ModelLang.Proofs.Model.Build
import ModelLang.Proofs.Resolution.Annotation

/-!
# The life cycle of a model

A model is made by adding to it, call after call, and is built at the end.  A call with all its
parts adds an item after the others.  A call that misses a part fails and adds nothing; the first
such failure is remembered and fails the build, whatever is added before and after it.  A build
that does not fail returns every item in its place, also those that could not be declared, and
changes nothing of it that is written.
-/

namespace ModelLang

/-- Two items are of one variant and are written alike, with their receivers, at one span. -/
structure Item.WrittenAlike (given returned : Item) : Prop where
  kind : returned.node.kind = given.node.kind
  name : returned.name = given.name
  receiver : returned.receiver? = given.receiver?
  span : returned.span = given.span
  text : returned.text = given.text

/-- What is written of an item shows in its bare form. -/
theorem Item.writtenAlike_bare (item : Item) : item.bare.WrittenAlike item where
  kind := by cases item <;> rfl
  name := by cases item <;> rfl
  receiver := by cases item <;> rfl
  span := by cases item <;> rfl
  text := item.text_bare.symm

theorem Item.WrittenAlike.of_bare {given returned : Item} (same : returned.bare = given.bare) :
    given.WrittenAlike returned := by
  have bare := given.writtenAlike_bare
  have bare' := returned.writtenAlike_bare
  rw [same] at bare'
  exact ⟨bare'.kind.trans bare.kind.symm, bare'.name.trans bare.name.symm,
    bare'.receiver.trans bare.receiver.symm, bare'.span.trans bare.span.symm,
    bare'.text.trans bare.text.symm⟩

namespace Model

/-- A call that adds to a model: an item, or the parts of one, some of which may be missing. -/
inductive Addition where
  | given (item : Item)
  | dim (id : NodeId) (name : String) (extent : Option Node) (span : Span)
  | function (id : NodeId) (name : String) (params body : Option Node) (span : Span)
  | method (id : NodeId) (receiver name : String) (params body : Option Node) (span : Span)

namespace Addition

/-- The dim with its extent. -/
def dimOf (id : NodeId) (name : String) (span : Span) : Option Node → Except Malformed Dim
  | some extent => .ok ⟨id, name, extent, span⟩
  | none => .error ⟨"dim", name, "extent", span⟩

/-- The overload with its parameters and its body; the parameters are missed first. -/
def overloadOf (c : Callable) (id : NodeId) (name : String) (span : Span) :
    Option Node → Option Node → Except Malformed (Signature c)
  | some params, some body => .ok ⟨id, name, params, body, span⟩
  | none, _ => .error ⟨c.keyword, name, "parameter list", span⟩
  | some _, none => .error ⟨c.keyword, name, "body", span⟩

/-- The item that a call adds, or its failure when a part is missing. -/
def outcome : Addition → Except Malformed Item
  | given item => .ok item
  | dim id name extent span => .dim <$> dimOf id name span extent
  | function id name params body span =>
      .function <$> overloadOf .function id name span params body
  | method id receiver name params body span =>
      .method receiver <$> overloadOf .method id name span params body

/-- The item that a call adds, if it does not fail. -/
def item? (addition : Addition) : Option Item :=
  addition.outcome.toOption

/-- The failure of a call, if it fails. -/
def failure? (addition : Addition) : Option Malformed :=
  match addition.outcome with
  | .ok _ => none
  | .error failure => some failure

variable {addition : Addition}

theorem item?_of_error {failure : Malformed} (fails : addition.outcome = .error failure) :
    addition.item? = none := by
  rw [item?, fails]
  rfl

theorem failure?_eq_some_iff {failure : Malformed} :
    addition.failure? = some failure ↔ addition.outcome = .error failure := by
  rw [failure?]
  cases addition.outcome <;> simp

theorem failure?_eq_none_iff : addition.failure? = none ↔ ∃ item, addition.outcome = .ok item := by
  rw [failure?]
  cases addition.outcome <;> simp

/-- The earliest call that fails does so with a failure. -/
def FailsFirst (calls : List Addition) (failure : Malformed) : Prop :=
  ∃ earlier addition later, calls = earlier ++ addition :: later ∧
    (∀ other ∈ earlier, ∃ item, other.outcome = .ok item) ∧ addition.outcome = .error failure

theorem failsFirst_iff {calls : List Addition} {failure : Malformed} :
    FailsFirst calls failure ↔ calls.findSome? failure? = some failure := by
  rw [List.findSome?_eq_some_iff]
  constructor
  · rintro ⟨earlier, addition, later, split, succeed, fails⟩
    exact ⟨earlier, addition, later, split, failure?_eq_some_iff.mpr fails,
      fun other member => failure?_eq_none_iff.mpr (succeed other member)⟩
  · rintro ⟨earlier, addition, later, split, fails, succeed⟩
    exact ⟨earlier, addition, later, split,
      fun other member => failure?_eq_none_iff.mp (succeed other member),
      failure?_eq_some_iff.mp fails⟩

/-- Where a call fails, one fails first. -/
theorem exists_failsFirst_iff {calls : List Addition} :
    (∃ failure, FailsFirst calls failure) ↔
      ∃ addition ∈ calls, ∃ failure, addition.outcome = .error failure := by
  simp only [failsFirst_iff, ← Option.isSome_iff_exists, List.findSome?_isSome_iff,
    ← failure?_eq_some_iff]

end Addition

/-- The model after a call. -/
def call (model : Model) : Addition → Model
  | .given item => model.add item
  | .dim id name extent span => model.addDim id name extent span
  | .function id name params body span => model.addFunction id name params body span
  | .method id receiver name params body span =>
      model.addMethod id receiver name params body span

/-- The model after calls, from first to last. -/
def after (model : Model) (calls : List Addition) : Model :=
  calls.foldl call model

/-- A call records its outcome. -/
theorem call_eq (model : Model) (addition : Addition) :
    model.call addition = model.addBuilt addition.outcome := by
  cases addition with
  | given item => rfl
  | dim id name extent span => cases extent <;> rfl
  | function id name params body span => cases params <;> cases body <;> rfl
  | method id receiver name params body span => cases params <;> cases body <;> rfl

theorem items_call (model : Model) (addition : Addition) :
    (model.call addition).items = model.items ++ addition.item?.toList := by
  rw [call_eq, Addition.item?]
  cases addition.outcome with
  | ok item => rfl
  | error failure => exact (List.append_nil model.items).symm

/-- A failure is remembered unless there was one before. -/
theorem failure?_call (model : Model) (addition : Addition) :
    (model.call addition).failure? = model.failure?.or addition.failure? := by
  rw [call_eq, Addition.failure?]
  cases addition.outcome with
  | ok item => exact Option.or_none.symm
  | error failure => rfl

/-- The items of the successful calls stand after the others, in the order of the calls. -/
theorem items_after (model : Model) (calls : List Addition) :
    (model.after calls).items = model.items ++ calls.filterMap Addition.item? := by
  induction calls generalizing model with
  | nil => exact (List.append_nil model.items).symm
  | cons addition calls induction =>
      have rest : (model.after (addition :: calls)).items =
          (model.call addition).items ++ calls.filterMap Addition.item? :=
        induction (model.call addition)
      rw [rest, items_call, List.append_assoc, List.filterMap_cons]
      cases addition.item? <;> rfl

/-- The first failure is remembered. -/
theorem failure?_after (model : Model) (calls : List Addition) :
    (model.after calls).failure? = model.failure?.or (calls.findSome? Addition.failure?) := by
  induction calls generalizing model with
  | nil => exact Option.or_none.symm
  | cons addition calls induction =>
      have rest : (model.after (addition :: calls)).failure? =
          (model.call addition).failure?.or (calls.findSome? Addition.failure?) :=
        induction (model.call addition)
      rw [rest, failure?_call, Option.or_assoc, List.findSome?_cons]
      cases addition.failure? <;> rfl

/-- A build fails with the failure that is remembered. -/
theorem build_eq_error_iff {model : Model} {next : NodeId} {failure : Failure} :
    model.build next = .error failure ↔
      ∃ error, model.failure? = some error ∧ failure = .malformed error := by
  rw [build]
  cases model.failure? with
  | none => simp
  | some error => simp [eq_comm]

/-- A build returns the items in their order and written as they were added. -/
theorem exists_built_writtenAlike {graph : Graph} {model : Model} {next : NodeId}
    (sound : model.failure? = none) (listed : ∀ item ∈ model.items, item.node ∈ graph)
    (below : ∀ node ∈ graph, node.id < next) :
    ∃ built, model.build next = .ok built ∧
      List.Forall₂ Item.WrittenAlike model.items built.items := by
  obtain ⟨built, isBuilt, shows⟩ := exists_built sound next
  let input := Resolution.Input.ofItems model.settings.strictDims listed below
  have same : built.items.map Item.bare = model.items.map Item.bare := by
    rw [shows.items_eq]
    exact input.map_bare_items
  rw [← List.forall₂_eq_eq_eq, List.forall₂_map_left_iff, List.forall₂_map_right_iff] at same
  have alike : List.Forall₂ (fun given returned => returned.bare = given.bare) model.items
      built.items := same.flip
  exact ⟨built, isBuilt, alike.imp fun _ _ => .of_bare⟩

/-- The life cycle of a model.  Its items are those of the successful calls, in their order, and a
call that fails leaves them as they are.  A build fails if a call failed, with the failure of the
earliest one.  When no call failed, the build returns as many items, each of the variant, name,
receiver, span and text of the one that was added. -/
theorem build_after (settings : Settings) (calls : List Addition) (next : NodeId) :
    let model := ({ settings } : Model).after calls
    model.items = calls.filterMap Addition.item? ∧
      (∀ addition failure, addition.outcome = .error failure →
        (model.call addition).items = model.items) ∧
      (∀ failure, model.build next = .error failure ↔
        ∃ error, Addition.FailsFirst calls error ∧ failure = .malformed error) ∧
      ((∃ failure, model.build next = .error failure) ↔
        ∃ addition ∈ calls, ∃ error, addition.outcome = .error error) ∧
      ∀ graph : Graph, (∀ item ∈ model.items, item.node ∈ graph) →
        (∀ node ∈ graph, node.id < next) →
        (∀ addition ∈ calls, ∃ item, addition.outcome = .ok item) →
        ∃ built, model.build next = .ok built ∧
          List.Forall₂ Item.WrittenAlike model.items built.items := by
  intro model
  have items : model.items = calls.filterMap Addition.item? := items_after { settings } calls
  have remembered : model.failure? = calls.findSome? Addition.failure? :=
    failure?_after { settings } calls
  have fails (failure : Failure) : model.build next = .error failure ↔
      ∃ error, Addition.FailsFirst calls error ∧ failure = .malformed error := by
    simp only [build_eq_error_iff, remembered, Addition.failsFirst_iff]
  refine ⟨items, ?_, fails, ?_, ?_⟩
  · intro addition failure missing
    rw [items_call, Addition.item?_of_error missing]
    exact List.append_nil model.items
  · rw [← Addition.exists_failsFirst_iff, exists_congr fails]
    simp
  · intro graph listed below succeed
    refine exists_built_writtenAlike ?_ listed below
    rw [remembered, List.findSome?_eq_none_iff]
    exact fun addition member => Addition.failure?_eq_none_iff.mpr (succeed addition member)

/-! ## Missing parts and rejected declarations -/

namespace MissingParts

def three : Node := .literal ⟨0, .int 3, {}⟩
def four : Node := .literal ⟨1, .int 4, {}⟩
def size : Dim := ⟨2, "size", three, {}⟩
def otherSize : Dim := ⟨3, "size", four, {}⟩
def noParams : Node := .list ⟨4, [], {}⟩
def useSize : Reference := ⟨5, none, "size", none, none, .unknown, none, {}⟩
def body : Node := .block ⟨6, [.reference useSize], {}⟩
def main : Signature .function := ⟨7, "main", noParams, body, {}⟩
def again : Signature .function := ⟨8, "main", noParams, body, {}⟩

def nodes : List Node :=
  [three, four, .dim size, .dim otherSize, noParams, .reference useSize, body, .function main,
    .function again]

def graph : Graph :=
  .ofList nodes
    (by simp [nodes, three, four, size, otherSize, noParams, useSize, body, main, again,
      Node.children])
    (by decide)

/-- Two calls without a part, and one between them with all parts. -/
def broken : List Addition :=
  [.function 9 "f" none (some body) {}, .dim 2 "size" (some three) {},
    .method 10 "A" "m" (some noParams) none {}]

/-- Calls with all parts; the second dim and the second function cannot be declared. -/
def complete : List Addition :=
  [.dim 2 "size" (some three) {}, .given (.dim otherSize),
    .function 7 "main" (some noParams) (some body) {}, .given (.function again)]

def added : List Item := [.dim size, .dim otherSize, .function main, .function again]

theorem listed : ∀ item ∈ added, item.node ∈ graph := by
  intro item member
  change item.node ∈ nodes
  simp only [added, List.mem_cons, List.not_mem_nil, or_false] at member
  rcases member with rfl | rfl | rfl | rfl <;> simp [nodes, Item.node]

theorem below : ∀ node ∈ graph, node.id < 9 :=
  (by decide : ∀ node ∈ nodes, node.id < 9)

theorem succeed : ∀ addition ∈ complete, ∃ item, addition.outcome = .ok item := by
  simp [complete, Addition.outcome, Addition.dimOf, Addition.overloadOf]

end MissingParts

open MissingParts in
/-- A build fails for the first call without a part, a function without parameters.  Without such a
call it returns also the dim and the function that cannot be declared. -/
theorem build_after_missingParts :
    (({} : Model).after broken).items = [.dim size] ∧
      (({} : Model).after broken).build 9 =
        .error (.malformed ⟨"function", "f", "parameter list", {}⟩) ∧
      (({} : Model).after complete).items = added ∧
      (({} : Model).after complete).declared.errors =
        [.typeMismatch "size" "3" "4" {},
          .duplicateSignature "main" again.node.text main.node.text {} {}] ∧
      ∃ built, (({} : Model).after complete).build 9 = .ok built ∧
        List.Forall₂ Item.WrittenAlike added built.items := by
  obtain ⟨one, -, fails, -⟩ := build_after {} broken 9
  obtain ⟨all, -, -, -, builds⟩ := build_after {} complete 9
  have first : Addition.FailsFirst broken ⟨"function", "f", "parameter list", {}⟩ :=
    ⟨[], _, _, rfl, by simp, rfl⟩
  exact ⟨one, (fails _).mpr ⟨_, first, rfl⟩, all, rfl, builds graph listed below succeed⟩

end Model

end ModelLang
