import ModelLang.Proofs.Resolution.Once
import ModelLang.Proofs.Resolution.Replay

/-!
# The order of the items does not matter without recursion

When the resolution of a list of items reaches no declaration that is in progress, the same holds
in any other order, every item is resolved to the same form up to the identities of new nodes, and
the same errors are found.  The errors are counted by the use sites they are about: without
recursion no use site is looked up twice for one owner, not even in two extents.
-/

namespace ModelLang.Resolution

section Runs

variable {input : Input} {items : List Item} {same : items.Perm input.items}
  (single : input.SingleReceiver) (apart : ¬ input.Recursive)

include single apart

/-! ## All calls are foreseen -/

variable (same) in
/-- The calls that a foreseen call makes are foreseen: at the same moment in the same context, and
at an earlier one in the contents of a declaration. -/
theorem Input.Foresees.starts {call inner : Call} {index : Nat} {moment : State}
    (foresees : input.Foresees moment call.stack call.job)
    (made : (input.reorder same).Makes call) (memory : input.ReplayState call.before)
    (starts : (input.reorder same).Starts call index inner) :
    input.ReplayState inner.before ∧ ∃ earlier, input.Foresees earlier inner.stack inner.job ∧
      (inner.stack = call.stack → earlier = moment) := by
  cases starts with
  | list => exact ⟨memory, moment, foresees.list, fun _ => rfl⟩
  | block => exact ⟨memory, moment, foresees.block, fun _ => rfl⟩
  | dim => exact ⟨memory, moment, foresees.nestedDim apart, fun _ => rfl⟩
  | function =>
      exact ⟨memory, moment, nestedSignature (c := .function) apart foresees, fun _ => rfl⟩
  | method => exact ⟨memory, moment, nestedSignature (c := .method) apart foresees, fun _ => rfl⟩
  | brackets visits => exact ⟨memory, moment, foresees.brackets, fun _ => rfl⟩
  | parens visits =>
      obtain ⟨memory, -⟩ := visits.bracketsRun.replays single apart
        (made.starts (.brackets visits)) foresees.brackets memory
      exact ⟨memory, moment, foresees.parens, fun _ => rfl⟩
  | meaning visits =>
      obtain ⟨memory, -⟩ := visits.bracketsRun.replays single apart
        (made.starts (.brackets visits)) foresees.brackets memory
      obtain ⟨memory, replays⟩ := visits.parensRun.replays single apart
        (made.starts (.parens visits)) foresees.parens memory
      exact ⟨memory, moment, foresees.meaning replays, fun _ => rfl⟩
  | head => exact ⟨memory, moment, foresees.head, fun _ => rfl⟩
  | tail itemRun itemsRun =>
      obtain ⟨memory, -⟩ := itemRun.replays single apart (made.starts (.head itemRun itemsRun))
        foresees.head memory
      exact ⟨memory, moment, foresees.tail, fun _ => rfl⟩
  | child => exact ⟨memory, moment, foresees.child, fun _ => rfl⟩
  | extent =>
      obtain ⟨earlier, foresees⟩ := foresees.extent made.run.allowed.job
      exact ⟨memory, earlier, foresees, fun same => absurd same (List.cons_ne_self _ _)⟩
  | body =>
      obtain ⟨earlier, foresees⟩ := foresees.body made.run.allowed.job
      exact ⟨memory, earlier, foresees, fun same => absurd same (List.cons_ne_self _ _)⟩
  | target known bound =>
      exact ⟨memory, moment,
        foresees.target single apart made memory.next (verdict_of_dim known bound), fun _ => rfl⟩
  | entered known bound calls applied selects =>
      have decided := verdict_of_calls known bound calls applied
      rw [selects] at decided
      exact ⟨(memory.of_allots (allots_of_argumentsOf applied)).withEvent _, moment,
        foresees.selected single apart made memory.next decided, fun _ => rfl⟩

omit single apart in
/-- Every item that is listed is known at the end. -/
theorem Input.knows_item {item : Item} (listed : item ∈ input.items) :
    input.final.Knows item.node := by
  obtain ⟨lengths, resolves⟩ := List.forall₂_iff_get.mp input.resolves_items
  obtain ⟨index, inRange, rfl⟩ := List.getElem_of_mem listed
  exact (resolves index inRange (lengths ▸ inRange)).knows

omit single apart in
/-- The calls that resolve the items are foreseen at the end of the first resolution. -/
theorem Input.foresees_of_resolves {item resolved : Item} {job : Job} (listed : item ∈ input.items)
    (resolves : job.Resolves item resolved) : input.Foresees input.final [] job where
  origins := input.origins
  ends := .refl _
  unknown _ _ resolving := absurd resolving List.not_mem_nil
  job := by
    have known := input.knows_item listed
    cases resolves with
    | dim | function | method => exact known

/-- The second resolution replays the first from item to item. -/
theorem Input.Opens.replayState {s : State} {rest : List Item} {index : Nat} {call : Call}
    (opens : (input.reorder same).Opens s rest index call) (memory : input.ReplayState s)
    (listed : ∀ item ∈ rest, item ∈ input.items)
    (made : ∀ {index call}, (input.reorder same).Opens s rest index call →
      (input.reorder same).Makes call) : input.ReplayState call.before := by
  induction opens with
  | here => exact memory
  | later run opens induction =>
      obtain ⟨job, resolves, first⟩ := run.resolves
      obtain ⟨memory, -⟩ := first.replays single apart (made (.here resolves first))
        (input.foresees_of_resolves (listed _ List.mem_cons_self) resolves) memory
      exact induction memory (fun item member => listed item (List.mem_cons_of_mem _ member))
        fun opens => made (.later run opens)

variable (same) in
/-- Every call of the second resolution is foreseen. -/
theorem Input.Makes.foreseen {call : Call} (made : (input.reorder same).Makes call) :
    input.ReplayState call.before ∧ ∃ moment, input.Foresees moment call.stack call.job := by
  refine made.induct (P := fun call => input.ReplayState call.before ∧
    ∃ moment, input.Foresees moment call.stack call.job) ?_ ?_
  · intro index call opens
    have memory := opens.replayState single apart .initial (fun item => same.mem_iff.mp) .of_opens
    obtain ⟨item, listed, resolved, resolves⟩ := opens.resolves
    rw [opens.stack_eq]
    exact ⟨memory, _, input.foresees_of_resolves (same.mem_iff.mp listed) resolves⟩
  · rintro call index inner made ⟨memory, moment, foresees⟩ starts
    obtain ⟨memory, earlier, foresees, -⟩ := foresees.starts same single apart made memory starts
    exact ⟨memory, earlier, foresees⟩

/-- Without recursion in one order there is none in another. -/
theorem Input.not_recursive_reorder : ¬ (input.reorder same).Recursive := by
  rintro ⟨call, made, reenters⟩
  obtain ⟨memory, moment, foresees⟩ := made.foreseen same single apart
  have inside := made.run.allowed.job
  cases reenters with
  | dim resolving => exact foresees.idle_dim inside resolving
  | signature resolving => exact foresees.idle_signature inside resolving
  | @use _ _ _ _ _ _ _ _ selected decided resolving =>
      have foresees : input.Foresees _ _ (.signature _ selected selected) :=
        foresees.selected single apart made memory.next decided
      obtain ⟨binding, overloads, resolve, bound, calls, selects⟩ := calls_of_verdict decided
      exact foresees.idle_signature (input.mem_of_resolve bound calls selects) resolving

/-! ## Use sites are looked up once -/

omit single apart in
/-- A declaration that is opened by a foreseen call was known at that moment. -/
theorem Call.Opens.knows {call : Call} {declaration : Node} {moment : State}
    (opens : call.Opens declaration) (foresees : input.Foresees moment call.stack call.job) :
    moment.Knows declaration := by
  cases opens with
  | dim | signature => exact foresees.job

/-- No declaration was opened between a call and a part of it at whose end the call is foreseen. -/
theorem Input.Within.stack_eq_of_foresees {call last : Call} {path : List Nat}
    (within : input.Within call path last) (made : input.Makes call) (madeLast : input.Makes last)
    (memory : input.ReplayState call.before)
    (foresees : input.Foresees last.after call.stack call.job) : last.stack = call.stack := by
  induction within with
  | self => rfl
  | step starts rest induction =>
      rcases starts.same_or_opens with here | ⟨-, declaration, frame, opens, -⟩
      · obtain ⟨memory, earlier, foresees, isLast⟩ :=
          foresees.starts (.refl input.items) single apart made memory starts
        obtain rfl := isLast here
        exact (induction (made.starts starts) madeLast memory foresees).trans here
      · -- The declaration is in progress at the end of the part, and would be known there.
        have resolving := opens.resolving (.step starts rest) (List.cons_ne_nil _ _)
        exact absurd (opens.knows foresees) (madeLast.unknown (opens.inside made.run) resolving)

/-- Without recursion a use site is not processed inside of its own processing. -/
theorem Input.Within.eq_nil_of_processes {call other : Call} {path : List Nat} {site : Reference}
    (within : input.Within call path other) (made : input.Makes call)
    (madeOther : input.Makes other) (processes : call.Processes site) (again : other.Processes site)
    (owner : call.stack.owner? = other.stack.owner?) : path = [] := by
  by_contra inside
  obtain ⟨-, apart'⟩ := processes.nested again owner within inside made.run
  obtain ⟨memory, -⟩ := Input.Makes.foreseen (.refl input.items) single apart made
  obtain ⟨⟨resolved, job⟩, -⟩ := processes
  obtain ⟨⟨resolved', job'⟩, -⟩ := again
  -- At its end the inner call has returned a node for the use site of the outer one.
  have foresees : input.Foresees other.after call.stack call.job :=
    { origins := madeOther.keepsOrigins madeOther.origins
      ends := madeOther.after
      unknown := fun declaration inside resolving =>
        madeOther.unknown inside ((within.stack_suffix.map Frame.declaration).mem resolving)
      job := by
        rw [job]
        exact ⟨_, other, madeOther, .refl _, job', owner.symm⟩ }
  have same := within.stack_eq_of_foresees single apart made madeOther memory foresees
  exact apart' (by rw [Call.place, Call.place, same])

/-- Without recursion a use site is looked up once for each owner. -/
theorem Input.At.eq_of_looksUp_of_apart {position position' : List Nat} {call other : Call}
    {site : Reference} (first : input.At position call) (second : input.At position' other)
    (looks : call.LooksUp site) (again : other.LooksUp site)
    (owner : call.stack.owner? = other.stack.owner?) : position = position' := by
  obtain ⟨start, outer, rfl, here, processes, stack_eq⟩ := first.processed looks
  obtain ⟨start', outer', rfl, here', processes', stack_eq'⟩ := second.processed again
  rw [← stack_eq, ← stack_eq'] at owner
  suffices start = start' by rw [this]
  rcases here.compare here' with ⟨rest, rfl, within⟩ | ⟨rest, rfl, within⟩ | ordered | ordered
  · rw [within.eq_nil_of_processes single apart ⟨_, here⟩ ⟨_, here'⟩ processes processes' owner,
      List.append_nil]
  · rw [within.eq_nil_of_processes single apart ⟨_, here'⟩ ⟨_, here⟩ processes' processes
      owner.symm, List.append_nil]
  · exact absurd ordered (processes.not_precedes processes' owner here.run)
  · exact absurd ordered (processes'.not_precedes processes owner.symm here'.run)

/-! ## Errors -/

/-- The errors are those that lookups report, one for each use site and owner. -/
theorem Input.error_sources_of_apart :
    ∃ sources : List ((NodeId × Option NodeId) × Diagnostic),
      sources.map Prod.snd = input.final.errors ∧ (sources.map Prod.fst).Nodup ∧
        ∀ source, source ∈ sources ↔ ∃ call site, input.Makes call ∧
          call.Reports site source.2 ∧ source.1 = (site.id, call.stack.owner?) := by
  refine input.exists_sources (fun site call => (site.id, call.stack.owner?)) ?_
  intro position position' call other site site' error error' here here' reports reports' same
  obtain ⟨sameId, owner⟩ := Prod.mk.inj same
  obtain rfl := reports.looksUp.site_eq reports'.looksUp here.run here'.run sameId
  exact here.eq_of_looksUp_of_apart single apart here' reports.looksUp reports'.looksUp owner

omit single apart in
/-- A lookup reports an error when its use site is decided to have no meaning. -/
theorem Run.reports_iff {stack : Stack} {s s' : State} {site : Reference} {parens : Option Node}
    {meaning : Option Meaning} {error : Diagnostic}
    (run : Run input stack s (.meaning site parens meaning) s') :
    Call.Reports ⟨stack, s, .meaning site parens meaning, s'⟩ site error ↔
      verdict input.scope stack site parens s.next = .failed error := by
  have acts := run.acts
  generalize verdict input.scope stack site parens s.next = decided at acts ⊢
  constructor
  · rintro ⟨⟨parens', job⟩, errors⟩
    cases job
    cases acts with
    | skipped => simp at errors
    | failed reported => simpa [reported] using errors
  · rintro rfl
    cases acts with
    | failed errors => exact ⟨⟨_, rfl⟩, errors⟩

/-- An error that a lookup of the second resolution reports is reported by one of the first. -/
theorem Call.Reports.of_reorder {call : Call} {site : Reference} {error : Diagnostic}
    (made : (input.reorder same).Makes call) (reports : call.Reports site error) :
    ∃ other, input.Makes other ∧ other.Reports site error ∧
      other.stack.owner? = call.stack.owner? := by
  obtain ⟨memory, moment, foresees⟩ := made.foreseen same single apart
  obtain ⟨stack, s, job, s'⟩ := call
  obtain ⟨⟨parens, rfl⟩, errors⟩ := reports
  obtain ⟨parens', found, means, alike⟩ := foresees.job
  have failed := (Run.reports_iff made.run).mp ⟨⟨parens, rfl⟩, errors⟩
  obtain ⟨stack', t, t', first, -, owner, decided⟩ :=
    means.decides single made memory.next alike failed
  exact ⟨_, first, (Run.reports_iff first.run).mpr decided, owner⟩

end Runs

/-! ## Both orders -/

section Orders

variable {input : Input} {items : List Item}

theorem Input.SingleReceiver.reorder (single : input.SingleReceiver)
    (same : items.Perm input.items) : (input.reorder same).SingleReceiver :=
  fun method _ _ met again => single method met.of_reorder again.of_reorder

/-- The same errors are found in both orders. -/
theorem Input.errors_perm (single : input.SingleReceiver) (apart : ¬ input.Recursive)
    (same : items.Perm input.items) :
    (input.reorder same).final.errors.Perm input.final.errors := by
  have single' := single.reorder same
  have apart' : ¬ (input.reorder same).Recursive := Input.not_recursive_reorder single apart
  obtain ⟨sources, errors, distinct, reported⟩ := Input.error_sources_of_apart single apart
  obtain ⟨sources', errors', distinct', reported'⟩ := Input.error_sources_of_apart single' apart'
  rw [← errors, ← errors']
  refine List.Perm.map _ ((List.perm_ext_iff_of_nodup distinct'.of_map distinct.of_map).mpr ?_)
  intro source
  rw [reported, reported']
  constructor
  · rintro ⟨call, site, made, reports, isKey⟩
    obtain ⟨other, made, reports, owner⟩ := reports.of_reorder single apart made
    exact ⟨other, site, made, reports, by rw [isKey, owner]⟩
  · rintro ⟨call, site, made, reports, isKey⟩
    -- The first resolution is the second one with its items in another order.
    have back : (((input.reorder same).reorder same.symm).Makes call) := made
    obtain ⟨other, made, reports, owner⟩ := reports.of_reorder single' apart' back
    exact ⟨other, site, made, reports, by rw [isKey, owner]⟩

/-- The form of an item that is remembered in a state. -/
def State.item? (state : State) : Item → Option Item
  | .dim declared => (state.dims.find? declared.id).map .dim
  | .function declared => (state.signature? .function declared.id).map .function
  | .method receiver declared =>
      (state.signature? .method declared.id).map (.method receiver)

/-- The form that the resolution gives an item, up to the identities of new nodes. -/
def Input.form (input : Input) (item : Item) : Item :=
  ((input.final.item? item).getD item).rename input.blur

/-- Every item is given its form, in any order. -/
theorem Input.map_rename_items (single : input.SingleReceiver) (apart : ¬ input.Recursive)
    (same : items.Perm input.items) :
    (input.reorder same).resolved.items.map (Item.rename input.blur) = items.map input.form := by
  have forms :
      List.Forall₂ (fun item resolved => resolved.rename input.blur = input.form item) items
        (input.reorder same).resolved.items := by
    refine (input.reorder same).makes_items.imp
      fun item resolved ⟨⟨stack, s, job, s'⟩, made, _, resolves⟩ => ?_
    obtain ⟨memory, moment, foresees⟩ := made.foreseen same single apart
    obtain ⟨-, replays⟩ := made.run.replays single apart made foresees memory
    cases resolves with
    | dim =>
        obtain ⟨found, known⟩ := foresees.job
        have ends := foresees.ends.grows.dims known
        simp [form, State.item?, ends, Item.rename, replays found ends]
    | function | method =>
        obtain ⟨found, known⟩ := foresees.job
        have ends := foresees.ends.grows.signatures known
        simp [form, State.item?, ends, Item.rename, replays found ends]
  rw [← List.forall₂_eq_eq_eq, List.forall₂_map_left_iff, List.forall₂_map_right_iff]
  exact forms.flip

/-- When the resolution of some items reaches no declaration that is in progress, it does not in any
other order either.  An item is resolved to one form in both orders, up to the identities of new
nodes, and the errors are the same up to their order. -/
theorem Input.resolved_reorder (input : Input) (methods : input.KeepsMethodsApart)
    (apart : ¬ input.Recursive) (same : items.Perm input.items) :
    ¬ (input.reorder same).Recursive ∧
      (∃ form : Item → Item,
        input.resolved.items.map (Item.rename input.blur) = input.items.map form ∧
          (input.reorder same).resolved.items.map (Item.rename input.blur) = items.map form) ∧
      (input.reorder same).resolved.errors.Perm input.resolved.errors := by
  have single := methods.single
  refine ⟨Input.not_recursive_reorder single apart, ⟨input.form, ?_, ?_⟩, ?_⟩
  · exact Input.map_rename_items single apart (.refl input.items)
  · exact Input.map_rename_items single apart same
  · exact Input.errors_perm single apart same

end Orders

/-! ## Two errors in two orders -/

namespace TwoErrors

def three : Node := .literal ⟨0, .int 3, {}⟩
def size : Dim := ⟨1, "size", three, {}⟩
def k : Param := ⟨3, "k", ⟨2, .int, {}⟩, {}⟩
def params : Node := .list ⟨4, [.param k], {}⟩
def missing : Reference := ⟨5, none, "missing", none, none, .unknown, none, {}⟩
def useK : Reference := ⟨6, none, "k", none, none, .unknown, none, {}⟩
def keepBody : Node := .block ⟨7, [.reference missing, .reference useK], {}⟩
def keep : Signature .method := ⟨8, "keep", params, keepBody, {}⟩
def useSize : Reference := ⟨9, none, "size", none, none, .unknown, none, {}⟩
def arguments : Node := .list ⟨10, [.reference useSize], {}⟩
def call : Reference := ⟨11, some "A", "keep", none, some arguments, .unknown, none, {}⟩
def absent : Reference := ⟨12, none, "absent", none, none, .unknown, none, {}⟩
def mainBody : Node := .block ⟨13, [.reference absent, .reference call], {}⟩
def mainParams : Node := .list ⟨14, [], {}⟩
def main : Signature .function := ⟨15, "main", mainParams, mainBody, {}⟩

def nodes : List Node :=
  [three, .dim size, .typeRef k.typeRef, .param k, params, .reference missing, .reference useK,
    keepBody, .method keep, .reference useSize, arguments, .reference call, .reference absent,
    mainBody, mainParams, .function main]

def graph : Graph :=
  .ofList nodes
    (by simp [nodes, three, size, params, missing, useK, keepBody, keep, useSize, arguments, call,
      absent, mainBody, mainParams, main, Node.children])
    (by decide)

def items : List Item := [.dim size, .method "A" keep, .function main]

theorem same : items.reverse.Perm items :=
  List.reverse_perm items

theorem listed : ∀ item ∈ items, item.node ∈ graph := by
  intro item member
  change item.node ∈ nodes
  simp only [items, List.mem_cons, List.not_mem_nil, or_false] at member
  rcases member with rfl | rfl | rfl <;> simp [nodes, Item.node]

def methods : MethodSet := ⟨"A", ⟨"keep", [keep]⟩⟩
def owner : Receiver := ⟨"A", ⟨[("keep", methods)]⟩⟩

def sizeScope : Scope := { dims := ⟨[("size", size)]⟩ }
def keepScope : Scope := { dims := ⟨[("size", size)]⟩, receivers := ⟨[("A", owner)]⟩ }
def scope : Scope :=
  { dims := ⟨[("size", size)]⟩
    functions := ⟨[("main", ⟨"main", [main]⟩)]⟩
    receivers := ⟨[("A", owner)]⟩ }

theorem scope_declares : scope.Declares graph := by
  have first : sizeScope.Declares graph := .declare .empty (listed (.dim size) (by simp [items]))
    (rfl : Scope.declare {} true _ = .ok sizeScope)
  have second : keepScope.Declares graph :=
    .declare first (listed (.method "A" keep) (by simp [items]))
      (rfl : Scope.declare sizeScope true _ = .ok keepScope)
  exact .declare second (listed (.function main) (by simp [items]))
    (rfl : Scope.declare keepScope true _ = .ok scope)

def input : Input where
  graph
  scope
  items
  next := 16
  declares := scope_declares
  listed
  below {node} inside := (by decide : ∀ node ∈ nodes, node.id < 16) node inside

theorem errors_eq :
    input.resolved.errors = [.unknownName "missing" {}, .unknownName "absent" {}] := rfl

theorem errors_eq_reversed : (input.reorder same).resolved.errors =
    [.unknownName "absent" {}, .unknownName "missing" {}] := rfl

def uses : List Reference := [missing, useK, useSize, call, absent]

theorem mem_uses {site : Reference} (inside : .reference site ∈ graph) : site ∈ uses := by
  replace inside : .reference site ∈ nodes := inside
  simp only [nodes, three, params, keepBody, arguments, mainBody, mainParams, List.mem_cons,
    List.not_mem_nil, or_false, reduceCtorEq, false_or, Node.reference.injEq] at inside
  simpa [uses] using inside

theorem receiver_eq {receiver name : String} {found : MethodSet}
    (h : scope.method? receiver name = some found) : receiver = "A" := by
  obtain ⟨owner', isOwner, -⟩ := Option.bind_eq_some_iff.mp h
  simp only [scope, Scope.receiver?, Table.find?, Table.findEntry?] at isOwner
  split at isOwner
  case isTrue here => exact here.symm
  case isFalse => cases isOwner

/-- Identities go up from contents to their declaration, and from a target to its use sites. -/
theorem ranks : input.Ranks id where
  locals {node child} inside below :=
    (by decide : ∀ node ∈ nodes, ∀ child ∈ node.locals, child.id ≤ node.id) node inside child below
  contents {node contents} inside isContents :=
    (by decide : ∀ node ∈ nodes, ∀ contents ∈ node.contents?, contents.id < node.id) node inside
      contents isContents
  dim {site dim} inside found :=
    (by decide : ∀ site ∈ uses, ∀ dim ∈ scope.dim? site.name, dim.id ≤ site.id) site
      (mem_uses inside) dim found
  function {site overloads} inside found :=
    (by decide : ∀ site ∈ uses, ∀ overloads ∈ scope.function? site.name,
      ∀ candidate ∈ overloads.candidates, candidate.id ≤ site.id) site (mem_uses inside) overloads
      found
  method {site receiver found} inside isFound := by
    obtain rfl := receiver_eq isFound
    exact (by decide : ∀ site ∈ uses, ∀ found ∈ scope.method? "A" site.name,
      ∀ candidate ∈ found.overloads.candidates, candidate.id ≤ site.id) site (mem_uses inside) found
      isFound

theorem keepsMethodsApart : input.KeepsMethodsApart where
  unnested met encloses := by
    obtain ⟨parent, inside, below⟩ := encloses.exists_parent met.mem_graph
    exact (by decide : ∀ node ∈ nodes, ∀ child ∈ node.children, child.kind ≠ .method) parent inside
      _ below rfl
  receivers := by
    have only {method : Signature .method} {receiver : String}
        (places : input.Places method receiver) : receiver = "A" := by
      cases places with
      | listed listed =>
          have isKeep : receiver = "A" ∧ method = keep := by simpa [input, items] using listed
          exact isKeep.1
      | declared found => exact receiver_eq found
    intro method receiver receiver' places again
    exact (only places).trans (only again).symm

end TwoErrors

open TwoErrors in
/-- The body of `main` uses an unknown name and calls the method `keep`, whose body uses another
one.  In the order of the items, `keep` is resolved first; in the reverse order, `main` is. -/
theorem resolved_reorder_twoErrors :
    input.KeepsMethodsApart ∧ ¬ input.Recursive ∧
      input.resolved.errors = [.unknownName "missing" {}, .unknownName "absent" {}] ∧
      (input.reorder same).resolved.errors =
        [.unknownName "absent" {}, .unknownName "missing" {}] ∧
      ¬ (input.reorder same).Recursive ∧
      (∃ form : Item → Item,
        input.resolved.items.map (Item.rename input.blur) = items.map form ∧
          (input.reorder same).resolved.items.map (Item.rename input.blur) =
            items.reverse.map form) ∧
      (input.reorder same).resolved.errors.Perm input.resolved.errors := by
  have apart := ranks.not_recursive
  obtain ⟨apart', forms, errors⟩ := input.resolved_reorder keepsMethodsApart apart same
  exact ⟨keepsMethodsApart, apart, errors_eq, errors_eq_reversed, apart', forms, errors⟩

end ModelLang.Resolution
