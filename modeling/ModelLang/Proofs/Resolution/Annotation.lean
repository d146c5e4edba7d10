import ModelLang.Proofs.Bare
import ModelLang.Proofs.Resolution.Completeness
import ModelLang.Proofs.Resolution.Parts

/-!
# Resolution only annotates

A node that is returned has the bare form of the node that was given, whether it was rebuilt, taken
from a table, or left alone because its declaration is in progress.  A node is rebuilt only where a
use site below it obtains a target; the tables keep this true because they remember for each node
what was returned for it.
-/

namespace ModelLang

namespace Node

/-- The owner of the use sites in the contents of a declaration. -/
def owner? : Node → Option NodeId
  | function signature => some signature.id
  | method signature => some signature.id
  | _ => none

/-- A node that belongs to an owner contains another one, which belongs to the signature or the dim
that it is nested in. -/
inductive Contains : Option NodeId → Node → Option NodeId → Node → Prop
  | self (owner : Option NodeId) (node : Node) : Contains owner node owner node
  | inside {owner owner' : Option NodeId} {node child inner : Node} : child ∈ node.locals →
      Contains owner child owner' inner → Contains owner node owner' inner
  | nested {owner owner' : Option NodeId} {node contents inner : Node} :
      node.contents? = some contents → Contains node.owner? contents owner' inner →
        Contains owner node owner' inner

@[simp]
theorem owner?_signature {c : Callable} (signature : Signature c) :
    signature.node.owner? = some signature.id := by
  cases c <;> rfl

end Node

namespace Resolution

/-- A job visits a node and returns another one for it. -/
inductive Job.Visits : Job → Node → Node → Prop
  | node {given returned} : Visits (.node given returned) given returned
  | dim {given returned} : Visits (.dim given returned) (.dim given) (.dim returned)
  | signature {c : Callable} {receiver} {given returned : Signature c} :
      Visits (.signature receiver given returned) given.node returned.node

namespace Input

/-- A use site obtains a target where its meaning is found for an owner. -/
def Obtains (input : Input) (site : Reference) (owner : Option NodeId) : Prop :=
  ∃ call parens meaning, input.Makes call ∧ call.job = .meaning site parens (some meaning) ∧
    call.stack.owner? = owner

/-- A use site in a node that belongs to an owner obtains a target. -/
def Touches (input : Input) (owner : Option NodeId) (node : Node) : Prop :=
  ∃ owner' site, node.Contains owner owner' (.reference site) ∧ input.Obtains site owner'

/-- What is returned for a node that belongs to an owner differs from it in annotations only, and
it is the node itself unless a use site in it obtains a target. -/
structure Annotates (input : Input) (owner : Option NodeId) (given returned : Node) : Prop where
  bare_eq : returned.bare = given.bare
  kept_or_new : returned = given ∨ input.next ≤ returned.id ∧ input.Touches owner given

/-- Everything remembered is annotated. -/
abbrev AnnotatedState (input : Input) (state : State) : Prop :=
  state.Remembers input.next
    (fun id resolved => ∀ {declared : Dim}, .dim declared ∈ input.graph → declared.id = id →
      ∀ owner, input.Annotates owner (.dim declared) (.dim resolved))
    (fun {c} id resolved => ∀ {declared : Signature c}, declared.node ∈ input.graph →
      declared.id = id → ∀ owner, input.Annotates owner declared.node resolved.node)
    (fun id owner resolved => ∀ {site : Reference}, .reference site ∈ input.graph → site.id = id →
      input.Annotates owner (.reference site) (.reference resolved))

end Input

/-- A job returns what differs in annotations only. -/
def Job.Annotated (input : Input) (stack : Stack) : Job → Prop
  | node given returned => input.Annotates stack.owner? given returned
  | items given returned => List.Forall₂ (input.Annotates stack.owner?) given returned
  | child given returned =>
      List.Forall₂ (input.Annotates stack.owner?) given.toList returned.toList
  | dim given returned => ∀ owner, input.Annotates owner (.dim given) (.dim returned)
  | signature _ given returned => ∀ owner, input.Annotates owner given.node returned.node
  | meaning _ _ _ => True

section

variable {input : Input} {owner : Option NodeId} {s s' : State}

namespace Input

theorem Annotates.refl (node : Node) : input.Annotates owner node node :=
  ⟨rfl, .inl rfl⟩

theorem Annotates.renews {given returned : Node}
    (annotates : input.Annotates owner given returned) :
    input.Renews given returned :=
  annotates.kept_or_new.imp id And.left

theorem Touches.inside {node child : Node} (touches : input.Touches owner child)
    (here : child ∈ node.locals) : input.Touches owner node := by
  obtain ⟨owner', site, contains, obtains⟩ := touches
  exact ⟨owner', site, .inside here contains, obtains⟩

theorem Touches.nested {node contents : Node} (touches : input.Touches node.owner? contents)
    (here : node.contents? = some contents) : input.Touches owner node := by
  obtain ⟨owner', site, contains, obtains⟩ := touches
  exact ⟨owner', site, .nested here contains, obtains⟩

theorem map_bare_eq {given returned : List Node}
    (annotates : List.Forall₂ (input.Annotates owner) given returned) :
    returned.map Node.bare = given.map Node.bare := by
  induction annotates with
  | nil => rfl
  | cons head _ induction => rw [List.map_cons, List.map_cons, head.bare_eq, induction]

/-- Of nodes that were not all kept, one was touched. -/
theorem touches_of_ne {given returned : List Node}
    (annotates : List.Forall₂ (input.Annotates owner) given returned) (changed : returned ≠ given) :
    ∃ node ∈ given, input.Touches owner node := by
  induction annotates with
  | nil => exact absurd rfl changed
  | @cons node returned nodes _ head tail induction =>
      rcases head.kept_or_new with rfl | ⟨-, touches⟩
      · have tailChanged := fun same => changed (congrArg _ same)
        obtain ⟨other, member, touches⟩ := induction tailChanged
        exact ⟨other, List.mem_cons_of_mem _ member, touches⟩
      · exact ⟨node, List.mem_cons_self, touches⟩

theorem child_annotated {given returned : Option Node}
    (annotates : List.Forall₂ (input.Annotates owner) given.toList returned.toList) :
    returned.map Node.bare = given.map Node.bare ∧
      (returned = given ∨ ∃ child ∈ given, input.Touches owner child) := by
  cases given with
  | none =>
      cases returned with
      | none => exact ⟨rfl, .inl rfl⟩
      | some => cases annotates
  | some child =>
      cases returned with
      | none => cases annotates
      | some returned =>
          obtain ⟨annotates, -⟩ := List.forall₂_cons.mp annotates
          refine ⟨congrArg some annotates.bare_eq, ?_⟩
          exact annotates.kept_or_new.imp (congrArg some) fun touched => ⟨child, rfl, touched.2⟩

end Input

/-! ## Rebuilt nodes

A node that is kept because its children bear the identities they were given with has those very
children, so in either case it holds what was returned for its children. -/

section Contents

theorem items_eq_of_rebuildSequence {sequence resolved : Sequence} {items : List Node}
    (inside : ∀ item ∈ sequence.items, item ∈ input.graph)
    (renews : List.Forall₂ input.Renews sequence.items items)
    (rebuilt : rebuildSequence sequence items s = (resolved, s')) : resolved.items = items := by
  rcases rebuildSequence_cases rebuilt with ⟨same, rfl, -⟩ | ⟨rfl, -⟩
  · exact (Input.eq_of_all_same renews inside same).symm
  · rfl

theorem extent_eq_of_rebuildDim {dim resolved : Dim} {extent : Node}
    (inside : .dim dim ∈ input.graph) (renews : input.Renews dim.extent extent)
    (rebuilt : rebuildDim dim extent s = (resolved, s')) : resolved.extent = extent := by
  rcases rebuildDim_cases rebuilt with ⟨same, rfl, -⟩ | ⟨rfl, -⟩
  · have extentInside := input.graph.mem_child inside (Node.mem_children_of_contents? rfl)
    exact (renews.eq_of_id_eq extentInside same).symm
  · rfl

theorem body_eq_of_rebuildSignature {c : Callable} {signature resolved : Signature c} {body : Node}
    (inside : signature.node ∈ input.graph) (renews : input.Renews signature.body body)
    (rebuilt : rebuildSignature signature body s = (resolved, s')) : resolved.body = body := by
  rcases rebuildSignature_cases rebuilt with ⟨same, rfl, -⟩ | ⟨rfl, -⟩
  · have bodyInside := input.graph.mem_child inside
      (Node.mem_children_of_contents? (Node.contents?_signature resolved))
    exact (renews.eq_of_id_eq bodyInside same).symm
  · rfl

theorem children_eq_of_rebuildReference {site resolved : Reference} {brackets parens : Option Node}
    {meaning : Option Meaning} (inside : .reference site ∈ input.graph)
    (bracketsRenew : List.Forall₂ input.Renews site.brackets.toList brackets.toList)
    (parensRenew : List.Forall₂ input.Renews site.parens.toList parens.toList)
    (rebuilt : rebuildReference site brackets parens meaning s = (resolved, s')) :
    resolved.brackets = brackets ∧ resolved.parens = parens := by
  have below {child : Node} (member : child ∈ (Node.reference site).children) :
      child ∈ input.graph := input.graph.mem_child inside member
  rcases rebuildReference_cases rebuilt with ⟨-, bracketsSame, parensSame, rfl, -⟩ | ⟨rfl, -⟩
  · constructor
    · exact (Input.eq_of_sameChild bracketsRenew
        (fun child member => below (by simp_all [Node.children])) bracketsSame).symm
    · exact (Input.eq_of_sameChild parensRenew
        (fun child member => below (by simp_all [Node.children])) parensSame).symm
  · exact ⟨rfl, rfl⟩

end Contents

theorem sameChild_self (child : Option Node) : Node.sameChild child child = true := by
  cases child <;> simp [Node.sameChild, Node.same]

section Rebuilding

variable (begins : input.next ≤ s.next)

include begins

theorem annotates_of_rebuildSequence {sequence resolved : Sequence} {items : List Node}
    (inside : ∀ item ∈ sequence.items, item ∈ input.graph)
    (annotates : List.Forall₂ (input.Annotates owner) sequence.items items)
    (rebuilt : rebuildSequence sequence items s = (resolved, s')) :
    resolved.bare = sequence.bare ∧
      (resolved = sequence ∨
        input.next ≤ resolved.id ∧ ∃ item ∈ sequence.items, input.Touches owner item) := by
  by_cases kept : items = sequence.items
  · subst kept
    have same : (List.zipWith Node.same sequence.items sequence.items).all id = true := by
      simp [List.zipWith_self, Node.same]
    rw [rebuildSequence, if_pos same] at rebuilt
    cases rebuilt
    exact ⟨rfl, .inl rfl⟩
  · rcases rebuildSequence_cases rebuilt with ⟨same, -, -⟩ | ⟨rfl, -⟩
    · have renews := annotates.imp fun _ _ node => node.renews
      exact absurd (Input.eq_of_all_same renews inside same) kept
    · refine ⟨?_, .inr ⟨begins, Input.touches_of_ne annotates kept⟩⟩
      rw [SequenceOf.bare, SequenceOf.bare, Input.map_bare_eq annotates]

theorem annotates_of_rebuildDim {dim resolved : Dim} {extent : Node}
    (annotates : input.Annotates none dim.extent extent)
    (rebuilt : rebuildDim dim extent s = (resolved, s')) :
    input.Annotates owner (.dim dim) (.dim resolved) := by
  rcases annotates.kept_or_new with rfl | ⟨-, touches⟩
  · rw [rebuildDim, if_pos (by simp [Node.same])] at rebuilt
    cases rebuilt
    exact .refl _
  · rcases rebuildDim_cases rebuilt with ⟨-, rfl, -⟩ | ⟨rfl, -⟩
    · exact .refl _
    · exact ⟨by simp [DimOf.bare, annotates.bare_eq], .inr ⟨begins, touches.nested rfl⟩⟩

theorem annotates_of_rebuildSignature {c : Callable} {signature resolved : Signature c}
    {body : Node} (annotates : input.Annotates (some signature.id) signature.body body)
    (rebuilt : rebuildSignature signature body s = (resolved, s')) :
    input.Annotates owner signature.node resolved.node := by
  rcases annotates.kept_or_new with rfl | ⟨-, touches⟩
  · rw [rebuildSignature, if_pos (by simp [Node.same])] at rebuilt
    cases rebuilt
    exact .refl _
  · rcases rebuildSignature_cases rebuilt with ⟨-, rfl, -⟩ | ⟨rfl, -⟩
    · exact .refl _
    · refine ⟨by simp [SignatureOf.bare, annotates.bare_eq], .inr ⟨?_, ?_⟩⟩
      · rw [SignatureOf.id_node]
        exact begins
      · rw [← Node.owner?_signature] at touches
        exact touches.nested (Node.contents?_signature signature)

theorem annotates_of_rebuildReference {site resolved : Reference} {brackets parens : Option Node}
    {meaning : Option Meaning}
    (bracketsAnnotate :
      List.Forall₂ (input.Annotates owner) site.brackets.toList brackets.toList)
    (parensAnnotate : List.Forall₂ (input.Annotates owner) site.parens.toList parens.toList)
    (obtains : meaning ≠ none → input.Obtains site owner)
    (rebuilt : rebuildReference site brackets parens meaning s = (resolved, s')) :
    input.Annotates owner (.reference site) (.reference resolved) := by
  obtain ⟨bracketsBare, bracketsKept⟩ := Input.child_annotated bracketsAnnotate
  obtain ⟨parensBare, parensKept⟩ := Input.child_annotated parensAnnotate
  by_cases touches : input.Touches owner (.reference site)
  · rcases rebuildReference_cases rebuilt with ⟨-, -, -, rfl, -⟩ | ⟨rfl, -⟩
    · exact .refl _
    · refine ⟨?_, .inr ⟨begins, touches⟩⟩
      simp [ReferenceOf.bare, bracketsBare, parensBare]
  · have unmeant : meaning = none := by
      by_contra meant
      exact touches ⟨owner, site, .self _ _, obtains meant⟩
    have untouched {child : Node} (here : child ∈ (Node.reference site).locals) :
        ¬ input.Touches owner child := fun inner => touches (inner.inside here)
    obtain rfl : brackets = site.brackets := by
      refine bracketsKept.resolve_right ?_
      rintro ⟨child, member, inner⟩
      exact untouched (by simp_all [Node.locals]) inner
    obtain rfl : parens = site.parens := by
      refine parensKept.resolve_right ?_
      rintro ⟨child, member, inner⟩
      exact untouched (by simp_all [Node.locals]) inner
    rw [rebuildReference, if_pos (by simp [unmeant, sameChild_self])] at rebuilt
    cases rebuilt
    exact .refl _

end Rebuilding

/-- A run returns nodes that differ in annotations only, and remembers no others. -/
theorem Run.annotated {stack : Stack} {job : Job} (run : Run input stack s job s')
    (made : input.Makes ⟨stack, s, job, s'⟩) (memory : input.AnnotatedState s) :
    input.AnnotatedState s' ∧ job.Annotated input stack := by
  induction run with
  | literal | typeRef | param => exact ⟨memory, .refl _⟩
  | list allowed run rebuilt induction =>
      have below : ∀ item ∈ _, item ∈ input.graph :=
        fun item member => input.graph.mem_child allowed.job member
      obtain ⟨memory, items⟩ := induction (made.starts (.list run rebuilt)) memory
      obtain ⟨bare_eq, kept | ⟨new, item, member, touches⟩⟩ :=
        annotates_of_rebuildSequence memory.next below items rebuilt
      all_goals refine ⟨memory.of_allots (allots_of_rebuildSequence rebuilt), by simp [bare_eq], ?_⟩
      · exact .inl (congrArg _ kept)
      · exact .inr ⟨new, touches.inside member⟩
  | block allowed run rebuilt induction =>
      have below : ∀ item ∈ _, item ∈ input.graph :=
        fun item member => input.graph.mem_child allowed.job member
      obtain ⟨memory, items⟩ := induction (made.starts (.block run rebuilt)) memory
      obtain ⟨bare_eq, kept | ⟨new, item, member, touches⟩⟩ :=
        annotates_of_rebuildSequence memory.next below items rebuilt
      all_goals refine ⟨memory.of_allots (allots_of_rebuildSequence rebuilt), by simp [bare_eq], ?_⟩
      · exact .inl (congrArg _ kept)
      · exact .inr ⟨new, touches.inside member⟩
  | dim allowed run induction =>
      obtain ⟨memory, annotates⟩ := induction (made.starts (.dim run)) memory
      exact ⟨memory, annotates _⟩
  | function allowed run induction =>
      obtain ⟨memory, annotates⟩ := induction (made.starts (.function run)) memory
      exact ⟨memory, annotates _⟩
  | method allowed run induction =>
      obtain ⟨memory, annotates⟩ := induction (made.starts (.method run)) memory
      exact ⟨memory, annotates _⟩
  | remembered allowed found => exact ⟨memory, memory.uses found allowed.job rfl⟩
  | reference allowed missing bracketsRun parensRun meaningRun rebuilt brackets parens meaning =>
      have visits : input.Visits _ _ _ _ _ _ _ _ _ _ _ :=
        ⟨missing, bracketsRun, parensRun, meaningRun, by rw [rebuilt], by rw [rebuilt]⟩
      obtain ⟨memory, brackets⟩ := brackets (made.starts (.brackets visits)) memory
      obtain ⟨memory, parens⟩ := parens (made.starts (.parens visits)) memory
      have called := made.starts (.meaning visits)
      obtain ⟨memory, -⟩ := meaning called memory
      have annotates := annotates_of_rebuildReference memory.next brackets parens
        (fun meant => ?obtains) rebuilt
      case obtains =>
        obtain ⟨found, rfl⟩ := Option.ne_none_iff_exists'.mp meant
        exact ⟨_, _, found, called, rfl, rfl⟩
      refine ⟨(memory.of_allots (allots_of_rebuildReference rebuilt)).rememberUse ?_, annotates⟩
      intro site inside same
      cases input.graph.eq_of_id inside allowed.job same
      exact annotates
  | nil => exact ⟨memory, .nil⟩
  | cons allowed itemRun itemsRun item items =>
      obtain ⟨memory, item⟩ := item (made.starts (.head itemRun itemsRun)) memory
      obtain ⟨memory, items⟩ := items (made.starts (.tail itemRun itemsRun)) memory
      exact ⟨memory, .cons item items⟩
  | noChild => exact ⟨memory, .nil⟩
  | child allowed run induction =>
      obtain ⟨memory, child⟩ := induction (made.starts (.child run)) memory
      exact ⟨memory, .cons child .nil⟩
  | dimRemembered allowed found => exact ⟨memory, memory.dims found allowed.job rfl⟩
  | dimInProgress => exact ⟨memory, fun _ => .refl _⟩
  | dimFresh allowed missing idle run rebuilt induction =>
      obtain ⟨memory, extent⟩ :=
        induction (made.starts (.extent missing idle run rebuilt rfl)) memory
      have annotates (owner) : input.Annotates owner _ _ :=
        annotates_of_rebuildDim memory.next extent rebuilt
      refine ⟨(memory.of_allots (allots_of_rebuildDim rebuilt)).rememberDim ?_, annotates⟩
      intro dim inside same
      cases input.graph.eq_of_id inside allowed.job same
      exact annotates
  | signatureRemembered allowed found =>
      exact ⟨memory, memory.signatures found allowed.job rfl⟩
  | signatureInProgress => exact ⟨memory, fun _ => .refl _⟩
  | signatureFresh allowed missing idle run rebuilt induction =>
      obtain ⟨memory, body⟩ := induction (made.starts (.body missing idle run rebuilt rfl)) memory
      have annotates (owner) : input.Annotates owner _ _ :=
        annotates_of_rebuildSignature memory.next body rebuilt
      have allots := allots_of_rebuildSignature rebuilt
      refine ⟨(memory.of_allots allots).rememberSignature ?_, annotates⟩
      intro signature inside same
      replace same := input.graph.eq_of_id inside allowed.job (by simpa using same)
      obtain rfl := SignatureOf.node_inj same
      exact annotates
  | skipped => exact ⟨memory, trivial⟩
  | unbound => exact ⟨memory.withError _, trivial⟩
  | paramMeant => exact ⟨memory.withEvent _, trivial⟩
  | dimMeant allowed known bound run induction =>
      obtain ⟨memory, -⟩ := induction (made.starts (.target known bound run rfl rfl)) memory
      exact ⟨memory.withEvent _, trivial⟩
  | refused allowed known bound calls applied =>
      have allots := allots_of_argumentsOf applied
      exact ⟨((memory.of_allots allots).withEvent _).withError _, trivial⟩
  | recursive allowed known bound calls applied =>
      have allots := allots_of_argumentsOf applied
      exact ⟨((memory.of_allots allots).withEvent _).withEvent _, trivial⟩
  | entered allowed known bound calls applied selects idle run induction =>
      have allots := allots_of_argumentsOf applied
      have enters := made.starts (.entered known bound calls applied selects idle run rfl rfl)
      obtain ⟨memory, -⟩ := induction enters ((memory.of_allots allots).withEvent _)
      exact ⟨memory.withEvent _, trivial⟩

/-- Whenever a call is made, everything remembered is annotated. -/
theorem Input.Makes.annotatedState {call : Call} (made : input.Makes call) :
    input.AnnotatedState call.before :=
  made.keeps .advance (fun memory => memory.withEvent _)
    (fun made memory => (made.run.annotated made memory).1) .initial

theorem Input.Makes.annotated {call : Call} (made : input.Makes call) :
    call.job.Annotated input call.stack :=
  (made.run.annotated made made.annotatedState).2

/-- A visited node is returned with annotations only. -/
theorem Input.Makes.annotates {call : Call} {given returned : Node} (made : input.Makes call)
    (visits : call.job.Visits given returned) :
    input.Annotates call.stack.owner? given returned := by
  have annotated := made.annotated
  cases call
  cases visits with
  | node => exact annotated
  | dim => exact annotated _
  | signature => exact annotated _

theorem Job.Resolves.visits {job : Job} {item resolved : Item}
    (resolves : job.Resolves item resolved) : job.Visits item.node resolved.node := by
  cases resolves <;> constructor

theorem Job.Resolves.bare_eq {job : Job} {item resolved : Item}
    (resolves : job.Resolves item resolved) (same : resolved.node.bare = item.node.bare) :
    resolved.bare = item.bare := by
  cases resolves with
  | dim => exact congrArg Item.dim (Node.dim.inj same)
  | function => exact congrArg Item.function (Node.function.inj same)
  | method => exact congrArg (Item.method _) (Node.method.inj same)

/-- Items are returned in their order, with annotations only. -/
theorem Input.map_bare_items (input : Input) :
    input.resolved.items.map Item.bare = input.items.map Item.bare := by
  have bare_eq : List.Forall₂ (fun item resolved => resolved.bare = item.bare) input.items
      input.resolved.items := by
    refine input.makes_items.imp fun item resolved ⟨call, made, _, resolves⟩ => ?_
    exact resolves.bare_eq (made.annotates resolves.visits).bare_eq
  rw [← List.forall₂_eq_eq_eq, List.forall₂_map_left_iff, List.forall₂_map_right_iff]
  exact bare_eq.flip

/-- The resolution returns one item for each item, with the same bare form and the same text.  A
node that is visited is returned with the same bare form, and it is the node itself when no use
site in it obtains a target. -/
theorem Input.resolved_annotates (input : Input) :
    input.resolved.items.map Item.bare = input.items.map Item.bare ∧
      input.resolved.items.map Item.text = input.items.map Item.text ∧
      ∀ {call : Call} {given returned : Node}, input.Makes call → call.job.Visits given returned →
        returned.bare = given.bare ∧
          ((∀ {site owner}, given.Contains call.stack.owner? owner (.reference site) →
            ¬ input.Obtains site owner) → returned = given) := by
  refine ⟨input.map_bare_items, ?_, fun made visits => ?_⟩
  · have texts := congrArg (List.map Item.text) input.map_bare_items
    simpa only [List.map_map, Function.comp_def, Item.text_bare] using texts
  · have annotates := made.annotates visits
    refine ⟨annotates.bare_eq, fun silent => annotates.kept_or_new.resolve_right ?_⟩
    rintro ⟨-, owner, site, contains, obtains⟩
    exact silent contains obtains

end

namespace UnknownReceiver

def three : Node := .literal ⟨0, .int 3, {}⟩
def n : Dim := ⟨1, "n", three, {}⟩
def noParams : Node := .list ⟨2, [], {}⟩
def useN : Reference := ⟨3, none, "n", none, none, .unknown, none, {}⟩
def main : Signature .function := ⟨5, "main", noParams, .block ⟨4, [.reference useN], {}⟩, {}⟩
def unknown : Reference := ⟨6, some "other", "x", none, none, .unknown, none, {}⟩
def stuck : Signature .function :=
  ⟨8, "stuck", noParams, .block ⟨7, [.reference unknown], {}⟩, {}⟩

def nodes : List Node :=
  [three, .dim n, noParams, .reference useN, main.body, .function main, .reference unknown,
    stuck.body, .function stuck]

def input : Input where
  graph := .ofList nodes
    (by simp [nodes, three, n, noParams, useN, main, unknown, stuck, Node.children]) (by decide)
  scope := { dims := ⟨[("n", n)]⟩ }
  items := [.function main, .function stuck]
  next := 9
  declares := .declare .empty (by simp [nodes, Item.node] : (Item.dim n).node ∈ nodes)
    (rfl : Scope.declare {} true _ = .ok _)
  listed item member := by
    change item.node ∈ nodes
    simp only [List.mem_cons, List.not_mem_nil, or_false] at member
    rcases member with rfl | rfl <;> simp [nodes, Item.node]
  below {node} inside := (by decide : ∀ node ∈ nodes, node.id < 9) node inside

def resolvedUseN : Reference := { useN with id := 9, ty := .int, target := some (.dim n) }
def resolvedMain : Signature .function :=
  { main with id := 11, body := .block ⟨10, [.reference resolvedUseN], {}⟩ }

theorem items_eq : input.resolved.items = [.function resolvedMain, .function stuck] := rfl

/-- The use site `other.x` obtains no target, wherever it stands. -/
theorem not_obtains (owner : Option NodeId) : ¬ input.Obtains unknown owner := by
  rintro ⟨⟨stack, before, job, after⟩, parens, meaning, made, rfl, -⟩
  have failed : lookup input.scope stack unknown = .error (.unknownReceiver "other" "x" {}) := rfl
  have run : Run input stack before (.meaning unknown parens (some meaning)) after := made.run
  cases run with
  | paramMeant _ _ bound | dimMeant _ _ bound | recursive _ _ bound | entered _ _ bound =>
      cases failed.symm.trans bound

theorem eq_unknown_of_contains {owner owner' : Option NodeId} {site : Reference}
    (contains : (Node.function stuck).Contains owner owner' (.reference site)) :
    site = unknown := by
  cases contains with
  | inside member => cases member
  | nested isBody inBody =>
      cases isBody
      cases inBody with
      | inside member here =>
          obtain rfl := List.mem_singleton.mp member
          cases here with
          | self => rfl
          | inside member => cases member
          | nested isContents => cases isContents
      | nested isContents => cases isContents

end UnknownReceiver

open UnknownReceiver in
/-- The use site in `function main() {n}` obtains the dim `n`, and the function is rebuilt.  The use
site in `function stuck() {other.x}` obtains nothing, since there is no receiver `other`, and the
function is kept. -/
theorem resolved_annotates_unknownReceiver :
    input.resolved.items = [.function resolvedMain, .function stuck] ∧
      input.resolved.errors = [.unknownReceiver "other" "x" {}] ∧
      (∃ call, input.Makes call ∧ call.job.Visits (.function main) (.function resolvedMain) ∧
        resolvedMain.id ≠ main.id ∧ resolvedMain.bare = main.bare ∧
          ∃ site owner, (Node.function main).Contains call.stack.owner? owner (.reference site) ∧
            input.Obtains site owner) ∧
      ∃ call returned, input.Makes call ∧ call.job.Visits (.function stuck) returned ∧
        (∀ {site owner}, (Node.function stuck).Contains call.stack.owner? owner (.reference site) →
          ¬ input.Obtains site owner) ∧ returned = .function stuck := by
  obtain ⟨-, -, annotated⟩ := input.resolved_annotates
  have calls := input.makes_items
  rw [items_eq] at calls
  obtain ⟨⟨rebuilding, rebuilds, -, mainResolves⟩, calls⟩ := List.forall₂_cons.mp calls
  obtain ⟨⟨keeping, keeps, -, stuckResolves⟩, -⟩ := List.forall₂_cons.mp calls
  refine ⟨items_eq, rfl, ?_, ?_⟩
  · obtain ⟨bare_eq, kept⟩ := annotated rebuilds mainResolves.visits
    refine ⟨rebuilding, rebuilds, mainResolves.visits, by decide, Node.function.inj bare_eq, ?_⟩
    by_contra silent
    have same := kept fun contains obtains => silent ⟨_, _, contains, obtains⟩
    exact absurd (congrArg Node.id same) (by decide)
  · have silent {site owner}
        (contains : (Node.function stuck).Contains keeping.stack.owner? owner (.reference site)) :
        ¬ input.Obtains site owner :=
      eq_unknown_of_contains contains ▸ not_obtains owner
    refine ⟨keeping, _, keeps, stuckResolves.visits, silent, ?_⟩
    exact (annotated keeps stuckResolves.visits).2 silent

end Resolution

end ModelLang
