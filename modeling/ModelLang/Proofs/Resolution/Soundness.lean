import ModelLang.Proofs.Resolution.Adequacy
import ModelLang.Proofs.Resolution.Binding

/-!
# Targets and types are right

The tables of a resolution hold sound declarations and sound use sites all along.  A use site is
remembered together with the signature that owns it, and that signature fixes the parameters it is
sound for; this is what lets a use site that occurs in two places be resolved once for each of its
owners.
-/

namespace ModelLang.Resolution

/-- The parameters visible in a frame. -/
def Frame.formals : Frame → List Param
  | extent _ => []
  | body _ _ params => params

/-- The parameters visible now. -/
def Stack.formals (stack : Stack) : List Param :=
  (stack.head?.map Frame.formals).getD []

/-- A visible parameter is one of the enclosing declaration, and it bears the name. -/
theorem Stack.mem_formals {stack : Stack} {name : String} {param : Param}
    (h : stack.param? name = some param) : param ∈ stack.formals ∧ param.name = name := by
  cases stack with
  | nil => cases h
  | cons frame stack =>
      cases frame with
      | extent => cases h
      | body signature receiver params =>
          have found : params.reverse.find? (fun param => param.name == name) = some param := h
          exact ⟨List.mem_reverse.mp (List.mem_of_find?_eq_some found),
            beq_iff_eq.mp (List.find?_some found :)⟩

/-- The parameters that the use sites of an owner see. -/
inductive Sees (graph : Graph) : Option NodeId → List Param → Prop
  | none : Sees graph none []
  | some {declaration : Node} : declaration ∈ graph →
      Sees graph (some declaration.id) declaration.formals

namespace Sees

variable {graph : Graph}

/-- An owner fixes the parameters, since its identity stands for one declaration. -/
theorem unique {owner : Option NodeId} {params params' : List Param}
    (first : Sees graph owner params) (second : Sees graph owner params') : params = params' := by
  cases first with
  | none =>
      cases second
      rfl
  | some inside =>
      generalize same : Option.some _ = owner at second
      cases second with
      | none => cases same
      | some inside' => rw [graph.eq_of_id inside inside' (Option.some.inj same)]

/-- The use sites that are resolved now see the parameters visible now. -/
theorem of_stack {stack : Stack} (proper : stack.Of graph) :
    Sees graph stack.owner? stack.formals := by
  cases stack with
  | nil => exact .none
  | cons frame stack =>
      obtain ⟨declaration, inside, opens⟩ := proper.opens frame (by simp)
      cases opens with
      | dim => exact .none
      | signature signature receiver =>
          have sees := Sees.some inside
          rwa [SignatureOf.id_node, Node.formals_signature] at sees

end Sees

namespace Input

/-- A dim is remembered for another that it is the resolved form of, and it is sound. -/
def SoundDim (input : Input) (id : NodeId) (resolved : Dim) : Prop :=
  input.Sound [] (.dim resolved) ∧
    ∀ {declared : Dim}, .dim declared ∈ input.graph → declared.id = id →
      resolved = { declared with id := resolved.id, extent := resolved.extent }

/-- A signature is remembered for another that it is the resolved form of, and it is sound. -/
def SoundSignature (input : Input) {c : Callable} (id : NodeId) (resolved : Signature c) : Prop :=
  input.Sound [] resolved.node ∧
    ∀ {declared : Signature c}, declared.node ∈ input.graph → declared.id = id →
      resolved = { declared with id := resolved.id, body := resolved.body }

/-- A use site is sound for the parameters that its owner makes visible. -/
def SoundUse (input : Input) (owner : Option NodeId) (resolved : Reference) : Prop :=
  ∀ {params}, Sees input.graph owner params → input.Sound params (.reference resolved)

/-- Everything remembered is sound. -/
abbrev SoundState (input : Input) (state : State) : Prop :=
  state.Remembers input.next input.SoundDim input.SoundSignature fun _ => input.SoundUse

end Input

/-- A job returns what is sound where it is met. -/
def Job.Sound (input : Input) (stack : Stack) : Job → Prop
  | node _ returned => input.Sound stack.formals returned
  | items _ returned => ∀ item ∈ returned, input.Sound stack.formals item
  | child _ returned => ∀ child ∈ returned, input.Sound stack.formals child
  | dim given returned =>
      input.Sound [] (.dim returned) ∧
        (returned = given ∨ input.final.ResolvesDim given returned)
  | signature _ given returned =>
      input.Sound [] returned.node ∧
        (stack.Resolving given.id ∨ input.final.ResolvesSignature given returned)
  | meaning site parens returned =>
      ∀ meaning ∈ returned, input.Sound [] meaning.2.node ∧
        ∀ id brackets,
          input.Binds stack.formals
            { site with id, brackets, parens, ty := meaning.1, target := some meaning.2 } meaning.2

section Runs

variable {input : Input} {stack : Stack} {s s' : State} {job : Job}

/-- A dim whose extent is sound is sound under the identity it was declared with. -/
theorem soundDim_of_rebuildDim (plain : input.Plain) {dim resolved : Dim} {extent : Node}
    (inside : .dim dim ∈ input.graph) (sound : input.Sound [] extent)
    (rebuilt : rebuildDim dim extent s = (resolved, s')) : input.SoundDim dim.id resolved := by
  have only {declared : Dim} (other : .dim declared ∈ input.graph) (same : declared.id = dim.id) :
      declared = dim := Node.dim.inj (input.graph.eq_of_id other inside same)
  rcases rebuildDim_cases rebuilt with ⟨-, rfl, -⟩ | ⟨rfl, -⟩
  · refine ⟨.of_plain plain inside, fun other same => ?_⟩
    rw [only other same]
  · refine ⟨.dim sound, fun other same => ?_⟩
    rw [only other same]

/-- A signature whose body is sound is sound under the identity it was declared with. -/
theorem soundSignature_of_rebuildSignature (plain : input.Plain) {c : Callable}
    {signature resolved : Signature c} {body : Node} (inside : signature.node ∈ input.graph)
    (sound : input.Sound signature.formals body)
    (rebuilt : rebuildSignature signature body s = (resolved, s')) :
    input.SoundSignature signature.id resolved := by
  have only {declared : Signature c} (other : declared.node ∈ input.graph)
      (same : declared.id = signature.id) : declared = signature :=
    SignatureOf.node_inj (input.graph.eq_of_id other inside (by simpa using same))
  rcases rebuildSignature_cases rebuilt with ⟨-, rfl, -⟩ | ⟨rfl, -⟩
  · refine ⟨.of_plain plain inside, fun other same => ?_⟩
    rw [only other same]
  · refine ⟨.signature sound, fun other same => ?_⟩
    rw [only other same]

/-- A use site is sound when its children and its meaning are. -/
theorem sound_of_rebuildReference (plain : input.Plain) {site resolved : Reference}
    {brackets parens : Option Node} {meaning : Option Meaning}
    (inside : .reference site ∈ input.graph)
    (bracketsSound : (Job.child site.brackets brackets).Sound input stack)
    (parensSound : (Job.child site.parens parens).Sound input stack)
    (meaningSound : (Job.meaning site parens meaning).Sound input stack)
    (rebuilt : rebuildReference site brackets parens meaning s = (resolved, s')) :
    input.Sound stack.formals (.reference resolved) := by
  rcases rebuildReference_cases rebuilt with ⟨-, -, -, rfl, -⟩ | ⟨rfl, -⟩
  · exact .of_plain plain inside
  · cases meaning with
    | none => exact .reference bracketsSound parensSound (by simp) (by simp)
    | some meaning =>
        obtain ⟨target, binds⟩ := meaningSound meaning rfl
        refine .reference bracketsSound parensSound ?_ ?_
        · rintro _ ⟨⟩
          exact binds _ _
        · rintro _ ⟨⟩
          exact target

/-- The overload that a call selects is the selected candidate of the resolved use site. -/
theorem selects_of_resolve {site : Reference} {parens : Option Node} {binding : Binding}
    {arguments : Node} {c : Callable} {receiver : Option String}
    {overloads : OverloadSet (Signature c)}
    {resolve : Node → Span → Except Diagnostic (Signature c)} {selected : Signature c}
    (begins : input.next ≤ s.next) (bound : lookup input.scope stack site = .ok binding)
    (calls : binding.Calls receiver overloads resolve)
    (applied : argumentsOf site parens s = (arguments, s'))
    (selects : resolve arguments site.span = .ok selected) (id : NodeId) (brackets : Option Node)
    (ty : Ty) (target : Option Target) :
    input.Selects { site with id, brackets, parens, ty, target } selected := by
  have within := input.declares.within
  have found := found_of_lookup bound
  have files := calls.files found within
  have chosen := calls.resolve_eq_ok_iff_choose.mp selects
  refine ⟨overloads, arguments, ?_, files.name_eq,
    (OverloadSet.mem_of_choose_eq_unique chosen).1, ?_, OverloadSet.resolveAs_eq_ok_iff.mpr chosen⟩
  · cases calls with
    | function overloads =>
        cases found with
        | function unqualified found => exact .function unqualified found
    | method method =>
        cases found with
        | method here found =>
            refine .method (fun qualifier qualified => ?_) found (within.method found).1
            rw [Option.mem_def.mp qualified] at here
            exact Option.some.inj here
  · rcases argumentsOf_cases applied with ⟨given, -⟩ | ⟨missing, new, -⟩
    · exact .inl given
    · exact .inr ⟨missing, s.next, begins, new⟩

/-- A run inside a whole resolution keeps what is remembered sound and returns what is sound. -/
theorem Run.sound (plain : input.Plain) (run : Run input stack s job s')
    (ends : s'.Grows input.final) (memory : input.SoundState s) :
    input.SoundState s' ∧ job.Sound input stack := by
  induction run with
  | literal allowed => exact ⟨memory, .literal⟩
  | typeRef allowed => exact ⟨memory, .typeRef⟩
  | param allowed => exact ⟨memory, .param⟩
  | list allowed run rebuilt induction =>
      have allots := allots_of_rebuildSequence rebuilt
      obtain ⟨memory, items⟩ := induction (allots.grows.trans ends) memory
      refine ⟨memory.of_allots allots, ?_⟩
      rcases rebuildSequence_cases rebuilt with ⟨-, rfl, -⟩ | ⟨rfl, -⟩
      · exact .of_plain plain allowed.job
      · exact .list items
  | block allowed run rebuilt induction =>
      have allots := allots_of_rebuildSequence rebuilt
      obtain ⟨memory, items⟩ := induction (allots.grows.trans ends) memory
      refine ⟨memory.of_allots allots, ?_⟩
      rcases rebuildSequence_cases rebuilt with ⟨-, rfl, -⟩ | ⟨rfl, -⟩
      · exact .of_plain plain allowed.job
      · exact .block items
  | dim allowed run induction =>
      obtain ⟨memory, sound, -⟩ := induction ends memory
      exact ⟨memory, sound.of_dim⟩
  | function allowed run induction =>
      obtain ⟨memory, sound, -⟩ := induction ends memory
      exact ⟨memory, sound.of_signature⟩
  | method allowed run induction =>
      obtain ⟨memory, sound, -⟩ := induction ends memory
      exact ⟨memory, sound.of_signature⟩
  | remembered allowed found =>
      exact ⟨memory, memory.uses found (.of_stack allowed.stack)⟩
  | @reference stack s₀ s₁ s₂ s₃ s₄ site _ _ _ resolved allowed missing bracketsRun parensRun
      meaningRun rebuilt brackets parens meaning =>
      have allots := allots_of_rebuildReference rebuilt
      have ends₃ : s₃.Grows input.final :=
        allots.grows.trans ((State.Grows.rememberUse _ _ _ _).trans ends)
      have ends₂ := meaningRun.grows.trans ends₃
      obtain ⟨memory, brackets⟩ := brackets (parensRun.grows.trans ends₂) memory
      obtain ⟨memory, parens⟩ := parens ends₂ memory
      obtain ⟨memory, meaning⟩ := meaning ends₃ memory
      have sound := sound_of_rebuildReference plain allowed.job brackets parens meaning rebuilt
      refine ⟨(memory.of_allots allots).rememberUse fun sees => ?_, sound⟩
      rw [sees.unique (.of_stack allowed.stack)]
      exact sound
  | nil => exact ⟨memory, by simp [Job.Sound]⟩
  | cons allowed itemRun itemsRun item items =>
      obtain ⟨memory, item⟩ := item (itemsRun.grows.trans ends) memory
      obtain ⟨memory, items⟩ := items ends memory
      exact ⟨memory, List.forall_mem_cons.mpr ⟨item, items⟩⟩
  | noChild => exact ⟨memory, by simp [Job.Sound]⟩
  | child allowed run induction =>
      obtain ⟨memory, child⟩ := induction ends memory
      exact ⟨memory, by simpa [Job.Sound] using child⟩
  | dimRemembered allowed found =>
      obtain ⟨sound, resolved_eq⟩ := memory.dims found
      exact ⟨memory, sound, .inr ⟨ends.dims found, resolved_eq allowed.job rfl⟩⟩
  | dimInProgress allowed => exact ⟨memory, .of_plain plain allowed.job, .inl rfl⟩
  | dimFresh allowed missing idle run rebuilt induction =>
      have kept := run.grows_rememberDim missing rebuilt
      obtain ⟨memory, extent⟩ := induction (kept.trans ends) memory
      have sound := soundDim_of_rebuildDim plain allowed.job extent rebuilt
      have remembered := ends.dims (Table.find?_insert_self _ _ _)
      exact ⟨(memory.of_allots (allots_of_rebuildDim rebuilt)).rememberDim sound, sound.1,
        .inr ⟨remembered, sound.2 allowed.job rfl⟩⟩
  | signatureRemembered allowed found =>
      obtain ⟨sound, resolved_eq⟩ := memory.signatures found
      exact ⟨memory, sound, .inr ⟨ends.signatures found, resolved_eq allowed.job rfl⟩⟩
  | signatureInProgress allowed missing resolving =>
      exact ⟨memory, .of_plain plain allowed.job, .inl resolving⟩
  | signatureFresh allowed missing idle run rebuilt induction =>
      have kept := run.grows_rememberSignature missing rebuilt
      obtain ⟨memory, body⟩ := induction (kept.trans ends) memory
      have sound := soundSignature_of_rebuildSignature plain allowed.job body rebuilt
      have remembered := ends.signatures (State.signature?_rememberSignature_self _ _ _)
      exact ⟨(memory.of_allots (allots_of_rebuildSignature rebuilt)).rememberSignature sound,
        sound.1, .inr ⟨remembered, sound.2 allowed.job rfl⟩⟩
  | skipped => exact ⟨memory, by simp [Job.Sound]⟩
  | unbound => exact ⟨memory.withError _, by simp [Job.Sound]⟩
  | paramMeant allowed known bound =>
      refine ⟨memory.withEvent _, ?_⟩
      rintro _ ⟨⟩
      refine ⟨.param, fun id brackets => ?_⟩
      cases found_of_lookup bound with
      | param unqualified noCall found =>
          obtain ⟨visible, named⟩ := Stack.mem_formals found
          exact .param unqualified (allowed.parens_eq_none noCall) visible named rfl
  | dimMeant allowed known bound run induction =>
      have eventEnds := (State.Grows.withEvent _ _).trans ends
      obtain ⟨memory, sound, resolved⟩ := induction eventEnds memory
      refine ⟨memory.withEvent _, ?_⟩
      rintro _ ⟨⟩
      refine ⟨sound, fun id brackets => ?_⟩
      cases found_of_lookup bound with
      | dim unqualified noCall found =>
          have named := (input.declares.within.dim found).2
          exact .dim unqualified (allowed.parens_eq_none noCall) found named resolved rfl
  | refused allowed known bound calls applied failed =>
      have allots := allots_of_argumentsOf applied
      exact ⟨((memory.of_allots allots).withEvent _).withError _, by simp [Job.Sound]⟩
  | recursive allowed known bound calls applied selects resolving =>
      have allots := allots_of_argumentsOf applied
      refine ⟨((memory.of_allots allots).withEvent _).withEvent _, ?_⟩
      rintro _ ⟨⟩
      have inside := input.mem_of_resolve bound calls selects
      refine ⟨?_, fun id brackets => ?_⟩
      · rw [TargetOf.node_signature]
        exact .of_plain plain inside
      · exact .recursion (selects_of_resolve memory.next bound calls applied selects _ _ _ _) rfl
  | entered allowed known bound calls applied selects idle run induction =>
      have allots := allots_of_argumentsOf applied
      have eventEnds := (State.Grows.withEvent _ _).trans ends
      have begins := memory.next
      obtain ⟨memory, sound, busy | resolved⟩ :=
        induction eventEnds ((memory.of_allots allots).withEvent _)
      · exact absurd busy idle
      refine ⟨memory.withEvent _, ?_⟩
      rintro _ ⟨⟩
      refine ⟨?_, fun id brackets => ?_⟩
      · rw [TargetOf.node_signature]
        exact sound
      · exact .call (selects_of_resolve begins bound calls applied selects _ _ _ _) resolved rfl

theorem ItemRun.sound (plain : input.Plain) {item resolved : Item}
    (run : ItemRun input s item resolved s') (ends : s'.Grows input.final)
    (memory : input.SoundState s) : input.SoundState s' ∧ input.Sound [] resolved.node := by
  cases run with
  | dim run =>
      obtain ⟨memory, sound, -⟩ := run.sound plain ends memory
      exact ⟨memory, sound⟩
  | function run | method run =>
      obtain ⟨memory, sound, -⟩ := run.sound plain ends memory
      exact ⟨memory, sound⟩

theorem ItemsRun.sound (plain : input.Plain) {items resolved : List Item}
    (run : ItemsRun input s items resolved s') (ends : s'.Grows input.final)
    (memory : input.SoundState s) :
    ∀ item ∈ resolved, input.Sound [] item.node := by
  induction run with
  | nil => simp
  | cons itemRun itemsRun induction =>
      obtain ⟨memory, sound⟩ := itemRun.sound plain (itemsRun.grows.trans ends) memory
      exact List.forall_mem_cons.mpr ⟨sound, induction ends memory⟩

end Runs

namespace Input

/-- The declarations that the resolved items are and lead to: nested declarations, and the targets
of use sites. -/
def Reached (input : Input) (declaration : Node) : Prop :=
  Linked (input.resolved.items.map Item.node) declaration

/-- After a resolution, the target and the type of every use site are right: in the resolved items,
in what is nested in them, and in what their use sites lead to. -/
theorem binds_of_reached (input : Input) (plain : input.Plain) {declaration : Node}
    (reached : input.Reached declaration) {site : Reference}
    (encloses : declaration.Encloses (.reference site)) {target : Target}
    (resolved : site.target = some target) : input.Binds declaration.formals site target := by
  have items := input.itemsRun.sound plain (.refl _) .initial
  have roots : ∀ root ∈ input.resolved.items.map Item.node, input.Sound [] root := by
    intro root member
    obtain ⟨item, inside, rfl⟩ := List.mem_map.mp member
    exact items item inside
  obtain ⟨params, sound⟩ := Sound.of_linked roots reached
  cases sound.of_encloses encloses with
  | reference _ _ binds _ => exact binds target resolved

end Input

/-! ## A call that is given a dim, of a function that returns its parameter -/

namespace Calls

def three : Node := .literal ⟨0, .int 3, {}⟩
def size : Dim := ⟨1, "size", three, {}⟩
def k : Param := ⟨3, "k", ⟨2, .int, {}⟩, {}⟩
def params : Node := .list ⟨4, [.param k], {}⟩
def useK : Reference := ⟨5, none, "k", none, none, .unknown, none, {}⟩
def sameBody : Node := .block ⟨6, [.reference useK], {}⟩
def same : Signature .function := ⟨7, "same", params, sameBody, {}⟩
def useSize : Reference := ⟨8, none, "size", none, none, .unknown, none, {}⟩
def arguments : Node := .list ⟨9, [.reference useSize], {}⟩
def call : Reference := ⟨10, none, "same", none, some arguments, .unknown, none, {}⟩
def mainParams : Node := .list ⟨11, [], {}⟩
def mainBody : Node := .block ⟨12, [.reference call], {}⟩
def main : Signature .function := ⟨13, "main", mainParams, mainBody, {}⟩

def nodes : List Node :=
  [three, .dim size, .typeRef k.typeRef, .param k, params, .reference useK, sameBody, same.node,
    .reference useSize, arguments, .reference call, mainParams, mainBody, main.node]

def graph : Graph :=
  .ofList nodes
    (by simp [nodes, three, size, params, useK, sameBody, same, useSize, arguments, call,
      mainParams, mainBody, main, SignatureOf.node, Node.children])
    (by decide)

def items : List Item := [.dim size, .function same, .function main]

theorem listed : ∀ item ∈ items, item.node ∈ graph := by
  intro item member
  change item.node ∈ nodes
  simp only [items, List.mem_cons, List.not_mem_nil, or_false] at member
  rcases member with rfl | rfl | rfl <;> simp [nodes, Item.node, SignatureOf.node]

/-- The declared items, in a scope that knows the first of them only by the others. -/
def scope : Scope :=
  { dims := ⟨[("size", size)]⟩
    functions := ⟨[("same", ⟨"same", [same]⟩), ("main", ⟨"main", [main]⟩)]⟩ }

def sizeScope : Scope := { dims := ⟨[("size", size)]⟩ }
def sameScope : Scope :=
  { dims := ⟨[("size", size)]⟩, functions := ⟨[("same", ⟨"same", [same]⟩)]⟩ }

theorem scope_declares : scope.Declares graph := by
  obtain ⟨sizeInside, sameInside, mainInside⟩ :
      (Item.dim size).node ∈ graph ∧ (Item.function same).node ∈ graph ∧
        (Item.function main).node ∈ graph :=
    ⟨listed _ (by simp [items]), listed _ (by simp [items]), listed _ (by simp [items])⟩
  have first : sizeScope.Declares graph :=
    .declare .empty sizeInside (rfl : Scope.declare {} true _ = .ok sizeScope)
  have second : sameScope.Declares graph :=
    .declare first sameInside (rfl : Scope.declare sizeScope true _ = .ok sameScope)
  exact .declare second mainInside (rfl : Scope.declare sameScope true _ = .ok scope)

def input : Input where
  graph
  scope
  items := [.function main]
  next := 14
  declares := scope_declares
  listed := List.forall_mem_singleton.mpr (listed _ (by simp [items]))
  below {node} inside := (by decide : ∀ node ∈ nodes, node.id < 14) node inside

theorem plain : input.Plain := by
  intro site inside
  replace inside : .reference site ∈ nodes := inside
  simp only [nodes, three, params, sameBody, arguments, mainParams, mainBody, SignatureOf.node,
    List.mem_cons, List.not_mem_nil, or_false, reduceCtorEq, false_or, Node.reference.injEq]
    at inside
  rcases inside with rfl | rfl | rfl <;> exact ⟨rfl, rfl⟩

def resolvedSize : Reference := { useSize with id := 14, ty := .int, target := some (.dim size) }
def resolvedArguments : Node := .list ⟨15, [.reference resolvedSize], {}⟩
def resolvedK : Reference := { useK with id := 16, ty := .int, target := some (.param k) }
def resolvedSameBody : Node := .block ⟨17, [.reference resolvedK], {}⟩
def resolvedSame : Signature .function := { same with id := 18, body := resolvedSameBody }
def resolvedCall : Reference :=
  { call with
    id := 19
    parens := some resolvedArguments
    ty := .int
    target := some (.function resolvedSame) }

def resolvedMainBody : Node := .block ⟨20, [.reference resolvedCall], {}⟩
def resolvedMain : Signature .function := { main with id := 21, body := resolvedMainBody }

theorem items_eq : input.resolved.items = [.function resolvedMain] := rfl

theorem reached_main : input.Reached (.function resolvedMain) :=
  .root (by simp [items_eq, Item.node])

theorem encloses_call : (Node.function resolvedMain).Encloses (.reference resolvedCall) :=
  ⟨resolvedMainBody, rfl, .step (by simp [resolvedMainBody, Node.locals]) (.self _)⟩

theorem encloses_size : (Node.function resolvedMain).Encloses (.reference resolvedSize) := by
  have inArguments : resolvedArguments.Reaches (.reference resolvedSize) :=
    .step (by simp [resolvedArguments, Node.locals]) (.self _)
  have inCall : (Node.reference resolvedCall).Reaches (.reference resolvedSize) :=
    .step (by simp [resolvedCall, Node.locals]) inArguments
  exact ⟨resolvedMainBody, rfl, .step (by simp [resolvedMainBody, Node.locals]) inCall⟩

theorem reached_same : input.Reached (.function resolvedSame) :=
  .target reached_main encloses_call rfl

theorem encloses_k : (Node.function resolvedSame).Encloses (.reference resolvedK) :=
  ⟨resolvedSameBody, rfl, .step (by simp [resolvedSameBody, Node.locals]) (.self _)⟩

end Calls

open Calls in
/-- For `function main() {same(size)}`, the call is bound to the resolved form of
`function same(k:Int) {k}`, its argument to the dim, and the use site that the call leads to is
bound to the parameter. -/
theorem binds_of_reached_calls :
    input.Plain ∧
      (input.Reached (.function resolvedMain) ∧
        (Node.function resolvedMain).Encloses (.reference resolvedCall) ∧
        input.Binds [] resolvedCall (.function resolvedSame)) ∧
      ((Node.function resolvedMain).Encloses (.reference resolvedSize) ∧
        input.Binds [] resolvedSize (.dim size)) ∧
      input.Reached (.function resolvedSame) ∧
        (Node.function resolvedSame).Encloses (.reference resolvedK) ∧
        input.Binds [k] resolvedK (.param k) := by
  have call := input.binds_of_reached plain reached_main encloses_call rfl
  have argument := input.binds_of_reached plain reached_main encloses_size rfl
  have use := input.binds_of_reached plain reached_same encloses_k rfl
  exact ⟨plain, ⟨reached_main, encloses_call, call⟩, ⟨encloses_size, argument⟩, reached_same,
    encloses_k, use⟩

end ModelLang.Resolution
