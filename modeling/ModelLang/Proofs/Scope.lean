import ModelLang.Proofs.Graph
import ModelLang.Scope

/-!
# What declaring makes of a scope

Every entry of a scope bears the name that it is filed under, and every declaration in it was given
as an item.
-/

namespace ModelLang

namespace OverloadSet

variable {α : Type} [Candidate α]

/-- A successful insertion adds the candidate and keeps the name. -/
theorem insert_eq_ok {set grown : OverloadSet α} {candidate : α}
    (h : set.insert candidate = .ok grown) :
    grown.name = set.name ∧ grown.candidates = set.candidates ++ [candidate] := by
  unfold insert at h
  split at h
  · cases h
    exact ⟨rfl, rfl⟩
  · cases h

end OverloadSet

namespace Scope

/-- A scope made by declaring items of a graph.  Items that cannot be declared leave no trace. -/
inductive Declares (graph : Graph) : Scope → Prop
  | empty : Declares graph {}
  | declare {scope grown : Scope} {strict : Bool} {item : Item} :
      Declares graph scope → item.node ∈ graph → scope.declare strict item = .ok grown →
        Declares graph grown

/-- The overloads are those of a name, from a graph. -/
structure Files {c : Callable} (graph : Graph) (name : String)
    (overloads : OverloadSet (Signature c)) : Prop where
  name_eq : overloads.name = name
  mem : ∀ candidate ∈ overloads.candidates, candidate.node ∈ graph ∧ candidate.name = name

namespace Files

variable {graph : Graph} {name : String} {c : Callable}

theorem empty : Files graph name ({ name } : OverloadSet (Signature c)) where
  name_eq := rfl
  mem := by simp

/-- Overloads of a name take one more of that name. -/
theorem insert {overloads grown : OverloadSet (Signature c)} {signature : Signature c}
    (files : Files graph name overloads) (inside : signature.node ∈ graph)
    (named : signature.name = name) (h : overloads.insert signature = .ok grown) :
    Files graph name grown := by
  obtain ⟨name_eq, candidates_eq⟩ := OverloadSet.insert_eq_ok h
  refine ⟨name_eq.trans files.name_eq, fun candidate member => ?_⟩
  rw [candidates_eq, List.mem_append, List.mem_singleton] at member
  rcases member with old | rfl
  · exact files.mem candidate old
  · exact ⟨inside, named⟩

end Files

/-- The methods of a receiver are filed under their names. -/
structure Owns (graph : Graph) (receiver : String) (owner : Receiver) : Prop where
  name_eq : owner.name = receiver
  method : ∀ {name method}, owner.method? name = some method →
    method.receiver = receiver ∧ Files graph name method.overloads

namespace Owns

variable {graph : Graph} {receiver : String}

theorem empty : Owns graph receiver { name := receiver } where
  name_eq := rfl
  method h := by cases h

/-- A receiver takes one more method. -/
theorem declare {owner grown : Receiver} {signature : Signature .method}
    (owns : Owns graph receiver owner) (inside : signature.node ∈ graph)
    (h : owner.declare signature = .ok grown) : Owns graph receiver grown := by
  have old :
      ((owner.method? signature.name).getD (.empty owner.name signature.name)).receiver =
          receiver ∧
        Files graph signature.name
          ((owner.method? signature.name).getD (.empty owner.name signature.name)).overloads := by
    cases found : owner.method? signature.name with
    | none => exact ⟨owns.name_eq, .empty⟩
    | some method => exact owns.method found
  dsimp only [Receiver.declare] at h
  split at h
  case h_2 => cases h
  case h_1 method inserted =>
    cases h
    refine ⟨owns.name_eq, fun {name found} h => ?_⟩
    rw [Receiver.method?, Table.find?_insert] at h
    split at h
    case isFalse => exact owns.method h
    case isTrue same =>
      cases h
      subst same
      unfold MethodSet.insert at inserted
      split at inserted
      case h_2 => cases inserted
      case h_1 overloads grew =>
        cases inserted
        exact ⟨old.1, old.2.insert inside rfl grew⟩

end Owns

/-- A scope finds under a name what was declared with that name. -/
structure Within (graph : Graph) (scope : Scope) : Prop where
  dim : ∀ {name dim}, scope.dim? name = some dim → .dim dim ∈ graph ∧ dim.name = name
  function : ∀ {name overloads}, scope.function? name = some overloads →
    Files graph name overloads
  receiver : ∀ {receiver owner}, scope.receiver? receiver = some owner →
    Owns graph receiver owner

namespace Within

variable {graph : Graph} {scope grown : Scope}

theorem method {receiver name : String} {method : MethodSet} (within : Within graph scope)
    (h : scope.method? receiver name = some method) :
    method.receiver = receiver ∧ Files graph name method.overloads := by
  obtain ⟨owner, found, h⟩ := Option.bind_eq_some_iff.mp h
  exact (within.receiver found).method h

theorem empty : Within graph {} := by
  constructor <;> intros <;> contradiction

theorem declareDim {strict : Bool} {dim : Dim} (within : Within graph scope)
    (inside : .dim dim ∈ graph) (h : scope.declareDim strict dim = .ok grown) :
    Within graph grown := by
  unfold Scope.declareDim at h
  split at h
  case h_1 =>
    cases h
    refine ⟨fun {name found} h => ?_, within.function, within.receiver⟩
    rw [dim?, Table.find?_insert] at h
    split at h
    case isTrue named =>
      cases h
      exact ⟨inside, named.symm⟩
    case isFalse => exact within.dim h
  case h_2 =>
    split at h
    · cases h
      exact within
    · cases h

theorem declareFunction {signature : Signature .function} (within : Within graph scope)
    (inside : signature.node ∈ graph) (h : scope.declareFunction signature = .ok grown) :
    Within graph grown := by
  have files : Files graph signature.name
      ((scope.function? signature.name).getD { name := signature.name }) := by
    cases found : scope.function? signature.name with
    | none => exact .empty
    | some overloads => exact within.function found
  dsimp only [Scope.declareFunction] at h
  split at h
  case h_2 => cases h
  case h_1 overloads inserted =>
    cases h
    refine ⟨within.dim, fun {name found} h => ?_, within.receiver⟩
    rw [function?, Table.find?_insert] at h
    split at h
    case isTrue named =>
      cases h
      subst named
      exact files.insert inside rfl inserted
    case isFalse => exact within.function h

theorem declareMethod {receiver : String} {signature : Signature .method}
    (within : Within graph scope) (inside : signature.node ∈ graph)
    (h : scope.declareMethod receiver signature = .ok grown) : Within graph grown := by
  have owns : Owns graph receiver ((scope.receiver? receiver).getD { name := receiver }) := by
    cases found : scope.receiver? receiver with
    | none => exact .empty
    | some owner => exact within.receiver found
  dsimp only [Scope.declareMethod] at h
  split at h
  case h_2 => cases h
  case h_1 owner declared =>
    cases h
    refine ⟨within.dim, within.function, fun {name found} h => ?_⟩
    rw [receiver?, Table.find?_insert] at h
    split at h
    case isTrue named =>
      cases h
      subst named
      exact owns.declare inside declared
    case isFalse => exact within.receiver h

end Within

/-- Whatever is declared, a scope files every declaration under its own name. -/
theorem Declares.within {graph : Graph} {scope : Scope} (declares : Declares graph scope) :
    Within graph scope := by
  induction declares with
  | empty => exact .empty
  | @declare scope grown strict item _ inside h within =>
      cases item with
      | dim declared => exact within.declareDim inside h
      | function declared => exact within.declareFunction inside h
      | method receiver declared => exact within.declareMethod inside h

/-! ## What one more declaration leaves alone -/

/-- Two scopes bind a name to the same dim, to the same function and to the same methods. -/
structure BindAlike (scope grown : Scope) (name : String) : Prop where
  dim : grown.dim? name = scope.dim? name
  function : grown.function? name = scope.function? name
  method : ∀ receiver, grown.method? receiver name = scope.method? receiver name

section Declared

variable {scope grown : Scope} {strict : Bool} {name receiver : String}

/-- A dim is bound to a name that is free, or it agrees with the dim that is bound. -/
theorem declareDim_eq_ok {dim : Dim} (h : scope.declareDim strict dim = .ok grown) :
    grown = scope ∨ grown = { scope with dims := scope.dims.insert dim.name dim } := by
  unfold declareDim at h
  split at h
  case h_1 =>
    cases h
    exact .inr rfl
  case h_2 =>
    split at h
    · cases h
      exact .inl rfl
    · cases h

/-- An overload is filed under its name. -/
theorem declareFunction_eq_ok {signature : Signature .function}
    (h : scope.declareFunction signature = .ok grown) :
    ∃ function, ((scope.function? signature.name).getD { name := signature.name }).insert
        signature = .ok function ∧
      grown = { scope with functions := scope.functions.insert signature.name function } := by
  dsimp only [declareFunction] at h
  split at h
  case h_1 function inserted =>
    cases h
    exact ⟨function, inserted, rfl⟩
  case h_2 => cases h

/-- A method is declared in its receiver, which is a new one when the scope does not know it. -/
theorem declareMethod_eq_ok {signature : Signature .method}
    (h : scope.declareMethod receiver signature = .ok grown) :
    ∃ owner, ((scope.receiver? receiver).getD { name := receiver }).declare signature = .ok owner ∧
      grown = { scope with receivers := scope.receivers.insert receiver owner } := by
  dsimp only [declareMethod] at h
  split at h
  case h_1 owner declared =>
    cases h
    exact ⟨owner, declared, rfl⟩
  case h_2 => cases h

/-- A receiver that takes one more method keeps those of other names. -/
theorem method?_of_declare_of_ne {owner taken : Receiver} {signature : Signature .method}
    (other : name ≠ signature.name) (h : owner.declare signature = .ok taken) :
    taken.method? name = owner.method? name := by
  dsimp only [Receiver.declare] at h
  split at h
  case h_1 =>
    cases h
    exact Table.find?_insert_ne _ _ other
  case h_2 => cases h

theorem bindAlike_of_declareMethod {signature : Signature .method} (other : name ≠ signature.name)
    (h : scope.declareMethod receiver signature = .ok grown) : BindAlike scope grown name := by
  obtain ⟨owner, declared, rfl⟩ := declareMethod_eq_ok h
  have kept := method?_of_declare_of_ne other declared
  refine ⟨rfl, rfl, fun inside => ?_⟩
  by_cases same : inside = receiver
  · subst same
    cases found : scope.receiver? inside with
    | none | some =>
        rw [found] at kept
        simp only [method?, receiver?, Table.find?_insert_self] at found ⊢
        rw [found]
        exact kept
  · simp only [method?, receiver?, Table.find?_insert_ne _ _ same]

/-- A declaration binds no name but its own. -/
theorem bindAlike_of_declare {item : Item} (other : name ≠ item.name)
    (h : scope.declare strict item = .ok grown) : BindAlike scope grown name := by
  cases item with
  | dim declared =>
      rcases declareDim_eq_ok h with rfl | rfl
      · exact ⟨rfl, rfl, fun _ => rfl⟩
      · exact ⟨Table.find?_insert_ne _ _ other, rfl, fun _ => rfl⟩
  | function declared =>
      obtain ⟨function, -, rfl⟩ := declareFunction_eq_ok h
      exact ⟨rfl, Table.find?_insert_ne _ _ other, fun _ => rfl⟩
  | method receiver declared => exact bindAlike_of_declareMethod other h

/-- A declaration makes no receiver known but its own. -/
theorem isSome_receiver?_of_declare {item : Item}
    (known : item.receiver? = some receiver → (scope.receiver? receiver).isSome)
    (h : scope.declare strict item = .ok grown) :
    (grown.receiver? receiver).isSome = (scope.receiver? receiver).isSome := by
  cases item with
  | dim declared => rcases declareDim_eq_ok h with rfl | rfl <;> rfl
  | function declared =>
      obtain ⟨function, -, rfl⟩ := declareFunction_eq_ok h
      rfl
  | method inside declared =>
      obtain ⟨owner, -, rfl⟩ := declareMethod_eq_ok h
      simp only [receiver?, Table.find?_insert]
      split
      case isTrue same =>
        subst same
        exact (known rfl).symm
      case isFalse => rfl

end Declared

end Scope

end ModelLang
