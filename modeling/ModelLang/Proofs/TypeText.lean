import ModelLang.Node.Typing
import ModelLang.Proofs.Order.Ty

/-!
# The text of a type

A signature is written without parentheses around it, so only what follows tells where it ends.
When all parameters are tuples, a closing parenthesis ends the parameters, an arrow behind it tells a
signature from a tuple, and what may stand behind a whole type never goes on with an arrow.  A text
that begins with a type then determines the type and the rest of the text, so two types are written
alike only if they are one.
-/

namespace ModelLang
namespace Ty

/-- The parameters of every signature in the type are a tuple. -/
def TakesTuples (ty : Ty) : Prop :=
  ∀ params result, (function params result).OccursIn ty → ∃ items, params = tuple items

theorem takesTuples_tuple {items : List Ty} :
    (tuple items).TakesTuples ↔ ∀ item ∈ items, item.TakesTuples := by
  constructor
  · intro takes item member params result occurs
    exact takes params result (.item member occurs)
  · intro takes params result occurs
    cases occurs with
    | item member occurs => exact takes _ member params result occurs

theorem takesTuples_function {params result : Ty} :
    (function params result).TakesTuples ↔
      (∃ items, params = tuple items) ∧ params.TakesTuples ∧ result.TakesTuples := by
  constructor
  · intro takes
    exact ⟨takes params result .self, fun _ _ occurs => takes _ _ (.params occurs),
      fun _ _ occurs => takes _ _ (.result occurs)⟩
  · rintro ⟨isTuple, params_take, result_takes⟩ params' result' occurs
    cases occurs with
    | self => exact isTuple
    | params occurs => exact params_take _ _ occurs
    | result occurs => exact result_takes _ _ occurs

/-- A signature whose parameters are a list has such a type, if its parts have. -/
theorem takesTuples_ty_signature {c : Callable} {signature : Signature c} {params : Sequence}
    (isList : signature.params = .list params)
    (items : ∀ item ∈ params.items, item.ty.TakesTuples) (body : signature.body.ty.TakesTuples) :
    signature.node.ty.TakesTuples := by
  rw [Node.ty_signature, takesTuples_function, isList, Node.ty_list, takesTuples_tuple,
    List.forall_mem_map]
  exact ⟨⟨_, rfl⟩, items, body⟩

/-! ## The characters of a type -/

/-- The items behind the first one, each behind a comma. -/
def furtherItems (items : List Ty) : List Char :=
  items.flatMap fun item => ',' :: ' ' :: item.text.toList

theorem furtherItems_cons (item : Ty) (items : List Ty) :
    furtherItems (item :: items) = ',' :: ' ' :: (item.text.toList ++ furtherItems items) := rfl

theorem toList_text_function (params result : Ty) :
    (function params result).text.toList =
      params.text.toList ++ ' ' :: '-' :: '>' :: ' ' :: result.text.toList := by
  simp [text]

theorem toList_text_tuple_nil : (tuple []).text.toList = ['(', ')'] := by
  simp [text, itemTexts]

theorem toList_text_tuple_cons (item : Ty) (items : List Ty) :
    (tuple (item :: items)).text.toList =
      '(' :: (item.text.toList ++ (furtherItems items ++ [')'])) := by
  have further : ∀ first : String,
      (String.intercalate ", " (first :: itemTexts items)).toList =
        first.toList ++ furtherItems items := by
    induction items with
    | nil => simp [itemTexts, furtherItems]
    | cons next items induction =>
        intro first
        rw [itemTexts, String.intercalate_cons_cons, String.toList_append, String.toList_append,
          induction]
        simp [furtherItems]
  simp [text, itemTexts, further]

/-- The character that the text of a type begins with. -/
def initial : Ty → Char
  | unknown => '?'
  | void => 'V'
  | bool => 'B'
  | int => 'I'
  | real => 'R'
  | tuple _ => '('
  | function params _ => params.initial

theorem exists_toList_text (ty : Ty) : ∃ tail, ty.text.toList = ty.initial :: tail := by
  induction ty using induct with
  | unknown | void | bool | int | real => exact ⟨_, by simp [text, initial]; rfl⟩
  | tuple items =>
      cases items with
      | nil => exact ⟨_, toList_text_tuple_nil⟩
      | cons item items => exact ⟨_, toList_text_tuple_cons item items⟩
  | function params result params_text =>
      obtain ⟨tail, params_text⟩ := params_text
      exact ⟨_, by rw [toList_text_function, params_text]; rfl⟩

theorem initial_ne_close (ty : Ty) : ty.initial ≠ ')' := by
  induction ty using induct with
  | unknown | void | bool | int | real | tuple => simp [initial]
  | function params result params_ne => exact params_ne

/-- Texts that begin with two types and are equal begin with one character. -/
theorem initial_eq {a b : Ty} {rest rest' : List Char}
    (same : a.text.toList ++ rest = b.text.toList ++ rest') : a.initial = b.initial := by
  obtain ⟨tail, left⟩ := exists_toList_text a
  obtain ⟨tail', right⟩ := exists_toList_text b
  rw [left, right] at same
  exact (List.cons.inj same).1

/-! ## Reading a type back -/

/-- The rest of a text does not go on with an arrow. -/
def Closed (rest : List Char) : Prop :=
  rest.head? ≠ some ' '

def isTuple : Ty → Bool
  | tuple _ => true
  | _ => false

/-- A text that begins with the type determines the type and the rest, where no arrow may be taken
for a part of it: behind a whole type there is none, and of two tuples none is a part. -/
def ReadsBack (a : Ty) : Prop :=
  ∀ ⦃b : Ty⦄ ⦃rest rest' : List Char⦄, b.TakesTuples →
    (Closed rest ∧ Closed rest' ∨ a.isTuple = true ∧ b.isTuple = true) →
      a.text.toList ++ rest = b.text.toList ++ rest' → a = b ∧ rest = rest'

theorem closed_furtherItems (items : List Ty) (rest : List Char) :
    Closed (furtherItems items ++ ')' :: rest) := by
  cases items <;> simp [Closed, furtherItems]

section Items

variable {items items' : List Ty} {rest rest' : List Char}

theorem furtherItems_append (reads : ∀ item ∈ items, item.ReadsBack)
    (takes : ∀ item ∈ items', item.TakesTuples)
    (same : furtherItems items ++ ')' :: rest = furtherItems items' ++ ')' :: rest') :
    items = items' ∧ rest = rest' := by
  induction items generalizing items' with
  | nil =>
      cases items' with
      | nil => exact ⟨rfl, (List.cons.inj same).2⟩
      | cons => simp [furtherItems] at same
  | cons item items induction =>
      cases items' with
      | nil => simp [furtherItems] at same
      | cons item' items' =>
          rw [List.forall_mem_cons] at reads takes
          simp only [furtherItems_cons, List.cons_append, List.append_assoc, List.cons.injEq,
            true_and] at same
          obtain ⟨rfl, behind⟩ := reads.1 takes.1
            (.inl ⟨closed_furtherItems items rest, closed_furtherItems items' rest'⟩) same
          obtain ⟨rfl, rfl⟩ := induction reads.2 takes.2 behind
          exact ⟨rfl, rfl⟩

/-- Behind its opening parenthesis an empty tuple is closed, and no item begins so. -/
theorem tuple_nil_append_ne {item : Ty} :
    (tuple []).text.toList ++ rest ≠ (tuple (item :: items)).text.toList ++ rest' := by
  intro same
  obtain ⟨tail, first⟩ := exists_toList_text item
  rw [toList_text_tuple_nil, toList_text_tuple_cons, first] at same
  simp only [List.cons_append, List.cons.injEq, true_and] at same
  exact item.initial_ne_close same.1.symm

/-- The closing parenthesis ends a tuple, whatever follows. -/
theorem tuple_append (reads : ∀ item ∈ items, item.ReadsBack)
    (takes : ∀ item ∈ items', item.TakesTuples)
    (same : (tuple items).text.toList ++ rest = (tuple items').text.toList ++ rest') :
    items = items' ∧ rest = rest' := by
  cases items with
  | nil =>
      cases items' with
      | nil => exact ⟨rfl, List.append_cancel_left same⟩
      | cons => exact absurd same tuple_nil_append_ne
  | cons item items =>
      cases items' with
      | nil => exact absurd same.symm tuple_nil_append_ne
      | cons item' items' =>
          -- With a comma in front, the first item is one of the further items.
          rw [toList_text_tuple_cons, toList_text_tuple_cons] at same
          simp only [List.cons_append, List.append_assoc, List.nil_append, List.cons.injEq,
            true_and] at same
          apply furtherItems_append reads takes
          simp only [furtherItems_cons, List.cons_append, List.append_assoc, same]

end Items

/-- A scalar is told from every other type by its first character. -/
theorem eq_of_initial_eq {a b : Ty} (takes : a.TakesTuples) (takes' : b.TakesTuples)
    (scalar : a.initial ≠ '(') (same : a.initial = b.initial) : a = b := by
  cases a with
  | tuple => exact absurd rfl scalar
  | function params result =>
      obtain ⟨⟨items, rfl⟩, -⟩ := takesTuples_function.mp takes
      exact absurd rfl scalar
  | _ =>
      cases b with
      | function params result =>
          obtain ⟨⟨items, rfl⟩, -⟩ := takesTuples_function.mp takes'
          simp [initial] at same
      | _ => simp_all [initial]

/-- A text that begins with a type determines the type and the rest, by induction on the type: the
items of a tuple are closed by commas and its parenthesis, and the parameters of a signature are a
tuple behind which an arrow stands in both readings. -/
theorem readsBack {a : Ty} (takes : a.TakesTuples) : a.ReadsBack := by
  induction a using induct with
  | unknown | void | bool | int | real =>
      intro b rest rest' takes' _ same
      obtain rfl := eq_of_initial_eq takes takes' (by simp [initial]) (initial_eq same)
      exact ⟨rfl, List.append_cancel_left same⟩
  | tuple items items_read =>
      intro b rest rest' takes' ends same
      rw [takesTuples_tuple] at takes
      have reads : ∀ item ∈ items, item.ReadsBack := fun item member =>
        items_read item member (takes item member)
      cases b with
      | tuple items' =>
          rw [takesTuples_tuple] at takes'
          obtain ⟨rfl, rfl⟩ := tuple_append reads takes' same
          exact ⟨rfl, rfl⟩
      | function params' result' =>
          obtain ⟨⟨items', rfl⟩, takes', -⟩ := takesTuples_function.mp takes'
          rw [takesTuples_tuple] at takes'
          rw [toList_text_function, List.append_assoc] at same
          obtain ⟨-, rfl⟩ := tuple_append reads takes' same
          rcases ends with ⟨closed, -⟩ | ⟨-, isTuple⟩
          · exact absurd rfl closed
          · cases isTuple
      | _ => simpa [initial] using initial_eq same
  | function params result params_read result_read =>
      intro b rest rest' takes' ends same
      obtain ⟨⟨items, rfl⟩, params_take, result_takes⟩ := takesTuples_function.mp takes
      rw [toList_text_function, List.append_assoc] at same
      cases b with
      | tuple items' =>
          obtain ⟨-, rfl⟩ := params_read params_take takes' (.inr ⟨rfl, rfl⟩) same
          rcases ends with ⟨-, closed⟩ | ⟨isTuple, -⟩
          · exact absurd rfl closed
          · cases isTuple
      | function params' result' =>
          obtain ⟨⟨items', rfl⟩, params_take', result_takes'⟩ := takesTuples_function.mp takes'
          rw [toList_text_function, List.append_assoc] at same
          obtain ⟨params_eq, behind⟩ := params_read params_take params_take' (.inr ⟨rfl, rfl⟩) same
          rcases ends with closed | ⟨isTuple, -⟩
          · simp only [List.cons_append, List.cons.injEq, true_and] at behind
            obtain ⟨rfl, rfl⟩ := result_read result_takes result_takes' (.inl closed) behind
            exact ⟨by rw [params_eq], rfl⟩
          · cases isTuple
      | _ => simpa [initial] using initial_eq same

/-- Types whose signatures take tuples are written alike only if they are one type. -/
theorem text_eq_text_iff {a b : Ty} (takes : a.TakesTuples) (takes' : b.TakesTuples) :
    a.text = b.text ↔ a = b := by
  constructor
  · intro same
    have closed : Closed [] := by simp [Closed]
    have same : a.text.toList ++ [] = b.text.toList ++ [] := by rw [same]
    exact (readsBack takes takes' (.inl ⟨closed, closed⟩) same).1
  · rintro rfl
    rfl

/-- A signature in the place of the parameters cannot be told from one in the result. -/
example : (function (function (tuple []) int) real).text =
    (function (tuple []) (function int real)).text := by
  decide +kernel

/-! ## A signature whose result is a signature -/

namespace Curried

/-- Written `(Int) -> () -> Real`. -/
def nullary : Ty := function (tuple [int]) (function (tuple []) real)

/-- Written `(Int) -> (()) -> Real`. -/
def unary : Ty := function (tuple [int]) (function (tuple [tuple []]) real)

def parameters : Sequence := ⟨2, [.param ⟨1, "n", ⟨0, int, {}⟩, {}⟩], {}⟩

/-- A function that gives back a function without parameters. -/
def curry : Signature .function :=
  ⟨4, "curry", .list parameters, .typeRef ⟨3, function (tuple []) real, {}⟩, {}⟩

theorem takesTuples_scalar : int.TakesTuples ∧ real.TakesTuples := by
  constructor <;> intro params result occurs <;> cases occurs

theorem takesTuples_result : (function (tuple []) real).TakesTuples :=
  takesTuples_function.mpr ⟨⟨_, rfl⟩, takesTuples_tuple.mpr (by simp), takesTuples_scalar.2⟩

theorem takesTuples : nullary.TakesTuples ∧ unary.TakesTuples ∧ curry.node.ty.TakesTuples := by
  have empty : (tuple []).TakesTuples := takesTuples_tuple.mpr (by simp)
  have params : (tuple [int]).TakesTuples :=
    takesTuples_tuple.mpr (by simpa using takesTuples_scalar.1)
  refine ⟨takesTuples_function.mpr ⟨⟨_, rfl⟩, params, takesTuples_result⟩, ?_, ?_⟩
  · refine takesTuples_function.mpr ⟨⟨_, rfl⟩, params, ?_⟩
    refine takesTuples_function.mpr ⟨⟨_, rfl⟩, ?_, takesTuples_scalar.2⟩
    exact takesTuples_tuple.mpr (by simpa using empty)
  · refine @takesTuples_ty_signature .function curry parameters rfl ?_ takesTuples_result
    intro item member
    obtain rfl := List.mem_singleton.mp member
    exact takesTuples_scalar.1

end Curried

open Curried in
/-- The two signatures differ by one pair of parentheses in their texts, and the type of the function
is the one that it is written as. -/
theorem text_eq_text_iff_curried :
    (nullary.TakesTuples ∧ unary.TakesTuples ∧ curry.node.ty.TakesTuples) ∧
      nullary.text ≠ unary.text ∧ curry.node.ty.text = nullary.text ∧ curry.node.ty = nullary := by
  obtain ⟨nullary_takes, unary_takes, curry_takes⟩ := takesTuples
  have written : curry.node.ty.text = nullary.text := by decide +kernel
  refine ⟨takesTuples, ?_, written, (text_eq_text_iff curry_takes nullary_takes).mp written⟩
  rw [Ne, text_eq_text_iff nullary_takes unary_takes]
  simp [nullary, unary]

end Ty
end ModelLang
