import ModelLang.Node.Basic

/-!
# The written form of nodes

Every node has a text, used in messages, listings and log events.  It shows names, values and
written types; what a reference resolved to is not part of it.
-/

namespace ModelLang

/-- A written type shows its type. -/
def TypeRef.text (typeRef : TypeRef) : String :=
  typeRef.ty.text

/-- A parameter is written `name:Type`. -/
def Param.text (param : Param) : String :=
  param.name ++ ":" ++ param.typeRef.text

/-- A signature from the texts of its parts. -/
def Callable.signatureText (c : Callable) (name params body : String) : String :=
  c.keyword ++ " " ++ name ++ "(" ++ params ++ ") \x7b" ++ body ++ "\x7d"

namespace Node

mutual

/-- The written form of a node. -/
def text : Node → String
  | literal node => node.value.text
  | typeRef node => node.text
  | param node => node.text
  | reference ⟨_, receiver, name, brackets, parens, _, _, _⟩ =>
      (receiver.map (· ++ ".")).getD "" ++ name ++ enclosedText "[" "]" brackets ++
        enclosedText "(" ")" parens
  | list ⟨_, items, _⟩ => String.intercalate ", " (itemTexts items)
  | block ⟨_, items, _⟩ => String.intercalate "; " (itemTexts items)
  | dim ⟨_, name, extent, _⟩ => "dim " ++ name ++ "[" ++ extent.text ++ "]"
  | function ⟨_, name, params, body, _⟩ =>
      Callable.function.signatureText name params.text body.text
  | method ⟨_, name, params, body, _⟩ =>
      Callable.method.signatureText name params.text body.text

/-- The texts of the nodes, in order. -/
def itemTexts : List Node → List String
  | [] => []
  | item :: items => item.text :: itemTexts items

/-- A child between two marks; nothing when there is no child. -/
def enclosedText (opening closing : String) : Option Node → String
  | none => ""
  | some child => opening ++ child.text ++ closing

end

theorem itemTexts_eq_map (items : List Node) : itemTexts items = items.map text := by
  induction items with
  | nil => rfl
  | cons item items induction => simp [itemTexts, induction]

/-- Exchanging items for others that are written alike does not matter. -/
theorem itemTexts_map {g : Node → Node} {items : List Node}
    (alike : ∀ item ∈ items, (g item).text = item.text) :
    itemTexts (items.map g) = itemTexts items := by
  rw [itemTexts_eq_map, itemTexts_eq_map, List.map_map]
  exact List.map_congr_left alike

theorem enclosedText_map {g : Node → Node} {opening closing : String} {child : Option Node}
    (alike : ∀ inner ∈ child, (g inner).text = inner.text) :
    enclosedText opening closing (child.map g) = enclosedText opening closing child := by
  cases child with
  | none => rfl
  | some inner => simp [enclosedText, alike inner rfl]

end Node

end ModelLang
