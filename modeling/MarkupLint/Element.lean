import MarkupLint.Table

/-!
# Trees of elements

An element has a tag, attributes with different names, the text before its first child, the text
behind its end tag, and children in order.
-/

namespace MarkupLint

/-- Attributes with their values, in the order in which their names first occurred. -/
abbrev Attributes := Table String

/-- An element of a document. -/
structure Element where
  tag : String
  attributes : Attributes
  /-- The text before the first child. -/
  text? : Option String
  /-- The text behind the end tag, up to the next sibling or the end of the parent. -/
  tail? : Option String
  children : List Element
deriving Repr, Inhabited

namespace Element

/-- A short description: the tag in brackets, with the identifier if there is one. -/
def describe (element : Element) : String :=
  match element.attributes.value? "id" with
  | some identifier => s!"<{element.tag} id=\"{identifier}\">"
  | none => s!"<{element.tag}>"

end Element

/-- A position in a tree: the indices of the children to go down to, the deepest first.  So the
positions above a position are its proper suffixes, and the root of the tree has the empty one. -/
abbrev Position := List Nat

/-- An element of a tree together with its position in the tree. -/
structure Node where
  position : Position
  element : Element
deriving Repr, Inhabited

namespace Element

/-- The element at a position of the tree. -/
def at? (root : Element) : Position → Option Element
  | [] => some root
  | index :: above => (root.at? above).bind fun element => element.children[index]?

mutual

/-- The elements of a subtree that hangs at a position, an element before its children. -/
def nodesAt (position : Position) : Element → List Node
  | ⟨tag, attributes, text?, tail?, children⟩ =>
    ⟨position, ⟨tag, attributes, text?, tail?, children⟩⟩ :: nodesOf position 0 children

/-- The elements of the subtrees that hang below a position, from the child with the index on. -/
def nodesOf (position : Position) (index : Nat) : List Element → List Node
  | [] => []
  | child :: rest => nodesAt (index :: position) child ++ nodesOf position (index + 1) rest

end

/-- The elements of the tree in document order. -/
def nodes (root : Element) : List Node := root.nodesAt []

@[simp] theorem at?_nil (root : Element) : root.at? [] = some root := rfl

theorem nodesAt_eq (position : Position) (element : Element) :
    element.nodesAt position = ⟨position, element⟩ :: nodesOf position 0 element.children := by
  cases element
  simp [nodesAt]

end Element

namespace Node

/-- The children of an element, in order. -/
def children (node : Node) : List Node :=
  node.element.children.mapIdx fun index child => ⟨index :: node.position, child⟩

/-- The elements below an element, in document order. -/
def descendants (node : Node) : List Node :=
  Element.nodesOf node.position 0 node.element.children

end Node
end MarkupLint
