import MarkupLint.Element

/-!
# Steps of element paths

A path is a chain of steps.  Each step leads from a list of elements to a list of elements, and the
steps keep the order and the repetitions that arise on the way.
-/

namespace MarkupLint
namespace Selector

/-- What a step demands of a name. -/
inductive NameTest where
  | any
  | named (name : String)
  /-- Names that begin with a text. -/
  | beginning (front : String)
deriving DecidableEq, Repr, Inhabited

namespace NameTest

/-- Whether a name passes the test. -/
def holds (test : NameTest) (name : String) : Bool :=
  match test with
  | any => true
  | named wanted => name == wanted
  | beginning front => front.toList.isPrefixOf name.toList

/-- The test that is written by a name: namespaces in braces match names without a namespace if
they are empty or a star. -/
def ofText (text : String) : NameTest :=
  match text.toList with
  | ['{', '*', '}', '*'] => any
  | ['{', '}', '*'] => any
  | '{' :: '*' :: '}' :: name => named (String.ofList name)
  | chars =>
    if ['}', '*'].isSuffixOf chars then beginning (String.ofList chars.dropLast)
    else if ['{', '}'].isPrefixOf chars then named (String.ofList (chars.drop 2))
    else named text

@[simp] theorem holds_any (name : String) : any.holds name = true := rfl

@[simp] theorem holds_named (wanted name : String) :
    (named wanted).holds name = (name == wanted) := rfl

end NameTest

/-- What a filtering step demands of an element. -/
inductive Condition where
  | hasAttribute (name : String)
  /-- The attribute is there, and its value is the text, or differs from it. -/
  | attribute (name : String) (isEqual : Bool) (value : String)
  | hasChild (test : NameTest)
  /-- All characters inside the element are the text, or differ from it. -/
  | content (isEqual : Bool) (value : String)
  /-- Some child with such a name has the content, or another one. -/
  | childContent (test : NameTest) (isEqual : Bool) (value : String)
  /-- The element is the child of its parent with the index, among those of its name. -/
  | position (index : Nat)
  /-- The same, counted from the last one. -/
  | positionFromLast (index : Nat)
deriving DecidableEq, Repr, Inhabited

/-- A step of a path. -/
inductive Step where
  | child (test : NameTest)
  | descendant (test : NameTest)
  | self
  | parent
  | filter (condition : Condition)
deriving DecidableEq, Repr, Inhabited

end Selector

namespace Element

mutual

/-- All characters inside an element, in order. -/
def content : Element → String
  | ⟨_, _, text?, _, children⟩ => (text?.getD "") ++ contentOf children

/-- All characters inside and directly behind the elements. -/
def contentOf : List Element → String
  | [] => ""
  | child :: rest =>
    content child ++ (match child with | ⟨_, _, _, tail?, _⟩ => tail?.getD "") ++ contentOf rest

end

end Element

namespace Selector

/-- Whether a value is the text, or differs from it. -/
def compare (isEqual : Bool) (value text : String) : Bool := (value == text) == isEqual

namespace Condition

/-- Whether an element of a tree meets the condition. -/
def holds (root : Element) (node : Node) : Condition → Bool
  | .hasAttribute name => (node.element.attributes.value? name).isSome
  | .attribute name isEqual value =>
    (node.element.attributes.value? name).any (compare isEqual · value)
  | .hasChild test => node.element.children.any fun child => test.holds child.tag
  | .content isEqual value => compare isEqual node.element.content value
  | .childContent test isEqual value =>
    node.element.children.any fun child =>
      test.holds child.tag && compare isEqual child.content value
  | .position index => (namesakes root node)[index]? == some node.position
  | .positionFromLast index => (namesakes root node).reverse[index]? == some node.position
where
  /-- The positions of the children of the parent that have the name of the element. -/
  namesakes (root : Element) (node : Node) : List Position :=
    match node.position with
    | [] => []
    | _ :: above =>
      match root.at? above with
      | none => []
      | some parent =>
        ((Node.children ⟨above, parent⟩).filter fun sibling =>
          sibling.element.tag == node.element.tag).map (·.position)

end Condition

/-- The parents of elements of a tree, each once, in the order in which they are met first. -/
def parents (root : Element) (nodes : List Node) : List Node :=
  let positions := nodes.foldl (fun seen node =>
    match node.position with
    | [] => seen
    | _ :: above => if seen.contains above then seen else above :: seen) []
  positions.reverse.filterMap fun position => (root.at? position).map (Node.mk position)

namespace Step

/-- The elements that a step leads to in a tree. -/
def apply (root : Element) (nodes : List Node) : Step → List Node
  | child test => nodes.flatMap fun node => node.children.filter fun found =>
      test.holds found.element.tag
  | descendant test => nodes.flatMap fun node => node.descendants.filter fun found =>
      test.holds found.element.tag
  | self => nodes
  | parent => parents root nodes
  | filter condition => nodes.filter fun node => condition.holds root node

/-- The elements that a chain of steps leads to from the root of a tree. -/
def walk (root : Element) (steps : List Step) : List Node :=
  steps.foldl (fun nodes step => step.apply root nodes) [⟨[], root⟩]

@[simp] theorem apply_self (root : Element) (nodes : List Node) :
    self.apply root nodes = nodes := rfl

@[simp] theorem walk_nil (root : Element) : walk root [] = [⟨[], root⟩] := rfl

theorem walk_append_singleton
    (root : Element)
    (steps : List Step)
    (last : Step) :
    walk root (steps ++ [last]) = last.apply root (walk root steps) := by
  simp [walk]

end Step
end Selector
end MarkupLint
