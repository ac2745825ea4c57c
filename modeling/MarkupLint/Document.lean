import MarkupLint.Element
import MarkupLint.Xml.Reader

/-!
# Documents

A document is the tree that the events of reading a text build.  The namespace declarations of a
start tag become attributes behind the attributes of the tag.  Once the tree is complete, all of its
names lose their namespaces.
-/

namespace MarkupLint

/-- An element whose end has not been reached. -/
structure OpenElement where
  tag : String
  attributes : Attributes
  text? : Option String
  /-- The children that have ended, the last one first. -/
  children : List Element
deriving Repr, Inhabited

namespace OpenElement

/-- Add characters: to the text while there is no child, else behind the last child. -/
def addText (element : OpenElement) (added : String) : OpenElement :=
  match element.children with
  | [] => { element with text? := some ((element.text?.getD "") ++ added) }
  | last :: earlier =>
    let last := { last with tail? := some ((last.tail?.getD "") ++ added) }
    { element with children := last :: earlier }

/-- Add a child behind the others. -/
def addChild (element : OpenElement) (child : Element) : OpenElement :=
  { element with children := child :: element.children }

/-- The element once its end is reached. -/
def close (element : OpenElement) : Element :=
  ⟨element.tag, element.attributes, element.text?, none, element.children.reverse⟩

end OpenElement

/-- A tree that is being built. -/
structure TreeBuilder where
  /-- The attributes that stand for the declarations of the next start tag, in order. -/
  declared : List (String × String)
  /-- The open elements, the innermost first. -/
  opened : List OpenElement
  root? : Option Element
deriving Repr, Inhabited

namespace TreeBuilder

/-- A tree of which nothing is known. -/
def empty : TreeBuilder := ⟨[], [], none⟩

/-- The name of the attribute that stands for a declaration. -/
def declarationName (label : String) : String :=
  if label.isEmpty then "xmlns" else "xmlns:" ++ label

/-- End the innermost element. -/
def finish (builder : TreeBuilder) : TreeBuilder :=
  match builder.opened with
  | [] => builder
  | [last] => { builder with opened := [], root? := some last.close }
  | last :: parent :: outer => { builder with opened := parent.addChild last.close :: outer }

/-- The attributes of a start tag and behind them the ones that wait for it. -/
def attributesOf (builder : TreeBuilder) (own : List (Xml.ExpandedName × String)) : Attributes :=
  builder.declared.foldl (fun attributes pair => attributes.set pair.1 pair.2)
    (Table.ofPairs (own.map fun pair => (pair.1.text, pair.2)))

/-- Follow one event. -/
def add (builder : TreeBuilder) : Xml.Event → TreeBuilder
  | .declaration label namespaceName =>
    let declared := builder.declared ++ [(declarationName label, namespaceName)]
    { builder with declared := declared }
  | .start name own =>
    let element := ⟨name.text, builder.attributesOf own, none, []⟩
    { builder with declared := [], opened := element :: builder.opened }
  | .text chars =>
    match builder.opened with
    | [] => builder
    | innermost :: outer =>
      { builder with opened := innermost.addText (String.ofList chars) :: outer }
  | .finish => builder.finish

end TreeBuilder

/-- The root of the tree that the events describe.  Its names still have their namespaces. -/
def Element.ofEvents? (events : List Xml.Event) : Option Element :=
  (events.foldl TreeBuilder.add TreeBuilder.empty).root?

/-! ## Local names -/

/-- Whether a namespace in braces stands at the front of a name. -/
def isInNamespace (name : String) : Bool := name.toList.head? == some '{'

/-- The local part of a name: what is behind the first closing brace if it is in a namespace. -/
def localName (name : String) : String :=
  if isInNamespace name then String.ofList (name.toList.dropWhile (· != '}')).tail else name

/-- The attributes under their local names.  They are left as they are if none is in a namespace. -/
def Attributes.stripNamespaces (attributes : Attributes) : Attributes :=
  if attributes.any fun entry => isInNamespace entry.1 then
    Table.ofPairs (attributes.map fun entry => (localName entry.1, entry.2))
  else
    attributes

namespace Element

mutual

/-- The element with local names only, also inside it. -/
def stripNamespaces : Element → Element
  | ⟨tag, attributes, text?, tail?, children⟩ =>
    ⟨localName tag, attributes.stripNamespaces, text?, tail?, stripEach children⟩

/-- The elements with local names only, also inside them. -/
def stripEach : List Element → List Element
  | [] => []
  | element :: rest => element.stripNamespaces :: stripEach rest

end

end Element

/-- A text that cannot be read as a document, with the file it comes from. -/
structure ParseError where
  message : String
  file? : Option String
deriving DecidableEq, Repr, Inhabited

/-- A document with the text it was read from. -/
structure Document where
  file? : Option String
  root : Element
  source : String
deriving Repr, Inhabited

namespace Document

/-- Read a document from a text. -/
def read (source : String) (file? : Option String) : Except ParseError Document :=
  match Xml.read source.toList with
  | .error refusal => .error ⟨"Invalid markup: " ++ refusal.message, file?⟩
  | .ok events =>
    match Element.ofEvents? events with
    | some root => .ok ⟨file?, root.stripNamespaces, source⟩
    | none => .error ⟨"Invalid markup: " ++ Xml.Fault.noElement.message, file?⟩

/-- The elements of the document in document order. -/
def nodes (document : Document) : List Node := document.root.nodes

theorem read_eq_ok
    {source : String}
    {events : List Xml.Event}
    {root : Element}
    (wellFormed : Xml.read source.toList = .ok events)
    (built : Element.ofEvents? events = some root)
    (file? : Option String) :
    read source file? = .ok ⟨file?, root.stripNamespaces, source⟩ := by
  simp only [read, wellFormed, built]

end Document
end MarkupLint
