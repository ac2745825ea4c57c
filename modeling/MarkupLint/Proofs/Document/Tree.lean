import MarkupLint.Proofs.Document.Attributes
import MarkupLint.Proofs.Xml.Reader

/-!
# The tree of a document

The tree that is built from the events of markup has the elements of the markup, with their texts
where they stand in the markup.  Names and attributes are those of the tags, at first with namespaces
and in the end without.
-/

namespace MarkupLint
namespace Xml

/-- The name and the attributes of an element before its names lose their namespaces. -/
def StartTag.head (tag : StartTag) : String × Attributes := (tag.name.text, tag.entries)

/-- The name and the attributes of an element. -/
def StartTag.localHead (tag : StartTag) : String × Attributes :=
  (tag.name.localName, tag.attributes)

namespace Content

/-- The characters before the first element, if there are any. -/
def leadingText? : Content → Option String
  | text chars rest => some (String.ofList chars ++ rest.leadingText?.getD "")
  | _ => none

/-- The elements in order, each with the characters behind it, from their names and attributes. -/
def elements (head : StartTag → String × Attributes) : Content → List Element
  | nil => []
  | text _ rest => rest.elements head
  | element tag inner rest =>
    ⟨(head tag).1, (head tag).2, inner.leadingText?, rest.leadingText?, inner.elements head⟩ ::
      rest.elements head

theorem stripEach_elements (content : Content) :
    Element.stripEach (content.elements StartTag.head) = content.elements StartTag.localHead := by
  induction content with
  | nil => rfl
  | text chars rest ih => exact ih
  | element tag inner rest ihInner ihRest =>
    rw [elements, Element.stripEach, Element.stripNamespaces, ihInner, ihRest]
    simp only [StartTag.head, StartTag.localHead, localName_text tag.isPlain,
      StartTag.stripNamespaces_entries, elements]

end Content

/-- The element that markup stands for, from the names and attributes of elements. -/
def Markup.element (head : StartTag → String × Attributes) (markup : Markup) : Element :=
  ⟨(head markup.tag).1, (head markup.tag).2, markup.content.leadingText?, none,
    markup.content.elements head⟩

theorem Markup.stripNamespaces_element (markup : Markup) :
    (markup.element StartTag.head).stripNamespaces = markup.element StartTag.localHead := by
  rw [element, Element.stripNamespaces, Content.stripEach_elements]
  simp only [StartTag.head, StartTag.localHead, localName_text markup.tag.isPlain,
    StartTag.stripNamespaces_entries, element]

end Xml

namespace OpenElement

/-- Add characters, if there are any. -/
def addText? (element : OpenElement) : Option String → OpenElement
  | none => element
  | some added => element.addText added

/-- Add content: the characters at its front, and its elements. -/
def addContent (element : OpenElement) (content : Xml.Content) : OpenElement :=
  let texted := element.addText? content.leadingText?
  { texted with children := (content.elements Xml.StartTag.head).reverse ++ texted.children }

theorem addText_addText? (element : OpenElement) (added : String) (more? : Option String) :
    (element.addText added).addText? more? = element.addText (added ++ more?.getD "") := by
  obtain ⟨tag, attributes, text?, children⟩ := element
  cases more? <;> cases children <;> simp [addText?, addText, String.append_assoc]

/-- The characters behind a child become its tail. -/
theorem addChild_addText?
    (element : OpenElement)
    (child : Element)
    (untailed : child.tail? = none)
    (added? : Option String) :
    (element.addChild child).addText? added? =
      element.addChild { child with tail? := added? } := by
  obtain ⟨tag, attributes, text?, tail?, children⟩ := child
  cases untailed
  cases added? <;> simp [addText?, addText, addChild]

/-- An element that had nothing in it before its content. -/
theorem close_addContent (tag : String) (attributes : Attributes) (content : Xml.Content) :
    (addContent ⟨tag, attributes, none, []⟩ content).close =
      ⟨tag, attributes, content.leadingText?, none, content.elements Xml.StartTag.head⟩ := by
  cases known : content.leadingText? <;> simp [addContent, addText?, addText, close, known]

end OpenElement

namespace TreeBuilder

/-- The names of a start tag are different, so that no attribute takes the place of another one. -/
theorem attributesOf_eq (tag : Xml.StartTag) (opened : List OpenElement) (root? : Option Element) :
    attributesOf
        ⟨tag.declared.map fun pair => (declarationName pair.1, pair.2), opened, root?⟩ tag.own =
      tag.entries := by
  rw [attributesOf, Table.ofPairs, ← List.foldl_append]
  exact Table.ofPairs_eq_self tag.nodup_keys_entries

/-- The declarations of a start tag wait for the tag, and become attributes of its element. -/
theorem foldl_add_startTag
    (tag : Xml.StartTag)
    (opened : List OpenElement)
    (root? : Option Element) :
    tag.events.foldl add ⟨[], opened, root?⟩ =
      ⟨[], ⟨tag.name.text, tag.entries, none, []⟩ :: opened, root?⟩ := by
  have waiting : ∀ declared waiting : List (String × String),
      (declared.map fun pair => Xml.Event.declaration pair.1 pair.2).foldl add
          ⟨waiting, opened, root?⟩ =
        ⟨waiting ++ declared.map fun pair => (declarationName pair.1, pair.2), opened, root?⟩ := by
    intro declared
    induction declared with
    | nil => simp
    | cons pair rest ih =>
      intro waiting
      rw [List.map_cons, List.foldl_cons]
      simp only [add]
      rw [ih]
      simp
  rw [Xml.StartTag.events, List.foldl_append, waiting, List.nil_append]
  simp only [List.foldl_cons, List.foldl_nil, add, attributesOf_eq]

/-- Following the events of content adds the content to the innermost open element. -/
theorem foldl_add_content
    (content : Xml.Content)
    (innermost : OpenElement)
    (outer : List OpenElement)
    (root? : Option Element) :
    content.events.foldl add ⟨[], innermost :: outer, root?⟩ =
      ⟨[], innermost.addContent content :: outer, root?⟩ := by
  induction content generalizing innermost outer with
  | nil => rfl
  | text chars rest ih =>
    rw [Xml.Content.events, List.foldl_cons]
    simp only [add]
    rw [ih]
    simp only [OpenElement.addContent, OpenElement.addText_addText?]
    rfl
  | element tag inner rest ihInner ihRest =>
    rw [Xml.Content.events, List.foldl_append, List.foldl_append, foldl_add_startTag, ihInner,
      List.foldl_cons]
    simp only [add, finish, OpenElement.close_addContent]
    rw [ihRest, OpenElement.addContent, OpenElement.addChild_addText? _ _ rfl]
    simp [OpenElement.addContent, OpenElement.addChild, OpenElement.addText?,
      Xml.Content.leadingText?, Xml.Content.elements, Xml.StartTag.head]

end TreeBuilder

/-- The tree of the events of markup is the element that the markup stands for. -/
theorem Element.ofEvents?_events (markup : Xml.Markup) :
    Element.ofEvents? markup.events = some (markup.element Xml.StartTag.head) := by
  rw [ofEvents?, Xml.Markup.events, List.foldl_append, List.foldl_append, TreeBuilder.empty,
    TreeBuilder.foldl_add_startTag, TreeBuilder.foldl_add_content]
  simp only [List.foldl_cons, List.foldl_nil, TreeBuilder.add, TreeBuilder.finish,
    OpenElement.close_addContent]
  rfl

namespace Document

/-- A source that is well-formed has the events of markup, and is read as a document with the tree of
that markup: its elements have local names, the attributes and the declarations of their own tags, and
the texts and the children that they have in the markup. -/
theorem read_of_wellFormed
    {source : String}
    {events : List Xml.Event}
    (wellFormed : Xml.read source.toList = .ok events)
    (file? : Option String) :
    (∃ markup : Xml.Markup, markup.events = events) ∧
      ∀ markup : Xml.Markup, markup.events = events →
        Document.read source file? = .ok ⟨file?, markup.element Xml.StartTag.localHead, source⟩ := by
  obtain ⟨markup, rfl⟩ := Xml.exists_markup_of_read wellFormed
  refine ⟨⟨markup, rfl⟩, fun other same => ?_⟩
  rw [read_eq_ok (same ▸ wellFormed) (Element.ofEvents?_events other),
    Xml.Markup.stripNamespaces_element]

theorem nodup_attributes_of_mem_nodesOf
    (content : Xml.Content)
    (position : Position)
    (index : Nat) :
    ∀ node ∈ Element.nodesOf position index (content.elements Xml.StartTag.localHead),
      node.element.attributes.keys.Nodup := by
  induction content generalizing position index with
  | nil => exact nofun
  | text chars rest ih => exact ih position index
  | element tag inner rest ihInner ihRest =>
    intro node held
    rw [Xml.Content.elements, Element.nodesOf, Element.nodesAt_eq] at held
    rcases List.mem_append.mp held with own | later
    · rcases List.mem_cons.mp own with rfl | inside
      · exact tag.nodup_keys_attributes
      · exact ihInner _ 0 node inside
    · exact ihRest position (index + 1) node later

/-- The attributes of an element that is read have different names. -/
theorem nodup_attributes_of_read
    {source : String}
    {file? : Option String}
    {document : Document}
    (known : Document.read source file? = .ok document) :
    ∀ node ∈ document.nodes, node.element.attributes.keys.Nodup := by
  cases wellFormed : Xml.read source.toList with
  | error refusal =>
    simp only [Document.read, wellFormed] at known
    contradiction
  | ok events =>
    obtain ⟨markup, rfl⟩ := Xml.exists_markup_of_read wellFormed
    rw [read_eq_ok wellFormed (Element.ofEvents?_events markup),
      Xml.Markup.stripNamespaces_element] at known
    cases known
    intro node held
    rw [Document.nodes, Element.nodes, Element.nodesAt_eq] at held
    rcases List.mem_cons.mp held with rfl | inside
    · exact markup.tag.nodup_keys_attributes
    · exact nodup_attributes_of_mem_nodesOf markup.content _ _ node inside

/-- Markup with two attributes of one local name. -/
def prefixed : Xml.Markup where
  tag :=
    { declared := [("", "u"), ("p", "v")]
      name := ⟨some "u", "a"⟩
      own := [(⟨some "v", "x"⟩, "1"), (⟨none, "x"⟩, "2")]
      isPlain := by decide
      arePlain := by decide
      declared_nodup := by decide
      own_nodup := by decide
      undeclared := by decide }
  content :=
    .text ['3'] (.element
      { declared := []
        name := ⟨some "u", "b"⟩
        own := []
        isPlain := by decide
        arePlain := by decide
        declared_nodup := by decide
        own_nodup := by decide
        undeclared := by decide }
      .nil (.text ['4'] .nil))

theorem read_of_wellFormed_of_prefixed :
    Xml.read "<a p:x='1' x='2' xmlns='u' xmlns:p='v'>3<b/>4</a>".toList = .ok prefixed.events ∧
      Document.read "<a p:x='1' x='2' xmlns='u' xmlns:p='v'>3<b/>4</a>" none =
        .ok ⟨none, prefixed.element Xml.StartTag.localHead,
          "<a p:x='1' x='2' xmlns='u' xmlns:p='v'>3<b/>4</a>"⟩ ∧
      prefixed.element Xml.StartTag.localHead =
        ⟨"a", [("x", "2"), ("xmlns", "u"), ("xmlns:p", "v")], some "3", none,
          [⟨"b", [], none, some "4", []⟩]⟩ := by
  have wellFormed : Xml.read "<a p:x='1' x='2' xmlns='u' xmlns:p='v'>3<b/>4</a>".toList =
      .ok prefixed.events := by decide +kernel
  refine ⟨wellFormed, (read_of_wellFormed wellFormed none).2 prefixed rfl, ?_⟩
  rfl

end Document
end MarkupLint
