import MarkupLint.Xml.Reader

/-!
# Well-formed markup

Markup is a tree of tags with characters between them, and reading it yields its events in the order
of the text.  The attributes and the declarations of a tag have different names.  The events of open
elements are those of markup that is still to be closed.
-/

namespace MarkupLint
namespace Xml

/-- A name that can be split behind the namespace when it is one text. -/
structure ExpandedName.IsPlain (name : ExpandedName) : Prop where
  space_plain : ∀ space ∈ name.space?, '}' ∉ space.toList
  local_plain : '{' ∉ name.localName.toList

instance (name : ExpandedName) : Decidable name.IsPlain :=
  decidable_of_iff ((∀ space ∈ name.space?, '}' ∉ space.toList) ∧ '{' ∉ name.localName.toList)
    ⟨fun ⟨spacePlain, localPlain⟩ => ⟨spacePlain, localPlain⟩,
      fun ⟨spacePlain, localPlain⟩ => ⟨spacePlain, localPlain⟩⟩

/-- A start tag: its namespace declarations, its name, and its own attributes. -/
structure StartTag where
  declared : List (String × String)
  name : ExpandedName
  own : List (ExpandedName × String)
  isPlain : name.IsPlain
  arePlain : ∀ pair ∈ own, pair.1.IsPlain
  declared_nodup : (declared.map (·.1)).Nodup
  own_nodup : (own.map (·.1)).Nodup
  /-- An attribute without a namespace is no declaration. -/
  undeclared : ∀ pair ∈ own, pair.1.space? = none →
    pair.1.localName ≠ "xmlns" ∧ ':' ∉ pair.1.localName.toList

/-- What stands between the tags of an element. -/
inductive Content where
  | nil
  | text (chars : List Char) (rest : Content)
  | element (tag : StartTag) (inner rest : Content)

/-- An element with everything in it. -/
structure Markup where
  tag : StartTag
  content : Content

/-- The events of a start tag: the declarations come directly before the tag. -/
def StartTag.events (tag : StartTag) : List Event :=
  tag.declared.map (fun pair => .declaration pair.1 pair.2) ++ [.start tag.name tag.own]

namespace Content

/-- The events of content. -/
def events : Content → List Event
  | nil => []
  | text chars rest => .text chars :: rest.events
  | element tag inner rest => tag.events ++ inner.events ++ .finish :: rest.events

/-- Content with more content behind it. -/
def append : Content → Content → Content
  | nil, more => more
  | text chars rest, more => text chars (rest.append more)
  | element tag inner rest, more => element tag inner (rest.append more)

theorem events_append (content more : Content) :
    (content.append more).events = content.events ++ more.events := by
  induction content with
  | nil => rfl
  | text chars rest ih => simp [append, events, ih]
  | element tag inner rest _ ih => simp [append, events, ih]

end Content

/-- The events of markup. -/
def Markup.events (markup : Markup) : List Event :=
  markup.tag.events ++ markup.content.events ++ [.finish]

/-- An element that is still open, with its content so far. -/
structure Opening where
  tag : StartTag
  content : Content

namespace Opening

/-- The events of open elements, the innermost first. -/
def events : List Opening → List Event
  | [] => []
  | inner :: outer => events outer ++ inner.tag.events ++ inner.content.events

/-- More content in an open element. -/
def add (opening : Opening) (more : Content) : Opening :=
  { opening with content := opening.content.append more }

theorem events_add (inner : Opening) (outer : List Opening) (more : Content) :
    events (inner.add more :: outer) = events (inner :: outer) ++ more.events := by
  simp [events, add, Content.events_append]

/-- The end of the innermost element makes it content of the next one. -/
theorem events_finish (inner next : Opening) (outer : List Opening) :
    events (next.add (.element inner.tag inner.content .nil) :: outer) =
      events (inner :: next :: outer) ++ [.finish] := by
  rw [events_add]
  simp [Content.events, events]

end Opening
end Xml
end MarkupLint
