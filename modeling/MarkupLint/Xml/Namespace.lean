import MarkupLint.Xml.Fault

/-!
# Names in namespaces

A prefix is bound to the name of a namespace by the start tag of an element and keeps that binding
inside the element.  The prefix `xml` is bound without a declaration.
-/

namespace MarkupLint
namespace Xml

/-- A name with the name of its namespace, if it is in one. -/
structure ExpandedName where
  space? : Option String
  localName : String
deriving DecidableEq, Repr, Inhabited

/-- The name as one text: the namespace, if there is one, stands in braces before the local name. -/
def ExpandedName.text (name : ExpandedName) : String :=
  match name.space? with
  | none => name.localName
  | some space => "\x7b" ++ space ++ "\x7d" ++ name.localName

/-- Bindings of prefixes, the latest first; the empty prefix stands for names without one. -/
abbrev Bindings := List (List Char × List Char)

/-- The namespace that only the prefix `xml` is bound to. -/
def xmlNamespace : List Char := "http://www.w3.org/XML/1998/namespace".toList

/-- The namespace of namespace declarations, which no prefix is bound to. -/
def declarationNamespace : List Char := "http://www.w3.org/2000/xmlns/".toList

/-- The prefix and the local part of a name; a name without a colon has an empty prefix. -/
def splitName (name : List Char) : List Char × List Char :=
  if name.contains ':' then
    (name.takeWhile (· != ':'), (name.dropWhile (· != ':')).tail)
  else
    ([], name)

/-- The prefix that an attribute of this name declares. -/
def declaredPrefix? (name : List Char) : Option (List Char) :=
  match splitName name with
  | ([], ['x', 'm', 'l', 'n', 's']) => some []
  | (['x', 'm', 'l', 'n', 's'], declared) => some declared
  | _ => none

namespace Bindings

/-- The namespace that a prefix is bound to; an empty name unbinds names without prefix. -/
def find? (bindings : Bindings) (label : List Char) : Option (List Char) :=
  match bindings.lookup label with
  | some [] => none
  | some name => some name
  | none => if label == ['x', 'm', 'l'] then some xmlNamespace else none

/-- Bind a prefix to a namespace, unless one of them is reserved.  A name with a closing brace is
refused, since a brace ends the namespace in an expanded name. -/
def bind (bindings : Bindings) (label name : List Char) : Except Fault Bindings :=
  if name.isEmpty && !label.isEmpty then .error .undeclaredPrefix
  else if label == ['x', 'm', 'l', 'n', 's'] then .error .reservedXmlnsPrefix
  else if name.contains '}' then .error .unexpectedToken
  else if label == ['x', 'm', 'l'] && name != xmlNamespace then .error .reservedXmlPrefix
  else if label != ['x', 'm', 'l'] && name == xmlNamespace then .error .reservedNamespace
  else if name == declarationNamespace then .error .reservedNamespace
  else .ok ((label, name) :: bindings)

/-- The expanded name of an element. -/
def elementName (bindings : Bindings) (name : List Char) : Except Fault ExpandedName :=
  match splitName name with
  | (label, part) =>
    match bindings.find? label with
    | some space => .ok ⟨some (String.ofList space), String.ofList part⟩
    | none =>
      if name.contains ':' then .error .unboundPrefix else .ok ⟨none, String.ofList part⟩

/-- The expanded name of an attribute; one without a prefix is in no namespace. -/
def attributeName (bindings : Bindings) (name : List Char) : Except Fault ExpandedName :=
  if name.contains ':' then
    match bindings.find? (splitName name).1 with
    | some space => .ok ⟨some (String.ofList space), String.ofList (splitName name).2⟩
    | none => .error .unboundPrefix
  else
    .ok ⟨none, String.ofList name⟩

end Bindings
end Xml
end MarkupLint
