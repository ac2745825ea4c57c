/-!
# Why markup is refused

The causes for which a text is no well-formed document, their wording, and places in a text.  A
place counts lines from one and columns from zero; a column is one character wide, and a line ends
after a line feed, after a carriage return, or after the two in this order.
-/

namespace MarkupLint
namespace Xml

/-- A cause for which markup is refused. -/
inductive Fault where
  | unexpectedToken
  | noElement
  | invalidToken
  | unclosedToken
  | mismatchedTag
  | duplicateAttribute
  | junkAfterRoot
  | parameterEntityInDeclaration
  | undefinedEntity
  | recursiveEntity
  | asynchronousEntity
  | badCharacterNumber
  | unparsedEntity
  | externalEntityInAttribute
  | misplacedDeclaration
  | unclosedSection
  | unboundPrefix
  | undeclaredPrefix
  | malformedDeclaration
  | illegalPublicIdentifier
  | reservedXmlPrefix
  | reservedXmlnsPrefix
  | reservedNamespace
  | excessiveExpansion
  /-- A reference, with its text, to an entity that declarations left unread might declare. -/
  | skippedEntity (reference : String)
deriving DecidableEq, Repr, Inhabited

namespace Fault

/-- The wording of a cause. -/
def message : Fault → String
  | unexpectedToken => "syntax error"
  | noElement => "no element found"
  | invalidToken => "not well-formed (invalid token)"
  | unclosedToken => "unclosed token"
  | mismatchedTag => "mismatched tag"
  | duplicateAttribute => "duplicate attribute"
  | junkAfterRoot => "junk after document element"
  | parameterEntityInDeclaration => "illegal parameter entity reference"
  | undefinedEntity => "undefined entity"
  | recursiveEntity => "recursive entity reference"
  | asynchronousEntity => "asynchronous entity"
  | badCharacterNumber => "reference to invalid character number"
  | unparsedEntity => "reference to binary entity"
  | externalEntityInAttribute => "reference to external entity in attribute"
  | misplacedDeclaration => "XML or text declaration not at start of entity"
  | unclosedSection => "unclosed CDATA section"
  | unboundPrefix => "unbound prefix"
  | undeclaredPrefix => "must not undeclare prefix"
  | malformedDeclaration => "XML declaration not well-formed"
  | illegalPublicIdentifier => "illegal character(s) in public id"
  | reservedXmlPrefix =>
    "reserved prefix (xml) must not be undeclared or bound to another namespace name"
  | reservedXmlnsPrefix => "reserved prefix (xmlns) must not be declared or undeclared"
  | reservedNamespace => "prefix must not be bound to one of the reserved namespace names"
  | excessiveExpansion =>
    "limit on input amplification factor (from DTD and entities) breached"
  | skippedEntity reference => "undefined entity " ++ reference

end Fault

/-- A place in a text. -/
structure Place where
  line : Nat
  column : Nat
deriving DecidableEq, Repr, Inhabited

namespace Place

/-- Where every text begins. -/
def start : Place := ⟨1, 0⟩

/-- The place reached after reading some characters. -/
def advance (place : Place) : List Char → Place
  | [] => place
  | '\r' :: '\n' :: rest => advance ⟨place.line + 1, 0⟩ rest
  | char :: rest =>
    if char == '\r' || char == '\n' then advance ⟨place.line + 1, 0⟩ rest
    else advance ⟨place.line, place.column + 1⟩ rest

@[simp] theorem advance_nil (place : Place) : place.advance [] = place := rfl

end Place

/-- A refusal: its cause and the place that is reported for it. -/
structure Refusal where
  fault : Fault
  place : Place
deriving DecidableEq, Repr, Inhabited

namespace Refusal

/-- The cause with its place. -/
def message (refusal : Refusal) : String :=
  s!"{refusal.fault.message}: line {refusal.place.line}, column {refusal.place.column}"

end Refusal
end Xml
end MarkupLint
