import MarkupLint.Xml.Fault
import MarkupLint.Xml.Scan

/-!
# Declared entities and attributes

What the declarations of a document type contribute to reading: the entities that references
stand for, the defaults of attributes, and the attributes whose values are lists of tokens.  The
replacement of references in attribute values is here too, since declared defaults need it.
-/

namespace MarkupLint
namespace Xml

/-- What an entity is declared to be. -/
inductive Entity where
  /-- Replacement text given in the declaration. -/
  | internal (text : List Char)
  /-- Text kept elsewhere, which is not read. -/
  | external
  /-- Data that is no markup. -/
  | unparsed
deriving Repr

/-- A declared attribute of an element. -/
structure AttributeDeclaration where
  element : List Char
  name : List Char
  /-- Whether the value is plain text; other values are lists of tokens. -/
  isText : Bool
  /-- The value of an attribute that a tag leaves out. -/
  value? : Option (List Char)
deriving Repr

/-- The declarations read so far. -/
structure Dtd where
  /-- Entities with their names; of two declarations the first is kept. -/
  entities : List (List Char × Entity)
  /-- Attributes, in the order of their declarations. -/
  attributes : List AttributeDeclaration
  /-- Whether the document declares that it depends on no declaration outside it. -/
  isStandalone : Bool
  /-- Whether there are declarations that are not read. -/
  hasUnread : Bool
  /-- Whether declarations still count; after an unread one they do not. -/
  isCounting : Bool
deriving Repr

namespace Dtd

/-- No declarations. -/
def none : Dtd := ⟨[], [], false, false, true⟩

/-- The entity of a name. -/
def entity? (dtd : Dtd) (name : List Char) : Option Entity := dtd.entities.lookup name

/-- Whether a reference to an undeclared entity is a fault: it is unless an unread declaration
might declare the entity. -/
def requiresDeclaration (dtd : Dtd) : Bool := !dtd.hasUnread || dtd.isStandalone

/-- Declare an entity; a second declaration of a name has no effect. -/
def declareEntity (dtd : Dtd) (name : List Char) (entity : Entity) : Dtd :=
  match dtd.entity? name with
  | some _ => dtd
  | .none => { dtd with entities := dtd.entities ++ [(name, entity)] }

/-- Whether the element has a declared attribute of the name. -/
def declares (dtd : Dtd) (element name : List Char) : Bool :=
  dtd.attributes.any fun declared => declared.element == element && declared.name == name

/-- Declare an attribute.  A declaration that fixes a value or an identifier has no effect when the
attribute is declared already. -/
def declareAttribute
    (dtd : Dtd)
    (declaration : AttributeDeclaration)
    (isIdentifier : Bool) :
    Dtd :=
  if (declaration.value?.isSome || isIdentifier) &&
      dtd.declares declaration.element declaration.name then
    dtd
  else
    { dtd with attributes := dtd.attributes ++ [declaration] }

/-- The declared attributes of an element. -/
def attributesOf (dtd : Dtd) (element : List Char) : List AttributeDeclaration :=
  dtd.attributes.filter fun declared => declared.element == element

/-- Whether the value of an attribute is plain text; it is unless its first declaration says
otherwise. -/
def isTextAttribute (dtd : Dtd) (element name : List Char) : Bool :=
  match (dtd.attributesOf element).find? fun declared => declared.name == name with
  | some declared => declared.isText
  | .none => true

/-- Take note of declarations that are not read: unless the document stands alone, the later ones
do not count. -/
def skipDeclarations (dtd : Dtd) : Dtd :=
  { dtd with hasUnread := true, isCounting := dtd.isStandalone }

end Dtd

/-- The character of an entity that needs no declaration. -/
def predefinedEntity? (name : List Char) : Option Char :=
  match String.ofList name with
  | "lt" => some '<'
  | "gt" => some '>'
  | "amp" => some '&'
  | "quot" => some '"'
  | "apos" => some '\''
  | _ => none

/-- Why a value is refused; the text from the character at fault on is given when that character
stands in the document itself and not in the replacement text of an entity. -/
structure ValueFault where
  fault : Fault
  at? : Option (List Char)
deriving Repr

/-- The text of an entity that is being read. -/
structure OpenEntity where
  name : List Char
  /-- What is still to be read of it. -/
  text : List Char
deriving Repr

/-- The state of replacing references in a value. -/
structure Expansion where
  /-- The entities that are being read, the innermost one first. -/
  entities : List OpenEntity
  /-- The text of the value that is still to be read. -/
  text : List Char
  /-- The value read so far, its last character first. -/
  read : List Char
  /-- How many more steps inside replacement text are allowed. -/
  allowance : Nat
deriving Repr

namespace Expansion

/-- The text that is read next, from the innermost entity or else from the value. -/
def current (expansion : Expansion) : List Char :=
  match expansion.entities with
  | [] => expansion.text
  | inner :: _ => inner.text

/-- Go on with another text in place of the current one. -/
def continueWith (expansion : Expansion) (rest : List Char) : Expansion :=
  match expansion.entities with
  | [] => { expansion with text := rest }
  | inner :: outer => { expansion with entities := { inner with text := rest } :: outer }

/-- Append a character; in a list of tokens, blanks at the front and after blanks are dropped. -/
def append (expansion : Expansion) (isText : Bool) (char : Char) : Expansion :=
  if !isText && char == ' ' && (expansion.read.isEmpty || expansion.read.head? == some ' ') then
    expansion
  else
    { expansion with read := char :: expansion.read }

/-- Refuse the value because of what stands at the front of a rest of the current text. -/
def refuse (expansion : Expansion) (fault : Fault) (rest : List Char) : Except ValueFault α :=
  .error ⟨fault, if expansion.entities.isEmpty then some rest else none⟩

end Expansion

/-- Enter a referenced entity: `busy` names the entities that are open around the value. -/
def enterEntity
    (dtd : Dtd)
    (busy : List (List Char))
    (expansion : Expansion)
    (reference : List Char)
    (name : List Char)
    (rest : List Char) :
    Except ValueFault Expansion :=
  match dtd.entity? name with
  | none =>
    if dtd.requiresDeclaration then .error ⟨.undefinedEntity, none⟩
    else .ok (expansion.continueWith rest)
  | some entity =>
    if busy.contains name || expansion.entities.any (·.name == name) then
      expansion.refuse .recursiveEntity reference
    else
      match entity with
      | .unparsed => expansion.refuse .unparsedEntity reference
      | .external => expansion.refuse .externalEntityInAttribute reference
      | .internal text =>
        let next := expansion.continueWith rest
        .ok { next with entities := ⟨name, text⟩ :: next.entities }

/-- Read one character, reference or end of an entity; nothing is left at the end of the value. -/
def expandStep
    (dtd : Dtd)
    (busy : List (List Char))
    (isText : Bool)
    (expansion : Expansion) :
    Except ValueFault (Option Expansion) :=
  match expansion.current with
  | [] =>
    match expansion.entities with
    | [] => .ok none
    | _ :: outer => .ok (some { expansion with entities := outer })
  | '<' :: rest => expansion.refuse .invalidToken ('<' :: rest)
  | '&' :: rest =>
    match scanReference rest with
    | .token (.character char?) after =>
      match char? with
      | none => expansion.refuse .badCharacterNumber ('&' :: rest)
      | some char => .ok (some ((expansion.continueWith after).append isText char))
    | .token (.entity name) after =>
      match predefinedEntity? name with
      | some char =>
        let next := expansion.continueWith after
        .ok (some { next with read := char :: next.read })
      | none => (enterEntity dtd busy expansion ('&' :: rest) name after).map some
    | .invalid after => expansion.refuse .invalidToken after
    | _ => expansion.refuse .invalidToken ('&' :: rest)
  | '\r' :: '\n' :: rest => .ok (some ((expansion.continueWith rest).append isText ' '))
  | char :: rest =>
    let next := expansion.continueWith rest
    .ok (some (if isBlank char then next.append isText ' '
      else { next with read := char :: next.read }))

/-- Charge a step to the allowance if it is taken inside replacement text. -/
def charge (expansion : Expansion) : Nat :=
  if expansion.entities.isEmpty then expansion.allowance else expansion.allowance - 1

/-- Read a value to its end, in at most the given number of steps. -/
def expandWithin
    (dtd : Dtd)
    (busy : List (List Char))
    (isText : Bool) :
    Nat → Expansion → Except ValueFault Expansion
  | 0, _ => .error ⟨.excessiveExpansion, none⟩
  | steps + 1, expansion =>
    if expansion.allowance == 0 then .error ⟨.excessiveExpansion, none⟩
    else
      match expandStep dtd busy isText expansion with
      | .error fault => .error fault
      | .ok none => .ok expansion
      | .ok (some next) =>
        expandWithin dtd busy isText steps { next with allowance := charge expansion }

/-- The value of an attribute and the allowance that is left: references are replaced, line ends
and tabs become spaces, and a list of tokens is separated by single spaces. -/
def attributeValue
    (dtd : Dtd)
    (busy : List (List Char))
    (isText : Bool)
    (allowance : Nat)
    (text : List Char) :
    Except ValueFault (List Char × Nat) :=
  match expandWithin dtd busy isText (allowance + text.length + 2) ⟨[], text, [], allowance⟩ with
  | .error fault => .error fault
  | .ok expansion =>
    let read :=
      if !isText && expansion.read.head? == some ' ' then expansion.read.tail
      else expansion.read
    .ok (read.reverse, expansion.allowance)

/-- A percent sign in the value of an entity: a reference to a parameter entity, or a fault. -/
def parameterReferenceFault (text : List Char) : ValueFault :=
  match scanName text.tail with
  | .token _ (';' :: _) => ⟨.parameterEntityInDeclaration, some text⟩
  | .token _ (char :: rest) => ⟨.invalidToken, some (char :: rest)⟩
  | .invalid rest => ⟨.invalidToken, some rest⟩
  | _ => ⟨.invalidToken, some text⟩

/-- The replacement text that a declaration gives an entity: character references are replaced,
references to entities are kept, and line ends become line feeds.  Each round reads at least one
character. -/
def entityTextWithin : Nat → List Char → Except ValueFault (List Char)
  | 0, _ => .ok []
  | _ + 1, [] => .ok []
  | rounds + 1, '&' :: rest =>
    match scanReference rest with
    | .token (.character none) _ => .error ⟨.badCharacterNumber, some ('&' :: rest)⟩
    | .token (.character (some char)) after =>
      (entityTextWithin rounds after).map (char :: ·)
    | .token (.entity name) after =>
      (entityTextWithin rounds after).map fun text => '&' :: name ++ ';' :: text
    | .invalid after => .error ⟨.invalidToken, some after⟩
    | _ => .error ⟨.invalidToken, some ('&' :: rest)⟩
  | _ + 1, '%' :: rest => .error (parameterReferenceFault ('%' :: rest))
  | rounds + 1, '\r' :: '\n' :: rest => (entityTextWithin rounds rest).map ('\n' :: ·)
  | rounds + 1, char :: rest =>
    (entityTextWithin rounds rest).map ((if char == '\r' then '\n' else char) :: ·)

/-- The replacement text of an entity with the given literal. -/
def entityText (literal : List Char) : Except ValueFault (List Char) :=
  entityTextWithin literal.length literal

end Xml
end MarkupLint
