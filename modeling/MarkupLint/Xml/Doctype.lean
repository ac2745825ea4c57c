import MarkupLint.Xml.Dtd
import MarkupLint.Xml.PrologToken

/-!
# Declarations of the document type

A document type declaration names the root element, may point to declarations kept elsewhere, and
may hold declarations of entities, attributes, elements and notations.  The declarations kept
elsewhere are not read.
-/

namespace MarkupLint
namespace Xml

/-- A cause with the text from the character at fault on.  A final failure is one that only the end
of the document shows. -/
structure Failure where
  fault : Fault
  site : List Char
  isFinal : Bool
deriving Repr

/-- The state of reading what stands before the root element. -/
structure Prolog where
  text : List Char
  /-- Whether the token read last was completed by the end of the document. -/
  isFinal : Bool
  dtd : Dtd
deriving Repr

/-- Reading what stands before the root element. -/
abbrev Declaring := StateT Prolog (Except Failure)

namespace Declaring

/-- The next token, with the text from it on. -/
def next : Declaring (PrologToken × List Char) := do
  let text := skipBlanks (← get).text
  match scanProlog text with
  | .token value rest =>
    modify fun prolog => { prolog with text := rest, isFinal := false }
    return (value, text)
  | .last value =>
    modify fun prolog => { prolog with text := [], isFinal := true }
    return (value, text)
  | .invalid rest => throw ⟨.invalidToken, rest, false⟩
  | .unfinished => throw ⟨.unclosedToken, text, true⟩
  | .empty => throw ⟨.noElement, [], true⟩

/-- Fail at a token. -/
def fail (fault : Fault) (text : List Char) : Declaring α := do
  throw ⟨fault, text, (← get).isFinal⟩

/-- Fail because a token cannot stand where it stands. -/
def unexpected (found : PrologToken × List Char) : Declaring α :=
  match found.1 with
  | .parameterReference => fail .parameterEntityInDeclaration found.2
  | .declaration _ => fail .misplacedDeclaration found.2
  | _ => fail .unexpectedToken found.2

/-- Fail because of a fault in the literal that the given text begins with. -/
def failInLiteral (literal : List Char) (text : List Char) (cause : ValueFault) : Declaring α :=
  match cause.at? with
  | none => fail cause.fault text
  | some rest => fail cause.fault (text.drop (literal.length - rest.length + 1))

/-- The end of a declaration. -/
def close : Declaring Unit := do
  match ← next with
  | (.closing, _) => return
  | found => unexpected found

/-- A literal with the text from it on. -/
def literal : Declaring (List Char × List Char) := do
  match ← next with
  | (.literal body, text) => return (body, text)
  | found => unexpected found

/-- Characters that the public identifier of external text may hold. -/
def isPublicChar (char : Char) : Bool :=
  char.isAlphanum || " \r\n-'()+,./:=?;!*#@$_%".toList.contains char

/-- The literal of a public identifier. -/
def publicLiteral : Declaring Unit := do
  let (body, text) ← literal
  match body.dropWhile isPublicChar with
  | [] => return
  | rest => fail .illegalPublicIdentifier (text.drop (body.length - rest.length + 1))

/-- A name without a prefix. -/
def plainName : Declaring (List Char) := do
  match ← next with
  | (.name text, _) => return text
  | found => unexpected found

/-- A name with or without a prefix. -/
def anyName : Declaring (List Char) := do
  match ← next with
  | (.name text, _) => return text
  | (.prefixedName text, _) => return text
  | found => unexpected found

/-- Where external text is kept, from the keyword on. -/
def externalIdentifier (found : PrologToken × List Char) : Declaring Unit := do
  match found.1 with
  | .name text =>
    if text == "SYSTEM".toList then discard literal
    else if text == "PUBLIC".toList then
      publicLiteral
      discard literal
    else unexpected found
  | _ => unexpected found

/-- Change the declarations, provided that they still count. -/
def declare (change : Dtd → Dtd) : Declaring Unit := do
  modify fun prolog =>
    if prolog.dtd.isCounting then { prolog with dtd := change prolog.dtd } else prolog

/-- The replacement text that an entity declaration gives. -/
def replacementText (body text : List Char) : Declaring (List Char) := do
  if (← get).dtd.isCounting then
    match entityText body with
    | .ok value => return value
    | .error cause => failInLiteral body text cause
  else
    return []

/-- The declaration of a parameter entity, from behind its percent sign. -/
def parameterEntity : Declaring Unit := do
  discard plainName
  match ← next with
  | (.literal body, text) => discard (replacementText body text)
  | found => externalIdentifier found
  close

/-- The declaration of a general entity, from behind its name. -/
def generalEntity (name : List Char) : Declaring Unit := do
  let declareAs := fun entity : Entity =>
    declare fun dtd =>
      if (predefinedEntity? name).isSome then dtd else dtd.declareEntity name entity
  match ← next with
  | (.literal body, text) =>
    let value ← replacementText body text
    declareAs (.internal value)
    close
  | found =>
    externalIdentifier found
    match ← next with
    | (.closing, _) => declareAs .external
    | (.name text, site) =>
      if text == "NDATA".toList then
        discard plainName
        declareAs .unparsed
        close
      else unexpected (.name text, site)
    | found => unexpected found

/-- An entity declaration, from behind its keyword. -/
def entity : Declaring Unit := do
  match ← next with
  | (.percent, _) => parameterEntity
  | (.name name, _) => generalEntity name
  | found => unexpected found

/-- A notation declaration, from behind its keyword. -/
def notationDeclaration : Declaring Unit := do
  discard plainName
  match ← next with
  | (.name text, site) =>
    if text == "SYSTEM".toList then
      discard literal
      close
    else if text == "PUBLIC".toList then
      publicLiteral
      match ← next with
      | (.closing, _) => return
      | (.literal _, _) => close
      | found => unexpected found
    else unexpected (.name text, site)
  | found => unexpected found

/-- The words of an enumeration, from behind its opening, with the given reader of one word. -/
def enumeration (word : Declaring Unit) : Nat → Declaring Unit
  | 0 => return
  | rounds + 1 => do
    word
    match ← next with
    | (.groupClosing none, _) => return
    | (.bar, _) => enumeration word rounds
    | found => unexpected found

/-- A word of an enumeration of values. -/
def enumeratedWord : Declaring Unit := do
  match ← next with
  | (.word, _) | (.name _, _) | (.prefixedName _, _) => return
  | found => unexpected found

/-- The type of an attribute: whether its value is plain text, and whether it identifies. -/
def attributeType : Declaring (Bool × Bool) := do
  match ← next with
  | (.groupOpening, _) =>
    enumeration enumeratedWord ((← get).text.length + 1)
    return (false, false)
  | (.name text, site) =>
    match String.ofList text with
    | "CDATA" => return (true, false)
    | "ID" => return (false, true)
    | "IDREF" | "IDREFS" | "ENTITY" | "ENTITIES" | "NMTOKEN" | "NMTOKENS" => return (false, false)
    | "NOTATION" =>
      match ← next with
      | (.groupOpening, _) =>
        enumeration (discard plainName) ((← get).text.length + 1)
        return (false, false)
      | found => unexpected found
    | _ => unexpected (.name text, site)
  | found => unexpected found

/-- The declared value of an attribute with the given literal. -/
def defaultValue (isText : Bool) (body text : List Char) : Declaring (List Char) := do
  let dtd := (← get).dtd
  if dtd.isCounting then
    match attributeValue dtd [] isText 8388608 body with
    | .ok (value, _) => return value
    | .error cause => failInLiteral body text cause
  else
    return []

/-- What an attribute declaration says of tags that leave the attribute out. -/
def attributeDefault (element name : List Char) (isText isIdentifier : Bool) : Declaring Unit := do
  let declareDefault := fun body text => do
    let value ← defaultValue isText body text
    declare fun dtd => dtd.declareAttribute ⟨element, name, isText, some value⟩ false
  match ← next with
  | (.literal body, text) => declareDefault body text
  | (.hashName word, site) =>
    if word == "IMPLIED".toList || word == "REQUIRED".toList then
      declare fun dtd => dtd.declareAttribute ⟨element, name, isText, none⟩ isIdentifier
    else if word == "FIXED".toList then
      let (body, text) ← literal
      declareDefault body text
    else unexpected (.hashName word, site)
  | found => unexpected found

/-- The attributes of an attribute list, up to its end. -/
def attributeList (element : List Char) : Nat → Declaring Unit
  | 0 => return
  | rounds + 1 => do
    let declareNamed := fun name => do
      let (isText, isIdentifier) ← attributeType
      attributeDefault element name isText isIdentifier
    match ← next with
    | (.closing, _) => return
    | (.name name, _) =>
      declareNamed name
      attributeList element rounds
    | (.prefixedName name, _) =>
      declareNamed name
      attributeList element rounds
    | found => unexpected found

/-- The rest of a content model, given the separators of the open groups, innermost first, and
whether an item is due.  A group has one kind of separator. -/
def contentModel (separators : List (Option Char)) (isItemDue : Bool) : Nat → Declaring Unit
  | 0 => return
  | rounds + 1 => do
    let found ← next
    let separate := fun separator => do
      match separators with
      | [] => unexpected found
      | some other :: outer =>
        if other == separator then contentModel (some other :: outer) true rounds
        else fail .unexpectedToken found.2
      | none :: outer => contentModel (some separator :: outer) true rounds
    if isItemDue then
      match found.1 with
      | .groupOpening => contentModel (none :: separators) true rounds
      | .name _ | .prefixedName _ | .repeatedName => contentModel separators false rounds
      | _ => unexpected found
    else
      match found.1 with
      | .comma => separate ','
      | .bar => separate '|'
      | .groupClosing _ =>
        match separators.tail with
        | [] => return
        | outer => contentModel outer false rounds
      | _ => unexpected found

/-- The names of a model of mixed content, from behind the first separator. -/
def mixedContent : Nat → Declaring Unit
  | 0 => return
  | rounds + 1 => do
    discard anyName
    match ← next with
    | (.groupClosing (some '*'), _) => return
    | (.bar, _) => mixedContent rounds
    | found => unexpected found

/-- What follows the opening of the outermost group of a content model. -/
def contentGroup : Declaring Unit := do
  let rounds := (← get).text.length + 1
  let found ← next
  match found.1 with
  | .hashName word =>
    if word == "PCDATA".toList then
      match ← next with
      | (.groupClosing none, _) => return
      | (.groupClosing (some '*'), _) => return
      | (.bar, _) => mixedContent rounds
      | found => unexpected found
    else unexpected found
  | .groupOpening => contentModel [none, none] true rounds
  | .name _ | .prefixedName _ | .repeatedName => contentModel [none] false rounds
  | _ => unexpected found

/-- An element declaration, from behind its keyword. -/
def element : Declaring Unit := do
  discard anyName
  match ← next with
  | (.groupOpening, _) => contentGroup
  | (.name word, site) =>
    if word != "EMPTY".toList && word != "ANY".toList then unexpected (.name word, site)
  | found => unexpected found
  close

/-- The declarations inside the document type declaration, up to its closing bracket. -/
def subset : Nat → Declaring Unit
  | 0 => return
  | rounds + 1 => do
    match ← next with
    | (.subsetClosing, _) => return
    | (.remark, _) => subset rounds
    | (.parameterReference, _) =>
      modify fun prolog => { prolog with dtd := prolog.dtd.skipDeclarations }
      subset rounds
    | (.opening keyword, text) =>
      match String.ofList keyword with
      | "ENTITY" => entity
      | "ATTLIST" => do
        let name ← anyName
        attributeList name ((← get).text.length + 1)
      | "ELEMENT" => element
      | "NOTATION" => notationDeclaration
      | _ => unexpected (.opening keyword, text)
      subset rounds
    | found => unexpected found

/-- The internal declarations, from behind their opening bracket, and the end of the whole. -/
def subsetAndClose : Declaring Unit := do
  subset ((← get).text.length + 1)
  close

/-- The document type declaration, from behind its keyword. -/
def doctype : Declaring Unit := do
  discard anyName
  match ← next with
  | (.subsetOpening, _) => subsetAndClose
  | (.closing, _) => return
  | found =>
    externalIdentifier found
    modify fun prolog => { prolog with dtd := { prolog.dtd with hasUnread := true } }
    match ← next with
    | (.subsetOpening, _) => subsetAndClose
    | (.closing, _) => return
    | found => unexpected found

end Declaring
end Xml
end MarkupLint
