import MarkupLint.Xml.Namespace
import MarkupLint.Xml.ContentToken
import MarkupLint.Xml.Declaration
import MarkupLint.Xml.Doctype
import MarkupLint.Xml.Wide

/-!
# Reading a document

`read` turns a text into the events of a document, or refuses it.  The namespace declarations of a start
tag come directly before the event of the tag.  A text is read in one go and then declared complete.  A
fault found in the first stage is found again in the second, and its place is measured again from where
reading last resumed: this is why the place that is reported for such a fault counts the text behind
that point twice.
-/

namespace MarkupLint
namespace Xml

/-- An event of reading a document. -/
inductive Event where
  /-- A declaration of the next start tag; an empty prefix stands for names without one. -/
  | declaration (label : String) (namespaceName : String)
  /-- A start tag with its attributes, declarations left out. -/
  | start (name : ExpandedName) (attributes : List (ExpandedName × String))
  /-- Characters between tags. -/
  | text (chars : List Char)
  /-- The end of the element that was started last. -/
  | finish
deriving DecidableEq, Repr

/-! ## Reading -/

/-- An element whose end tag is still to come. -/
structure OpenTag where
  name : List Char
  /-- The bindings outside the element. -/
  outer : Bindings
deriving Repr

/-- An entity in content whose replacement text is being read. -/
structure Frame where
  name : List Char
  text : List Char
  /-- The number of elements open where the entity was referenced. -/
  depth : Nat
deriving Repr

/-- The state of reading element content. -/
structure Reader where
  dtd : Dtd
  /-- The text of the document that is still to be read. -/
  text : List Char
  /-- The entities that are being read, the innermost one first. -/
  frames : List Frame
  tags : List OpenTag
  bindings : Bindings
  /-- The events so far, the latest first. -/
  events : List Event
  /-- The text from the outermost reference being read on. -/
  reference : List Char
  /-- The text from the point on where reading last resumed after a reference or a section. -/
  resumed : List Char
  /-- The first reference that was skipped, with the text from it on. -/
  skipped? : Option (List Char × List Char)
  /-- How many more steps inside replacement text are allowed. -/
  allowance : Nat
deriving Repr

/-- A failure together with what its place depends on. -/
structure Stop where
  failure : Failure
  resumed : List Char
  skipped? : Option (List Char × List Char)
deriving Repr

namespace Reader

/-- The text that is read next. -/
def current (reader : Reader) : List Char :=
  match reader.frames with
  | [] => reader.text
  | inner :: _ => inner.text

/-- Go on with another text in place of the current one. -/
def continueWith (reader : Reader) (rest : List Char) : Reader :=
  match reader.frames with
  | [] => { reader with text := rest }
  | inner :: outer => { reader with frames := { inner with text := rest } :: outer }

/-- Go on with another text behind a section, where reading of the document resumes. -/
def resumeWith (reader : Reader) (rest : List Char) : Reader :=
  if reader.frames.isEmpty then { reader with text := rest, resumed := rest }
  else reader.continueWith rest

/-- Record an event. -/
def emit (reader : Reader) (event : Event) : Reader :=
  { reader with events := event :: reader.events }

/-- Record characters, if there are any. -/
def emitText (reader : Reader) (chars : List Char) : Reader :=
  if chars.isEmpty then reader else reader.emit (.text chars)

/-- Stop at a text.  Inside replacement text the place is that of the outermost reference. -/
def stop (reader : Reader) (fault : Fault) (site : List Char) (isFinal : Bool) : Except Stop α :=
  if reader.frames.isEmpty then
    .error ⟨⟨fault, site, isFinal⟩, reader.resumed, reader.skipped?⟩
  else
    .error ⟨⟨fault, reader.reference, false⟩, reader.resumed, reader.skipped?⟩

/-- Stop because of a fault in a tag that begins at a text. -/
def stopInTag (reader : Reader) (site : List Char) (fault : Fault) : Except Stop α :=
  reader.stop fault site false

/-- Bind a prefix and record the declaration. -/
def declare (reader : Reader) (site : List Char) (label name : List Char) : Except Stop Reader :=
  match reader.bindings.bind label name with
  | .error fault => reader.stopInTag site fault
  | .ok bindings =>
    .ok ({ reader with bindings := bindings }.emit
      (.declaration (String.ofList label) (String.ofList name)))

/-- Read the attributes that a tag spells: declarations take effect, the other attributes are
collected with their values.  A name occurs at most once. -/
def spelledAttributes
    (site element : List Char) :
    List RawAttribute → List (List Char) → Reader →
      Except Stop (Reader × List (List Char × List Char))
  | [], _, reader => .ok (reader, [])
  | spelled :: rest, seen, reader => do
    if seen.contains spelled.name then
      reader.stop .duplicateAttribute spelled.nameAt false
    else
      let isText := reader.dtd.isTextAttribute element spelled.name
      let busy := reader.frames.map (·.name)
      match attributeValue reader.dtd busy isText reader.allowance spelled.value with
      | .error cause =>
        let dropped := fun rest : List Char => spelled.value.length - rest.length
        reader.stop cause.fault
          ((cause.at?.map fun rest => spelled.valueAt.drop (dropped rest)).getD site) false
      | .ok (value, allowance) =>
        let reader := { reader with allowance := allowance }
        match declaredPrefix? spelled.name with
        | some label =>
          let reader ← reader.declare site label value
          spelledAttributes site element rest (spelled.name :: seen) reader
        | none =>
          let (reader, others) ←
            spelledAttributes site element rest (spelled.name :: seen) reader
          return (reader, (spelled.name, value) :: others)

/-- Add the declared attributes that a tag leaves out. -/
def defaultedAttributes
    (site : List Char)
    (spelled : List (List Char)) :
    List AttributeDeclaration → Reader →
      Except Stop (Reader × List (List Char × List Char))
  | [], reader => .ok (reader, [])
  | declared :: rest, reader => do
    match declared.value? with
    | none => defaultedAttributes site spelled rest reader
    | some value =>
      if spelled.contains declared.name then defaultedAttributes site spelled rest reader
      else
        match declaredPrefix? declared.name with
        | some label =>
          let reader ← reader.declare site label value
          defaultedAttributes site spelled rest reader
        | none =>
          let (reader, others) ← defaultedAttributes site spelled rest reader
          return (reader, (declared.name, value) :: others)

/-- Expand the names of attributes; no two of them may be the same prefixed name. -/
def expandedAttributes
    (bindings : Bindings) :
    List (List Char × List Char) → List ExpandedName →
      Except Fault (List (ExpandedName × String))
  | [], _ => .ok []
  | (name, value) :: rest, seen => do
    let expanded ← bindings.attributeName name
    if expanded.space?.isSome && seen.contains expanded then throw .duplicateAttribute
    let others ← expandedAttributes bindings rest (expanded :: seen)
    return (expanded, String.ofList value) :: others

/-- Read a start tag that begins at a text. -/
def startTag
    (reader : Reader)
    (site name : List Char)
    (attributes : List RawAttribute) :
    Except Stop Reader := do
  let outer := reader.bindings
  let (reader, spelled) ← spelledAttributes site name attributes [] reader
  let (reader, defaulted) ←
    defaultedAttributes site (attributes.map (·.name)) (reader.dtd.attributesOf name) reader
  match expandedAttributes reader.bindings (spelled ++ defaulted) [] with
  | .error fault => reader.stopInTag site fault
  | .ok expanded =>
    match reader.bindings.elementName name with
    | .error fault => reader.stopInTag site fault
    | .ok elementName =>
      return { reader.emit (.start elementName expanded) with
        tags := ⟨name, outer⟩ :: reader.tags }

/-- Close the element that was opened last. -/
def closeElement (reader : Reader) : Reader :=
  match reader.tags with
  | [] => reader
  | tag :: tags => { reader.emit .finish with tags := tags, bindings := tag.outer }

/-- Read an end tag that begins at a text.  It must name the element opened last, and that element
must have been opened in the same text. -/
def endTag (reader : Reader) (site name : List Char) : Except Stop Reader :=
  let depth :=
    match reader.frames with
    | [] => 0
    | inner :: _ => inner.depth
  match reader.tags with
  | [] => reader.stop .asynchronousEntity site false
  | tag :: _ =>
    if reader.tags.length == depth then reader.stop .asynchronousEntity site false
    else if tag.name != name then reader.stop .mismatchedTag (site.drop 2) false
    else .ok reader.closeElement

/-- Enter an entity that is referenced at a text.  Replacement text that ends with the reference
must by then have closed the elements that it opened. -/
def enterEntity
    (reader : Reader)
    (site name rest : List Char) :
    Except Stop Reader :=
  let after := reader.continueWith rest
  let skip := fun _ : Unit =>
    { after with
      skipped? := reader.skipped?.or
        (some (if reader.frames.isEmpty then site else reader.reference, '&' :: name ++ [';'])) }
  match reader.dtd.entity? name with
  | none =>
    if reader.dtd.requiresDeclaration then reader.stop .undefinedEntity site false
    else .ok (skip ())
  | some entity =>
    if reader.frames.any (·.name == name) then reader.stop .recursiveEntity site false
    else
      match entity with
      | .unparsed => reader.stop .unparsedEntity site false
      | .external => .ok (skip ())
      | .internal text =>
        let frame : Frame := ⟨name, text, reader.tags.length⟩
        match reader.frames with
        | [] => .ok { after with frames := [frame], reference := site, resumed := rest }
        | inner :: _ =>
          if rest.isEmpty && reader.tags.length != inner.depth then
            reader.stop .asynchronousEntity site false
          else .ok { after with frames := frame :: after.frames }

/-- The end of the current text.  The document must not end inside its root element, and
replacement text must close the elements that it opens. -/
def endOfText (reader : Reader) (site : List Char) : Except Stop Reader :=
  match reader.frames with
  | [] => reader.stop .noElement site true
  | inner :: outer =>
    if reader.tags.length == inner.depth then .ok { reader with frames := outer }
    else reader.stop .asynchronousEntity site false

/-- Read one token of element content. -/
def step (reader : Reader) : Except Stop Reader :=
  let site := reader.current
  match scanContent site with
  | .empty => reader.endOfText site
  | .invalid rest => reader.stop .invalidToken rest false
  | .unfinished => reader.stop .unclosedToken site true
  | .last .trailingReturn => (reader.emitText ['\n']).endOfText site
  | .last (.trailingBrackets chars) => (reader.emitText chars).endOfText []
  | .last _ => reader.stop .unclosedToken site true
  | .token value rest =>
    let after := reader.continueWith rest
    match value with
    | .startTag name attributes closed => do
      let opened ← reader.startTag site name attributes
      let opened := opened.continueWith rest
      return if closed then opened.closeElement else opened
    | .endTag name => (reader.endTag site name).map fun closed => closed.continueWith rest
    | .reference (.character none) => reader.stop .badCharacterNumber site false
    | .reference (.character (some char)) => .ok (after.emitText [char])
    | .reference (.entity name) =>
      match predefinedEntity? name with
      | some char => .ok (after.emitText [char])
      | none => reader.enterEntity site name rest
    | .text chars => .ok (after.emitText chars)
    | .sectionOpen =>
      match scanSection [] rest with
      | .closed chars rest => .ok ((reader.resumeWith rest).emitText chars)
      | .invalid rest => reader.stop .invalidToken rest false
      | .unclosed rest => reader.stop .unclosedSection rest true
    | .declaration => reader.stop .misplacedDeclaration site false
    | _ => .ok after

/-- Read what follows the root element: comments and processing instructions.  Each round reads at
least one character. -/
def epilog : Nat → Reader → Except Stop Reader
  | 0, reader => .ok reader
  | rounds + 1, reader =>
    let text := skipBlanks reader.text
    match scanProlog text with
    | .empty => .ok reader
    | .token .remark rest => epilog rounds { reader with text := rest }
    | .invalid rest => reader.stop .invalidToken rest false
    | .unfinished => reader.stop .unclosedToken text true
    | _ => reader.stop .junkAfterRoot text false

/-- Read element content until the root element is closed, in at most the given number of steps,
and what follows it. -/
def content : Nat → Reader → Except Stop Reader
  | 0, reader => reader.stop .excessiveExpansion reader.text false
  | steps + 1, reader => do
    let isInner := !reader.frames.isEmpty
    if isInner && reader.allowance == 0 then reader.stop .excessiveExpansion reader.text false
    else
      let next ← reader.step
      let next := if isInner then { next with allowance := next.allowance - 1 } else next
      if next.tags.isEmpty then epilog (next.text.length + 1) next
      else content steps next

end Reader

/-- Read what may stand before the root element, up to its start tag. -/
def prologItems (isTyped : Bool) : Nat → Declaring Unit
  | 0 => return
  | rounds + 1 => do
    let found ← Declaring.next
    match found.1 with
    | .remark => prologItems isTyped rounds
    | .element => modify fun prolog => { prolog with text := found.2 }
    | .opening keyword =>
      if keyword == "DOCTYPE".toList && !isTyped then
        Declaring.doctype
        prologItems true rounds
      else Declaring.unexpected found
    | _ => Declaring.unexpected found

/-- Read the opening declaration, if the text begins with one. -/
def openingDeclaration : Declaring Unit := do
  let text := (← get).text
  match scanProlog text with
  | .token (.declaration instruction) rest =>
    match declaredStandalone instruction.body with
    | .error fault =>
      Declaring.fail .malformedDeclaration
        (instruction.bodyAt.drop (instruction.body.length - fault.length))
    | .ok isStandalone =>
      modify fun prolog =>
        { prolog with text := rest, dtd := { prolog.dtd with isStandalone := isStandalone } }
  | _ => return

/-- Read everything before the root element. -/
def prolog : Declaring Unit := do
  openingDeclaration
  prologItems false ((← get).text.length + 1)

/-- The place that is reported for a stop in a text.  A failure that only the end shows is placed
once.  Another one is placed when it is found, unless a skipped reference has been placed before,
and then placed again from where reading last resumed, if it lies behind that point. -/
def Stop.place (stop : Stop) (source : List Char) : Place :=
  let upTo := fun rest : List Char => source.take (source.length - rest.length)
  if stop.failure.isFinal then Place.start.advance (upTo stop.failure.site)
  else
    let first := Place.start.advance
      (upTo ((stop.skipped?.map (·.1)).getD stop.failure.site))
    let behind := stop.resumed.length - stop.failure.site.length
    first.advance (stop.resumed.take behind)

/-- At most one hundred bytes of a text; a character cut in two becomes a replacement character. -/
def cutBytes (limit : Nat) : List Char → List Char
  | [] => []
  | char :: rest =>
    if char.utf8Size ≤ limit then char :: cutBytes (limit - char.utf8Size) rest
    else if limit == 0 then [] else ['\ufffd']

/-- How many steps inside replacement text are allowed for a text of the given length: one hundred
for each character, and eight million in any case. -/
def expansionAllowance (length : Nat) : Nat := max 8388608 (100 * length)

/-- The events of the document in a text without byte order mark. -/
def readUnmarked (source text : List Char) : Except Stop (List Event) := do
  match prolog.run ⟨text, false, Dtd.none⟩ with
  | .error failure => .error ⟨failure, source, none⟩
  | .ok ((), prolog) =>
    let allowance := expansionAllowance source.length
    let reader : Reader :=
      ⟨prolog.dtd, prolog.text, [], [], [], [], source, source, none, allowance⟩
    let first ← reader.step
    let last ←
      if first.tags.isEmpty then first.epilog (first.text.length + 1)
      else first.content (2 * (allowance + source.length))
    match last.skipped? with
    | some (site, reference) =>
      .error ⟨⟨.skippedEntity (String.ofList (cutBytes 100 reference)), site, true⟩, source, none⟩
    | none => .ok last.events.reverse

/-- The events of the document in a text that is not in units of two bytes.  A byte order mark at
its front is skipped. -/
def readNarrow (source : List Char) : Except Refusal (List Event) :=
  let text :=
    match source with
    | '\ufeff' :: rest => rest
    | _ => source
  match readUnmarked source text with
  | .ok events => .ok events
  | .error stop => .error ⟨stop.failure.fault, stop.place source⟩

/-- The events of the document in a text in units of two bytes.  A byte that is left over counts as
the beginning of something where the document could end. -/
def readWide (wide : WideText) : Except Refusal (List Event) :=
  let unclosed := ⟨.unclosedToken, Place.start.advance wide.chars⟩
  match readUnmarked wide.chars wide.chars with
  | .ok events => if wide.hasRemnant then .error unclosed else .ok events
  | .error stop =>
    if wide.hasRemnant && stop.failure.fault = .noElement then .error unclosed
    else .error ⟨stop.failure.fault, stop.place wide.chars⟩

/-- The events of the document in a text. -/
def read (source : List Char) : Except Refusal (List Event) :=
  match WideText.ofChars? source with
  | some wide => readWide wide
  | none => readNarrow source

end Xml
end MarkupLint
