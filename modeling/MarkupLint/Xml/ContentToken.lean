import MarkupLint.Xml.Scan

/-!
# Tokens of element content

The text inside an element is a sequence of tags, references, runs of characters, comments,
processing instructions and marked sections.
-/

namespace MarkupLint
namespace Xml

/-- An attribute as a tag spells it: its value still holds its references. -/
structure RawAttribute where
  name : List Char
  value : List Char
  /-- The text from the name on. -/
  nameAt : List Char
  /-- The text from the value on. -/
  valueAt : List Char
deriving Repr

/-- A token of element content. -/
inductive ContentToken where
  /-- A start tag; `closed` when it is the end tag of its element too. -/
  | startTag (name : List Char) (attributes : List RawAttribute) (closed : Bool)
  | endTag (name : List Char)
  | reference (reference : Reference)
  /-- Characters, with every line end read as a line feed. -/
  | text (chars : List Char)
  /-- Square brackets that end the text, and could have begun an illegal sequence. -/
  | trailingBrackets (chars : List Char)
  /-- A carriage return that ends the text, and could have been followed by a line feed. -/
  | trailingReturn
  /-- The opening of a section of literal characters. -/
  | sectionOpen
  /-- A comment or a processing instruction. -/
  | remark
  /-- The declaration that may only open a document. -/
  | declaration
deriving Repr

/-- A value up to its closing quote; references in it are checked and kept. -/
def scanQuotedValue (quote : Char) : List Char → Scan (List Char)
  | [] => .unfinished
  | char :: rest =>
    if char == quote then .token [] rest
    else if char == '<' || !isLegal char then .invalid (char :: rest)
    else
      let continued := (scanQuotedValue quote rest).map (char :: ·)
      if char == '&' then
        match scanReference rest with
        | .token _ _ => continued
        | .invalid rest => .invalid rest
        | _ => .unfinished
      else continued

/-- The end of a start tag; the value tells whether the tag closes its element. -/
def scanTagEnd : List Char → Scan Bool
  | [] => .unfinished
  | '>' :: rest => .token false rest
  | ['/'] => .unfinished
  | '/' :: '>' :: rest => .token true rest
  | '/' :: rest => .invalid rest
  | rest => .invalid rest

/-- An attribute from its name to its closing quote. -/
def scanAttribute (text : List Char) : Scan RawAttribute :=
  (scanQualifiedName text).andThen fun name afterName =>
    match skipBlanks afterName with
    | [] => .unfinished
    | '=' :: afterEquals =>
      match skipBlanks afterEquals with
      | [] => .unfinished
      | quote :: valueAt =>
        if quote == '"' || quote == '\'' then
          (scanQuotedValue quote valueAt).map fun value => ⟨name, value, text, valueAt⟩
        else
          .invalid (quote :: valueAt)
    | rest => .invalid rest

/-- The attributes of a start tag, from the name of the first one, and the end of the tag.  Each
attribute is longer than nothing, so as many rounds as the text has characters are enough. -/
def scanAttributes : Nat → List Char → Scan (List RawAttribute × Bool)
  | 0, _ => .unfinished
  | rounds + 1, text =>
    (scanAttribute text).andThen fun first rest =>
      match rest with
      | [] => .unfinished
      | char :: _ =>
        if isBlank char then
          match skipBlanks rest with
          | [] => .unfinished
          | next :: after =>
            if isNameStart next then
              (scanAttributes rounds (next :: after)).map fun found =>
                (first :: found.1, found.2)
            else
              (scanTagEnd (next :: after)).map fun closed => ([first], closed)
        else
          (scanTagEnd rest).map fun closed => ([first], closed)

/-- A start tag, from behind its opening bracket. -/
def scanStartTag (text : List Char) : Scan ContentToken :=
  (scanQualifiedName text).andThen fun name rest =>
    match rest with
    | [] => .unfinished
    | char :: _ =>
      if isBlank char then
        match skipBlanks rest with
        | [] => .unfinished
        | next :: after =>
          if isNameStart next then
            (scanAttributes (after.length + 1) (next :: after)).map fun found =>
              .startTag name found.1 found.2
          else
            (scanTagEnd (next :: after)).map fun closed => .startTag name [] closed
      else
        (scanTagEnd rest).map fun closed => .startTag name [] closed

/-- An end tag, from behind its slash; its name may hold any number of colons. -/
def scanEndTag : List Char → Scan ContentToken
  | [] => .unfinished
  | char :: rest =>
    if isNameStart char then
      let isPart := fun part => isNameChar part || part == ':'
      match skipBlanks (rest.dropWhile isPart) with
      | [] => .unfinished
      | '>' :: after => .token (.endTag (char :: rest.takeWhile isPart)) after
      | after => .invalid after
    else
      .invalid (char :: rest)

/-- A fixed sequence of characters at the front of a text. -/
def scanExactly : List Char → List Char → Scan Unit
  | [], rest => .token () rest
  | _ :: _, [] => .unfinished
  | expected :: more, char :: rest =>
    if char == expected then scanExactly more rest else .invalid (char :: rest)

/-- The opening of a section, from behind its first bracket.  Nothing is decided before six bytes
of text are there. -/
def scanSectionOpen (text : List Char) : Scan ContentToken :=
  let size := (text.take 6).foldr (fun char size => char.utf8Size + size) 0
  if size < 6 then .unfinished
  else (scanExactly ['C', 'D', 'A', 'T', 'A', '['] text).map fun _ => .sectionOpen

/-- What an opening angle bracket begins. -/
def scanMarkup : List Char → Scan ContentToken
  | '!' :: rest =>
    match rest with
    | [] => .unfinished
    | '-' :: rest => (scanComment rest).map fun _ => .remark
    | '[' :: rest => scanSectionOpen rest
    | rest => .invalid rest
  | '?' :: rest =>
    (scanInstruction rest).map fun instruction =>
      if instruction.isDeclaration then .declaration else .remark
  | '/' :: rest => scanEndTag rest
  | text => scanStartTag text

/-- Characters at the front of a text and the rest.  The run ends before markup, before illegal
characters and sequences, and before an end of the text that leaves a line end or a bracket
undecided. -/
def textRun : List Char → List Char × List Char
  | [] => ([], [])
  | '\r' :: '\n' :: rest => ('\n' :: (textRun rest).1, (textRun rest).2)
  | ['\r'] => ([], ['\r'])
  | [']'] => ([], [']'])
  | [']', ']'] => ([], [']', ']'])
  | ']' :: ']' :: '>' :: rest => ([], ']' :: ']' :: '>' :: rest)
  | char :: rest =>
    if char == '<' || char == '&' || !isLegal char then ([], char :: rest)
    else ((if char == '\r' then '\n' else char) :: (textRun rest).1, (textRun rest).2)

/-- The token at the front of element content. -/
def scanContent : List Char → Scan ContentToken
  | [] => .empty
  | '<' :: rest => scanMarkup rest
  | '&' :: rest => (scanReference rest).map .reference
  | ['\r'] => .last .trailingReturn
  | [']'] => .last (.trailingBrackets [']'])
  | [']', ']'] => .last (.trailingBrackets [']', ']'])
  | ']' :: ']' :: '>' :: rest => .invalid ('>' :: rest)
  | text@(char :: _) =>
    if isLegal char then .token (.text (textRun text).1) (textRun text).2 else .invalid text

/-- How a section of literal characters goes on. -/
inductive Section where
  /-- The section is closed: its characters, and the text after it. -/
  | closed (chars : List Char) (rest : List Char)
  /-- A character that cannot stand in it begins the rest. -/
  | invalid (rest : List Char)
  /-- It is not closed; the undecided end of the text is given. -/
  | unclosed (rest : List Char)

/-- The characters of a section up to its end, after the given characters in reverse. -/
def scanSection (read : List Char) : List Char → Section
  | [] => .unclosed []
  | ['\r'] => .unclosed ['\r']
  | [']'] => .unclosed [']']
  | [']', ']'] => .unclosed [']', ']']
  | ']' :: ']' :: '>' :: rest => .closed read.reverse rest
  | '\r' :: '\n' :: rest => scanSection ('\n' :: read) rest
  | char :: rest =>
    if isLegal char then scanSection ((if char == '\r' then '\n' else char) :: read) rest
    else .invalid (char :: rest)

end Xml
end MarkupLint
