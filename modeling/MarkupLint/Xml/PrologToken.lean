import MarkupLint.Xml.Scan

/-!
# Tokens before and after the root element

Outside the root element a document holds comments, processing instructions and the declaration
of its type, whose parts are names, literals and punctuation.
-/

namespace MarkupLint
namespace Xml

/-- A token outside the root element.  Blanks are no tokens. -/
inductive PrologToken where
  /-- The declaration that may only open a document. -/
  | declaration (body : Instruction)
  /-- A comment or a processing instruction. -/
  | remark
  /-- The opening of a declaration, with its keyword. -/
  | opening (keyword : List Char)
  /-- The bracket that ends a declaration. -/
  | closing
  | name (text : List Char)
  | prefixedName (text : List Char)
  /-- A word of name characters that is no name. -/
  | word
  /-- A name with a sign of repetition behind it. -/
  | repeatedName
  /-- A keyword behind a number sign. -/
  | hashName (text : List Char)
  | literal (body : List Char)
  | parameterReference
  | percent
  | bar
  | comma
  | groupOpening
  /-- The end of a group, with its sign of repetition. -/
  | groupClosing (repetition? : Option Char)
  | subsetOpening
  | subsetClosing
  | conditionalOpening
  | conditionalClosing
  /-- The start tag of the root element. -/
  | element
deriving Repr

/-- Kinds of words by the colons in them. -/
inductive WordKind where
  | plain
  | prefixed
  | other
deriving DecidableEq, Repr

namespace WordKind

/-- The token of a word of this kind. -/
def token (kind : WordKind) (text : List Char) : PrologToken :=
  match kind with
  | plain => .name text
  | prefixed => .prefixedName text
  | other => .word

end WordKind

/-- Characters that may follow a word. -/
def endsWord (char : Char) : Bool :=
  isBlank char || char == '>' || char == ')' || char == ',' || char == '|' || char == '[' ||
    char == '%'

/-- The rest of a word, after the given characters in reverse. -/
def scanWord (kind : WordKind) (read : List Char) : List Char → Scan PrologToken
  | [] => .last (kind.token read.reverse)
  | ':' :: rest =>
    match kind with
    | .plain =>
      match rest with
      | [] => .unfinished
      | char :: after =>
        if isNameChar char then scanWord .prefixed (char :: ':' :: read) after
        else scanWord .other (':' :: read) (char :: after)
    | _ => scanWord .other (':' :: read) rest
  | char :: rest =>
    if isNameChar char then scanWord kind (char :: read) rest
    else if endsWord char then .token (kind.token read.reverse) (char :: rest)
    else if (char == '+' || char == '*' || char == '?') && kind != .other then
      .token .repeatedName rest
    else .invalid (char :: rest)

/-- A literal up to its closing quote, and what may follow it. -/
def scanLiteral (quote : Char) (read : List Char) : List Char → Scan PrologToken
  | [] => .unfinished
  | char :: rest =>
    if !isLegal char then .invalid (char :: rest)
    else if char != quote then scanLiteral quote (char :: read) rest
    else
      match rest with
      | [] => .last (.literal read.reverse)
      | next :: after =>
        if isBlank next || next == '>' || next == '%' || next == '[' then
          .token (.literal read.reverse) (next :: after)
        else
          .invalid (next :: after)

/-- A percent sign, or the reference that it begins. -/
def scanPercent : List Char → Scan PrologToken
  | [] => .unfinished
  | char :: rest =>
    if isBlank char || char == '%' then .token .percent (char :: rest)
    else
      (scanName (char :: rest)).andThen fun _ rest =>
        match rest with
        | [] => .unfinished
        | ';' :: rest => .token .parameterReference rest
        | rest => .invalid rest

/-- A keyword behind a number sign. -/
def scanHashName (text : List Char) : Scan PrologToken :=
  (scanName text).andThen fun name rest =>
    match rest with
    | [] => .last (.hashName name)
    | char :: _ =>
      if isBlank char || char == ')' || char == '>' || char == '%' || char == '|' then
        .token (.hashName name) rest
      else
        .invalid rest

/-- Letters and the underscore, which spell the keywords of declarations. -/
def isKeywordChar (char : Char) : Bool := char.isAlpha || char == '_'

/-- A declaration or comment, from behind its exclamation mark. -/
def scanDeclarationOpening : List Char → Scan PrologToken
  | [] => .unfinished
  | '-' :: rest => (scanComment rest).map fun _ => .remark
  | '[' :: rest => .token .conditionalOpening rest
  | char :: rest =>
    if isKeywordChar char then
      match rest.dropWhile isKeywordChar with
      | [] => .unfinished
      | ['%'] => .unfinished
      | '%' :: next :: after =>
        if isBlank next || next == '%' then .invalid ('%' :: next :: after)
        else .token (.opening (char :: rest.takeWhile isKeywordChar)) ('%' :: next :: after)
      | next :: after =>
        if isBlank next then
          .token (.opening (char :: rest.takeWhile isKeywordChar)) (next :: after)
        else
          .invalid (next :: after)
    else
      .invalid (char :: rest)

/-- The end of a group. -/
def scanGroupClosing : List Char → Scan PrologToken
  | [] => .last (.groupClosing none)
  | char :: rest =>
    if char == '*' || char == '?' || char == '+' then .token (.groupClosing (some char)) rest
    else if isBlank char || char == '>' || char == ',' || char == '|' || char == ')' then
      .token (.groupClosing none) (char :: rest)
    else .invalid (char :: rest)

/-- The token at the front of a text outside the root element. -/
def scanProlog : List Char → Scan PrologToken
  | [] => .empty
  | '"' :: rest => scanLiteral '"' [] rest
  | '\'' :: rest => scanLiteral '\'' [] rest
  | '<' :: rest =>
    match rest with
    | [] => .unfinished
    | '!' :: rest => scanDeclarationOpening rest
    | '?' :: rest =>
      (scanInstruction rest).map fun instruction =>
        if instruction.isDeclaration then .declaration instruction else .remark
    | char :: _ => if isNameStart char || 0x80 ≤ char.toNat then .token .element ('<' :: rest)
      else .invalid rest
  | '%' :: rest => scanPercent rest
  | ',' :: rest => .token .comma rest
  | '[' :: rest => .token .subsetOpening rest
  | [']'] => .last .subsetClosing
  | [']', ']'] => .unfinished
  | ']' :: ']' :: '>' :: rest => .token .conditionalClosing rest
  | ']' :: rest => .token .subsetClosing rest
  | '(' :: rest => .token .groupOpening rest
  | ')' :: rest => scanGroupClosing rest
  | '|' :: rest => .token .bar rest
  | '>' :: rest => .token .closing rest
  | '#' :: rest => scanHashName rest
  | char :: rest =>
    if isNameStart char then scanWord .plain [char] rest
    else if isNameChar char || char == ':' then scanWord .other [char] rest
    else .invalid (char :: rest)

end Xml
end MarkupLint
