import MarkupLint.Xml.Character

/-!
# Scanning the front of a text

A scanner looks at the front of a text and says what it finds there: a complete token and the
text after it, a token that only the end of the text completes, a character that cannot stand
where it stands, or a text that is too short to decide.  This module holds the scanners that tags
and declarations share: names, references, comments and processing instructions.
-/

namespace MarkupLint
namespace Xml

/-- What a scanner finds at the front of a text. -/
inductive Scan (α : Type) where
  /-- A complete token, and the text after it. -/
  | token (value : α) (rest : List Char)
  /-- A token completed by the end of the text, which more text could have extended. -/
  | last (value : α)
  /-- A character that cannot stand here; it begins the given rest. -/
  | invalid (rest : List Char)
  /-- The text ends inside a token. -/
  | unfinished
  /-- The text is empty. -/
  | empty
deriving Repr

namespace Scan

/-- Change the token found. -/
def map (change : α → β) : Scan α → Scan β
  | token value rest => token (change value) rest
  | last value => last (change value)
  | invalid rest => invalid rest
  | unfinished => unfinished
  | empty => empty

/-- Scan on after a complete token. -/
def andThen (scan : Scan α) (next : α → List Char → Scan β) : Scan β :=
  match scan with
  | token value rest => next value rest
  | last _ => unfinished
  | invalid rest => invalid rest
  | unfinished => unfinished
  | empty => empty

end Scan

/-- The text without the blanks at its front. -/
def skipBlanks (text : List Char) : List Char := text.dropWhile isBlank

/-- A name without a prefix. -/
def scanName : List Char → Scan (List Char)
  | [] => .unfinished
  | char :: rest =>
    if isNameStart char then
      .token (char :: rest.takeWhile isNameChar) (rest.dropWhile isNameChar)
    else
      .invalid (char :: rest)

/-- A name with at most one prefix. -/
def scanQualifiedName (text : List Char) : Scan (List Char) :=
  (scanName text).andThen fun first rest =>
    match rest with
    | ':' :: rest => (scanName rest).map fun second => first ++ ':' :: second
    | rest => .token first rest

/-- What a reference stands for. -/
inductive Reference where
  /-- The replacement text of an entity. -/
  | entity (name : List Char)
  /-- A character given by its number; nothing if no legal character has that number. -/
  | character (char : Option Char)
deriving Repr

/-- The legal character of a number. -/
def characterOfNumber? (number : Nat) : Option Char :=
  if number.isValidChar && isLegal (Char.ofNat number) then some (Char.ofNat number) else none

/-- The value of a digit in a base of at most sixteen. -/
def digitValue (char : Char) : Nat :=
  if char.isDigit then char.toNat - '0'.toNat
  else if 'a' ≤ char then char.toNat - 'a'.toNat + 10
  else char.toNat - 'A'.toNat + 10

/-- Whether the character is a digit to base sixteen. -/
def isHexDigit (char : Char) : Bool :=
  char.isDigit || ('a' ≤ char && char ≤ 'f') || ('A' ≤ char && char ≤ 'F')

/-- The number that digits spell in a base. -/
def numberOfDigits (base : Nat) (digits : List Char) : Nat :=
  digits.foldl (fun number digit => number * base + digitValue digit) 0

/-- Digits to a base and the semicolon after them. -/
def scanCharacterNumber
    (base : Nat)
    (isDigit : Char → Bool)
    (text : List Char) :
    Scan Reference :=
  match text.takeWhile isDigit, text.dropWhile isDigit with
  | _, [] => .unfinished
  | [], rest => .invalid rest
  | digits, ';' :: rest =>
    .token (.character (characterOfNumber? (numberOfDigits base digits))) rest
  | _, rest => .invalid rest

/-- A reference, from behind its ampersand to its semicolon. -/
def scanReference : List Char → Scan Reference
  | '#' :: 'x' :: rest => scanCharacterNumber 16 isHexDigit rest
  | '#' :: rest => scanCharacterNumber 10 Char.isDigit rest
  | text =>
    (scanName text).andThen fun name rest =>
      match rest with
      | [] => .unfinished
      | ';' :: rest => .token (.entity name) rest
      | rest => .invalid rest

/-- The body of a comment up to its end. -/
def scanCommentBody : List Char → Scan Unit
  | [] => .unfinished
  | ['-'] => .unfinished
  | ['-', '-'] => .unfinished
  | '-' :: '-' :: '>' :: rest => .token () rest
  | '-' :: '-' :: rest => .invalid rest
  | char :: rest => if isLegal char then scanCommentBody rest else .invalid (char :: rest)

/-- A comment, from behind its first hyphen. -/
def scanComment : List Char → Scan Unit
  | [] => .unfinished
  | '-' :: rest => scanCommentBody rest
  | rest => .invalid rest

/-- A processing instruction: its target and the text between target and end. -/
structure Instruction where
  target : List Char
  body : List Char
  /-- The text from the body on. -/
  bodyAt : List Char
deriving Repr

namespace Instruction

/-- Whether the instruction is the declaration that may open a document. -/
def isDeclaration (instruction : Instruction) : Bool :=
  instruction.target == ['x', 'm', 'l']

end Instruction

/-- Whether a target differs from the reserved one by its case alone. -/
def isMisspelledTarget (target : List Char) : Bool :=
  target.map Char.toLower == ['x', 'm', 'l'] && target != ['x', 'm', 'l']

/-- The body of a processing instruction up to its end. -/
def scanInstructionBody : List Char → Scan (List Char)
  | [] => .unfinished
  | ['?'] => .unfinished
  | '?' :: '>' :: rest => .token [] rest
  | char :: rest =>
    if isLegal char then (scanInstructionBody rest).map (char :: ·)
    else .invalid (char :: rest)

/-- A processing instruction, from behind its opening question mark. -/
def scanInstruction (text : List Char) : Scan Instruction :=
  (scanName text).andThen fun target rest =>
    match rest with
    | [] => .unfinished
    | char :: after =>
      if isBlank char then
        if isMisspelledTarget target then .invalid rest
        else (scanInstructionBody after).map fun body => ⟨target, char :: body, rest⟩
      else if char == '?' then
        if isMisspelledTarget target then .invalid rest
        else
          match after with
          | [] => .unfinished
          | '>' :: rest' => .token ⟨target, [], rest⟩ rest'
          | after => .invalid after
      else .invalid rest

end Xml
end MarkupLint
