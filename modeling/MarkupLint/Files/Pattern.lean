import MarkupLint.Files.PathName

/-!
# Patterns

A pattern matches whole texts.  A star stands for any characters, a question mark for one
character, and brackets enclose the characters of which one has to stand in their place, with
ranges between hyphens; an exclamation mark behind the opening bracket excludes them instead.
-/

namespace MarkupLint
namespace Files

/-- What one character has to be. -/
inductive CharTest where
  | any
  | exactly (char : Char)
  /-- One of some characters or in one of some closed ranges, or none of this. -/
  | oneOf (isExcluding : Bool) (chars : List Char) (ranges : List (Char × Char))
deriving DecidableEq, Repr, Inhabited

namespace CharTest

/-- Whether a character passes the test. -/
def holds (test : CharTest) (char : Char) : Bool :=
  match test with
  | any => true
  | exactly wanted => char == wanted
  | oneOf isExcluding chars ranges =>
    (chars.contains char || ranges.any fun range => range.1 ≤ char && char ≤ range.2) != isExcluding

/-- Cut the inside of brackets at the hyphens that make ranges.  A hyphen makes none if it is the
first or the last character, or if it comes less than two characters behind another one that does;
the pieces so far are the piece at hand and those before it, both in reverse. -/
def piecesFrom (done : List (List Char)) (piece : List Char) : List Char → List (List Char)
  | [] => (piece.reverse :: done).reverse
  | ['-'] => (('-' :: piece).reverse :: done).reverse
  | '-' :: first :: second :: rest => piecesFrom (piece.reverse :: done) [second, first] rest
  | ['-', last] => ([last] :: piece.reverse :: done).reverse
  | char :: rest => piecesFrom done (char :: piece) rest

/-- The pieces of the inside of brackets between the hyphens that make ranges. -/
def pieces : List Char → List (List Char)
  | '!' :: first :: rest => piecesFrom [] [first, '!'] rest
  | first :: rest => piecesFrom [] [first] rest
  | [] => [[]]

/-- Join the pieces around a hyphen if the range that it makes is empty. -/
def joinEmptyRanges : List (List Char) → List (List Char)
  | [] => []
  | piece :: rest =>
    match piece.getLast?, joinEmptyRanges rest with
    | some last, (first :: others) :: behind =>
      if first < last then (piece.dropLast ++ others) :: behind
      else piece :: (first :: others) :: behind
    | _, behind => piece :: behind

/-- The ranges between pieces, from the last character of one to the first of the next. -/
def rangesBetween : List (List Char) → List (Char × Char)
  | piece :: next :: rest =>
    match piece.getLast?, next.head? with
    | some last, some first => (last, first) :: rangesBetween (next :: rest)
    | _, _ => rangesBetween (next :: rest)
  | _ => []

/-- The test that the inside of brackets stands for. -/
def ofBrackets (inside : List Char) : CharTest :=
  match joinEmptyRanges (pieces inside) with
  | [] => oneOf false [] []
  | ['!'] :: [] => any
  | ('!' :: piece) :: rest =>
    oneOf true (piece ++ rest.flatten) (rangesBetween (piece :: rest))
  | parts => oneOf false parts.flatten (rangesBetween parts)

end CharTest

/-- A pattern: runs of tests with any characters between them.  There is at least one run. -/
structure Pattern where
  first : List CharTest
  others : List (List CharTest)
deriving DecidableEq, Repr, Inhabited

namespace Pattern

/-- The inside of brackets that open in front of a text, and what follows them.  A bracket closes
them unless it comes first, or next to an exclamation mark that comes first. -/
def brackets? (text : List Char) : Option (List Char × List Char) :=
  let split := fun (front behind : List Char) =>
    match behind.dropWhile (· != ']') with
    | [] => none
    | _ :: rest => some (front ++ behind.takeWhile (· != ']'), rest)
  match text with
  | '!' :: ']' :: rest => split ['!', ']'] rest
  | '!' :: rest => split ['!'] rest
  | ']' :: rest => split [']'] rest
  | _ => split [] text

/-- Add a test in front. -/
def withTest (test : CharTest) (pattern : Pattern) : Pattern :=
  { pattern with first := test :: pattern.first }

/-- Add a star in front; several stars in a row say the same as one. -/
def withStar (pattern : Pattern) : Pattern :=
  if pattern.first.isEmpty && !pattern.others.isEmpty then pattern
  else ⟨[], pattern.first :: pattern.others⟩

/-- Read a pattern, in at most the given number of rounds. -/
def readFrom : Nat → List Char → Pattern
  | 0, _ => ⟨[], []⟩
  | _ + 1, [] => ⟨[], []⟩
  | rounds + 1, char :: rest =>
    if char = '*' then (readFrom rounds rest).withStar
    else if char = '?' then (readFrom rounds rest).withTest .any
    else if char = '[' then
      match brackets? rest with
      | some (inside, behind) => (readFrom rounds behind).withTest (.ofBrackets inside)
      | none => (readFrom rounds rest).withTest (.exactly char)
    else (readFrom rounds rest).withTest (.exactly char)

/-- The pattern that a text writes. -/
def ofText (text : String) : Pattern := readFrom text.toList.length text.toList

/-- What follows the characters that pass a run of tests at the front of a text. -/
def afterRun? : List CharTest → List Char → Option (List Char)
  | [], text => some text
  | _ :: _, [] => none
  | test :: tests, char :: rest => if test.holds char then afterRun? tests rest else none

/-- What follows the first characters of a text that pass a run of tests. -/
def findRun? (tests : List CharTest) : List Char → Option (List Char)
  | [] => afterRun? tests []
  | char :: rest =>
    match afterRun? tests (char :: rest) with
    | some behind => some behind
    | none => findRun? tests rest

/-- Whether the last characters of a text pass a run of tests. -/
def endsWithRun (tests : List CharTest) (text : List Char) : Bool :=
  tests.length ≤ text.length &&
    (afterRun? tests (text.drop (text.length - tests.length))).isSome

/-- Whether runs of tests are passed one after another, the last one at the end of the text.  Each
other run is passed as early as possible. -/
def matchRuns : List (List CharTest) → List Char → Bool
  | [], text => text.isEmpty
  | [last], text => endsWithRun last text
  | tests :: rest, text =>
    match findRun? tests text with
    | some behind => matchRuns rest behind
    | none => false

/-- Whether the pattern matches a text. -/
def holds (pattern : Pattern) (text : String) : Bool :=
  match afterRun? pattern.first text.toList with
  | some behind => matchRuns pattern.others behind
  | none => false

/-- Whether a text is to be read as a pattern that may match several names. -/
def isMagic (text : String) : Bool := text.toList.any "*?[".toList.contains

end Pattern

/-- Whether one of some patterns matches a name, read from a base if it lies below it, or as it
is. -/
def isIgnored (patterns : List String) (base name : PathName) : Bool :=
  let whole := name.text
  let inner :=
    match name.relativeTo? base with
    | some parts => (PathName.mk .relative parts).text
    | none => whole
  patterns.any fun pattern =>
    (Pattern.ofText pattern).holds inner || (Pattern.ofText pattern).holds whole

end Files
end MarkupLint
