import MarkupLint.Linting.Basic
import MarkupLint.Batch.Run

/-!
# Reports in text

A linting is reported by a line with its state, followed by a line for each diagnostic.  Behind the
reports of the lintings of a batch stand the skipped files, and how many lintings ended in which state.
Styled text is enclosed by escape sequences.  Where styles are not wanted, the sequences are removed
again, wherever they come from.
-/

namespace MarkupLint
namespace Report

/-- A colour of a terminal. -/
inductive Colour where
  | red
  | green
  | yellow
  | blue
deriving DecidableEq, Repr, Inhabited

namespace Colour

/-- The number of the colour in an escape sequence. -/
def code : Colour → String
  | red => "31"
  | green => "32"
  | yellow => "33"
  | blue => "34"

end Colour

/-- The escape sequence with a number. -/
def escape (code : String) : String := "\x1b[" ++ code ++ "m"

/-- A text in a colour, and bold if asked for. -/
def styled (colour : Colour) (isBold : Bool) (text : String) : String :=
  escape colour.code ++ (if isBold then escape "1" else "") ++ text ++ escape "0"

/-- Whether a character may stand inside an escape sequence. -/
def isParameter (char : Char) : Bool := char.isDigit || char == ';' || char == '?'

/-- What follows the escape sequence at the front of a text, if there is one. -/
def afterSequence? : List Char → Option (List Char)
  | '\x1b' :: '[' :: rest =>
    match rest.dropWhile isParameter with
    | final :: behind => if final.isAlpha then some behind else none
    | [] => none
  | _ => none

/-- Remove escape sequences, in at most the given number of rounds. -/
def plainFrom : Nat → List Char → List Char
  | 0, text => text
  | _ + 1, [] => []
  | rounds + 1, char :: rest =>
    match afterSequence? (char :: rest) with
    | some behind => plainFrom rounds behind
    | none => char :: plainFrom rounds rest

/-- The text without escape sequences. -/
def plain (text : String) : String :=
  let chars := text.toList
  String.ofList (plainFrom chars.length chars)

/-! ## Lintings -/

/-- The symbol of a state and its colour. -/
def stateStyle : LintState → String × Colour
  | .running => ("…", .blue)
  | .passing => ("✓", .green)
  | .warning => ("!", .yellow)
  | .error => ("✖", .red)

/-- The colour of a severity. -/
def severityColour : Severity → Colour
  | .error => .red
  | .warn => .yellow
  | .info => .blue

/-- The line of a diagnostic; the instance is named if a rule has diagnostics of several. -/
def diagnosticLine (isStyled isNumbered : Bool) (diagnostic : Diagnostic) : String :=
  let label :=
    if isNumbered then s!"{diagnostic.rule}#{diagnostic.index}" else diagnostic.rule
  let word := diagnostic.severity.word.toUpper
  let severity :=
    if isStyled then styled (severityColour diagnostic.severity) true word else word
  let node := (diagnostic.node?.map fun node => " " ++ node).getD ""
  s!"    {label}: {severity} {diagnostic.message}{node}"

/-- The lines of a group of diagnostics. -/
def groupLines (isStyled : Bool) (diagnostics : List Diagnostic) : List String :=
  let indices := diagnostics.map (·.index)
  let isNumbered := indices.any fun index => indices.head? != some index
  diagnostics.map (diagnosticLine isStyled isNumbered)

/-- The line with the state of a linting. -/
def headerLine (isStyled : Bool) (name : String) (state : LintState) : String :=
  let style := stateStyle state
  let header := s!"{style.1} {name}: {state.word}"
  if isStyled then styled style.2 false header else header

/-- The report of a linting. -/
def lintingText (isStyled : Bool) (linting : Linting) : String :=
  String.intercalate "\n"
    (headerLine isStyled linting.name linting.state ::
      linting.diagnostics.groups.flatMap fun group => groupLines isStyled group.2)

/-! ## Summaries -/

/-- The ending of a noun that a number stands in front of. -/
def plural (count : Nat) : String := if count = 1 then "" else "s"

/-- The number of lintings in a state. -/
def countIn (state : LintState) (lintings : List Linting) : Nat :=
  lintings.countP fun linting => linting.state = state

/-- How many lintings ended in which state, and how many files were skipped. -/
def summaryText (result : Batch.Result) : String :=
  let count := result.lintings.length
  let skipped := result.skipped.length
  let linted :=
    s!"Linted {count} file{plural count}: {countIn .passing result.lintings} passing, " ++
      s!"{countIn .warning result.lintings} with warnings, " ++
      s!"{countIn .error result.lintings} with errors."
  if skipped = 0 then linted
  else s!"{linted} Skipped {skipped} unparsable file{plural skipped}."

/-- A line for each skipped file. -/
def skippedText (skipped : List SkippedFile) : String :=
  String.intercalate "\n" (skipped.map fun file => s!"? {file.path}: {file.reason}")

/-- The blocks behind the reports of the lintings. -/
def closingBlocks (result : Batch.Result) : List String :=
  if result.skipped.isEmpty then [summaryText result]
  else [skippedText result.skipped, summaryText result]

/-- The report of a batch in text. -/
def resultText (isStyled : Bool) (result : Batch.Result) : String :=
  String.intercalate "\n" (result.lintings.map (lintingText isStyled) ++ closingBlocks result)

end Report
end MarkupLint
