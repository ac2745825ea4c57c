import MarkupLint.Json.Basic
import MarkupLint.Report.Text

/-!
# Output on a console

A linting is printed as soon as it comes to its end, and a summary at the end of the batch; or
everything is printed at the end, which is always so for structured reports: those are values of the JSON
format.  The output is no terminal: styles are kept only if colours are demanded.
-/

namespace MarkupLint
namespace Report

/-- A diagnostic as a value. -/
def diagnosticValue (diagnostic : Diagnostic) : Json :=
  .object
    [("instance", .integer diagnostic.index), ("severity", .text diagnostic.severity.word),
      ("message", .text diagnostic.message),
      ("node", (diagnostic.node?.map Json.text).getD .null)]

/-- A linting as a value. -/
def lintingValue (linting : Linting) : Json :=
  let groups := linting.diagnostics.groups.map fun group =>
    (group.1, Json.array (group.2.map diagnosticValue))
  .object
    [("file", .text linting.name), ("state", .text linting.state.word),
      ("diagnostics", .object groups)]

/-- A skipped file as a value. -/
def skippedValue (file : SkippedFile) : Json :=
  .object [("file", .text file.path), ("reason", .text file.reason)]

/-- The result of a batch as a value. -/
def resultValue (result : Batch.Result) : Json :=
  .object
    [("lintings", .array (result.lintings.map lintingValue)),
      ("skipped", .array (result.skipped.map skippedValue)),
      ("exit_code", .integer result.exitCode.number)]

/-- The format of the output. -/
inductive Format where
  | text
  | json
deriving DecidableEq, Repr, Inhabited

namespace Format

/-- The word for a format. -/
def word : Format → String
  | text => "text"
  | json => "json"

/-- The format with the word. -/
def ofWord? (word : String) : Option Format :=
  [text, json].find? fun format => format.word == word

@[simp] theorem ofWord?_word (format : Format) : ofWord? format.word = some format := by
  cases format <;> decide

end Format

/-- How results are printed. -/
structure Console where
  /-- Whether everything is printed at the end. -/
  isDeferred : Bool
  format : Format
  /-- Whether colours are demanded or refused. -/
  colour? : Option Bool
deriving DecidableEq, Repr, Inhabited

namespace Console

/-- Whether texts are styled before they are printed. -/
def isStyled (console : Console) : Bool := console.colour? != some false

/-- Whether lintings are printed as soon as they come to their end. -/
def isStreaming (console : Console) : Bool := !console.isDeferred && console.format == .text

/-- A block of text as it is printed on lines of its own. -/
def printed (console : Console) (block : String) : String :=
  let line := block ++ "\n"
  if console.colour? == some true then line else plain line

/-- What is printed while lintings come to their end. -/
def streamed (console : Console) (result : Batch.Result) : String :=
  if console.isStreaming then
    String.join <| result.shown.map fun entry =>
      console.printed (lintingText console.isStyled entry.2)
  else ""

/-- What is printed at the end. -/
def final (console : Console) (result : Batch.Result) : String :=
  if console.isStreaming then String.join ((closingBlocks result).map console.printed)
  else
    match console.format with
    | .json => console.printed (resultValue result).document
    | .text => console.printed (resultText console.isStyled result)

/-- All that is printed. -/
def output (console : Console) (result : Batch.Result) : String :=
  console.streamed result ++ console.final result

end Console
end Report
end MarkupLint
