import MarkupLint.CommandLine.Run
import MarkupLint.Proofs.Report.Block

/-!
# Colours add nothing but escape sequences

Stripped of escape sequences, a report in colours is the report without them, whatever is reported.  An
escape sequence that a colour adds stands in front of a character with which no other one goes on, and
it begins with one itself; so it neither completes what looks like an escape sequence in a reported text
nor is cut by one.
-/

namespace MarkupLint
namespace Report

/-- A numbered escape sequence at the front of a text is removed. -/
theorem plain_escape_append
    {code : String}
    (isNumber : code.toList.all isParameter = true)
    (text : String) :
    plain (escape code ++ text) = plain text := by
  have spelled : (escape code ++ text).toList =
      '\x1b' :: '[' :: (code.toList ++ 'm' :: text.toList) := by
    simp [escape, String.toList_append]
  have dropped : (code.toList ++ 'm' :: text.toList).dropWhile isParameter =
      'm' :: text.toList := by
    rw [List.dropWhile_append_of_pos (List.all_eq_true.mp isNumber)]
    rfl
  have found : afterSequence? ('\x1b' :: '[' :: (code.toList ++ 'm' :: text.toList)) =
      some text.toList := by
    rw [afterSequence?, dropped]
    rfl
  rw [← String.toList_inj]
  simp only [toList_plain, spelled, List.length_cons, plainFrom, found]
  refine plainFrom_eq_of_length_le ?_ le_rfl
  simp only [List.length_append, List.length_cons]
  omega

/-- Nothing goes on in an escape sequence that begins. -/
theorem plain_append_escape (text code behind : String) :
    plain (text ++ (escape code ++ behind)) = plain text ++ plain (escape code ++ behind) := by
  refine plain_append ?_
  simp only [escape, String.toList_append]
  rintro char ⟨⟩
  decide

theorem isParameter_code (colour : Colour) : colour.code.toList.all isParameter = true := by
  cases colour <;> decide

/-- A styled text is stripped to what the text is stripped to. -/
theorem plain_styled_append (colour : Colour) (isBold : Bool) (text behind : String) :
    plain (styled colour isBold text ++ behind) = plain text ++ plain behind := by
  have ended : plain (text ++ (escape "0" ++ behind)) = plain text ++ plain behind := by
    rw [plain_append_escape, plain_escape_append (by decide)]
  have coloured := isParameter_code colour
  cases isBold with
  | true =>
    simp only [styled, if_true, String.append_assoc]
    rw [plain_escape_append coloured, plain_escape_append (by decide), ended]
  | false =>
    simp only [styled, Bool.false_eq_true, if_false, String.append_assoc, String.empty_append]
    rw [plain_escape_append coloured, ended]

/-- A blank in front of a text is no part of an escape sequence. -/
theorem plain_append_blank (first second : String) :
    plain (first ++ (" " ++ second)) = plain first ++ (" " ++ plain second) := by
  have barred : ∀ char ∈ (" " ++ second).toList.head?, Bars char := by
    rw [String.toList_append]
    rintro char ⟨⟩
    decide
  rw [plain_append barred, show " " = String.singleton ' ' from rfl,
    plain_singleton_append (by decide)]

/-- A word between blanks may be styled. -/
theorem plain_styled_word (colour : Colour) (isBold : Bool) (before word behind : String) :
    plain (before ++ (" " ++ (styled colour isBold word ++ (" " ++ behind)))) =
      plain (before ++ (" " ++ (word ++ (" " ++ behind)))) := by
  have led : plain (" " ++ behind) = " " ++ plain behind := plain_append_blank "" behind
  rw [plain_append_blank before, plain_append_blank before, plain_styled_append,
    plain_append_blank word, led]

/-- The line of a diagnostic is stripped to the same text in colours and without them. -/
theorem plain_diagnosticLine (isNumbered : Bool) (diagnostic : Diagnostic) :
    plain (diagnosticLine true isNumbered diagnostic) =
      plain (diagnosticLine false isNumbered diagnostic) := by
  have line_eq : ∀ label severity message node : String,
      s!"    {label}: {severity} {message}{node}" =
        "    " ++ label ++ ":" ++ (" " ++ (severity ++ (" " ++ (message ++ node)))) := by
    intro label severity message node
    have separator : ": " = ":" ++ " " := rfl
    simp only [toString, separator, String.append_assoc]
  simp only [diagnosticLine, line_eq, if_true, Bool.false_eq_true, if_false]
  exact plain_styled_word _ _ _ _ _

theorem plain_headerLine (name : String) (state : LintState) :
    plain (headerLine true name state) = plain (headerLine false name state) := by
  have styled_eq := fun text => plain_styled_append (stateStyle state).2 false text ""
  simp only [String.append_empty] at styled_eq
  simp only [headerLine, if_true, Bool.false_eq_true, if_false]
  rw [styled_eq]
  exact String.append_empty

/-- Lines that are stripped to the same texts make up reports that are stripped to the same text. -/
theorem plain_intercalate_congr
    {first second : List String}
    (same : first.map plain = second.map plain) :
    plain (String.intercalate "\n" first) = plain (String.intercalate "\n" second) := by
  suffices lines : ∀ lines : List String, plain (String.intercalate "\n" lines) =
      String.intercalate "\n" (lines.map plain) by
    rw [lines, lines, same]
  intro lines
  induction lines with
  | nil => rfl
  | cons line rest ih =>
    by_cases last : rest = []
    · simp [last]
    · rw [String.intercalate_cons_of_ne_nil last, plain_append_newline, ih, List.map_cons,
        String.intercalate_cons_of_ne_nil (by simpa using last)]

theorem plain_lintingText (linting : Linting) :
    plain (lintingText true linting) = plain (lintingText false linting) := by
  have lines_eq : ∀ diagnostics, (groupLines true diagnostics).map plain =
      (groupLines false diagnostics).map plain := by
    intro diagnostics
    simp only [groupLines, List.map_map, Function.comp_def, plain_diagnosticLine]
  refine plain_intercalate_congr ?_
  simp only [List.map_cons, List.map_flatMap, plain_headerLine, lines_eq]

namespace Console

variable (isDeferred : Bool) (format : Format)

/-- Without colours, texts that are stripped to the same text are printed alike. -/
theorem printed_congr
    {first second : String}
    (same : plain first = plain second) :
    (⟨isDeferred, format, some false⟩ : Console).printed first =
      (⟨isDeferred, format, some false⟩ : Console).printed second := by
  rw [printed_eq, printed_eq]
  exact congrArg (· ++ "\n") same

/-- Where the output is no terminal, it is the same whether colours are refused or left open. -/
theorem output_uncoloured (result : Batch.Result) :
    (⟨isDeferred, format, none⟩ : Console).output result =
      (⟨isDeferred, format, some false⟩ : Console).output result := by
  have left_open : (⟨isDeferred, format, none⟩ : Console).isStyled = true := rfl
  have refused : (⟨isDeferred, format, some false⟩ : Console).isStyled = false := rfl
  have stripped : (⟨isDeferred, format, none⟩ : Console).printed =
      (⟨isDeferred, format, some false⟩ : Console).printed := rfl
  have lintings_eq := fun linting => printed_congr isDeferred format (plain_lintingText linting)
  have whole : plain (resultText true result) = plain (resultText false result) := by
    refine plain_intercalate_congr ?_
    simp only [List.map_append, List.map_map, Function.comp_def, plain_lintingText]
  simp only [output, streamed, final, isStreaming, left_open, refused, stripped, lintings_eq,
    printed_congr isDeferred format whole]

end Console
end Report

namespace CommandLine

open Report

/-- A request that says the following about colours. -/
def LintRequest.withColour (request : LintRequest) (colour? : Option Bool) : LintRequest :=
  { request with console := { request.console with colour? := colour? } }

/-- Colours add nothing but escape sequences to the report of a linting.  So, as long as the output is no
terminal, all that the program does is the same whether colours are refused or left open. -/
theorem colours_stripped :
    (∀ linting, plain (lintingText true linting) = plain (lintingText false linting)) ∧
      (∀ (isDeferred : Bool) (format : Format) (result : Batch.Result),
        (⟨isDeferred, format, none⟩ : Console).output result =
          (⟨isDeferred, format, some false⟩ : Console).output result) ∧
      ∀ (request : LintRequest) (host : Files.Host) (directory : Files.PathName)
          (precedence : Precedence Batch.Turn),
        (request.withColour none).execute host directory precedence =
          (request.withColour (some false)).execute host directory precedence := by
  refine ⟨plain_lintingText, Console.output_uncoloured, fun request host directory precedence => ?_⟩
  have files_eq : ∀ plan log files,
      (request.withColour none).lintFiles host plan precedence log files =
        (request.withColour (some false)).lintFiles host plan precedence log files := by
    intro plan log files
    simp only [LintRequest.lintFiles, LintRequest.withColour, Console.output_uncoloured]
  have plan_eq : (request.withColour none).plan host directory =
      (request.withColour (some false)).plan host directory := rfl
  simp only [LintRequest.execute, plan_eq, files_eq]
  rfl

end CommandLine
end MarkupLint
