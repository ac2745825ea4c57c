import MarkupLint.Report.Console
import MarkupLint.Proofs.Json
import MarkupLint.Proofs.Report.Block

/-!
# Structured reports lose nothing

What a structured report tells of a batch is read back from what is printed, whatever characters the
names and messages are made of: each linting with its state and its diagnostics by rule, each skipped file
with the reason, and the exit code.
-/

namespace MarkupLint

/-- The state with the word. -/
def LintState.ofWord? (word : String) : Option LintState :=
  [running, passing, warning, error].find? fun state => state.word == word

@[simp] theorem LintState.ofWord?_word (state : LintState) : ofWord? state.word = some state := by
  cases state <;> decide

/-- The code with the number. -/
def ExitCode.ofNumber? (number : Int) : Option ExitCode :=
  [success, violations, unexpected, interrupted, configuration].find? fun code => code.number == number

@[simp] theorem ExitCode.ofNumber?_number (code : ExitCode) : ofNumber? code.number = some code := by
  cases code <;> decide

namespace Json

/-- The value with a name in an object. -/
def member? (name : String) : Json → Option Json
  | object members => members.lookup name
  | _ => none

/-- The text that a value is. -/
def text? : Json → Option String
  | text value => some value
  | _ => none

/-- The number that a value is. -/
def integer? : Json → Option Int
  | integer value => some value
  | _ => none

/-- The items of a value that is an array. -/
def items? : Json → Option (List Json)
  | array items => some items
  | _ => none

/-- The members of a value that is an object. -/
def members? : Json → Option (List (String × Json))
  | object members => some members
  | _ => none

/-- Whether the names of each object are different, so that it makes no difference how a reader deals
with a name that comes twice. -/
inductive HasDistinctNames : Json → Prop where
  | null : HasDistinctNames null
  | integer (value : Int) : HasDistinctNames (integer value)
  | text (value : String) : HasDistinctNames (text value)
  | array {items : List Json} (inside : ∀ item ∈ items, HasDistinctNames item) :
    HasDistinctNames (array items)
  | object {members : List (String × Json)} (distinct : (members.map Prod.fst).Nodup)
    (inside : ∀ member ∈ members, HasDistinctNames member.2) : HasDistinctNames (object members)

namespace HasDistinctNames

attribute [simp] null integer text

@[simp] theorem array_iff {items : List Json} :
    HasDistinctNames (.array items) ↔ ∀ item ∈ items, HasDistinctNames item :=
  ⟨fun | array inside => inside, array⟩

@[simp] theorem object_iff {members : List (String × Json)} :
    HasDistinctNames (.object members) ↔
      (members.map Prod.fst).Nodup ∧ ∀ member ∈ members, HasDistinctNames member.2 :=
  ⟨fun | object distinct inside => ⟨distinct, inside⟩, fun both => object both.1 both.2⟩

end HasDistinctNames
end Json

namespace Report

/-- What is reported of a diagnostic in the group of its rule. -/
structure Entry where
  index : Int
  severity : Severity
  message : String
  node? : Option String
deriving DecidableEq, Repr

namespace Entry

/-- The entry for a diagnostic. -/
def ofDiagnostic (diagnostic : Diagnostic) : Entry :=
  ⟨diagnostic.index, diagnostic.severity, diagnostic.message, diagnostic.node?⟩

/-- What a value tells of a node, which may be missing. -/
def nodeOf? : Json → Option (Option String)
  | .null => some none
  | value => value.text?.map some

/-- The entry that a value tells of. -/
def ofJson? (value : Json) : Option Entry := do
  return {
    index := ← (← value.member? "instance").integer?
    severity := ← Severity.ofWord? (← (← value.member? "severity").text?)
    message := ← (← value.member? "message").text?
    node? := ← nodeOf? (← value.member? "node") }

theorem ofJson?_diagnosticValue (diagnostic : Diagnostic) :
    ofJson? (diagnosticValue diagnostic) = some (ofDiagnostic diagnostic) := by
  have node_eq : nodeOf? ((diagnostic.node?.map Json.text).getD .null) = some diagnostic.node? := by
    cases diagnostic.node? <;> rfl
  simp [ofJson?, diagnosticValue, Json.member?, List.lookup_cons, Json.integer?, Json.text?, node_eq,
    ofDiagnostic]

end Entry

/-- What is reported of a linting. -/
structure Section where
  file : String
  state : LintState
  /-- The diagnostics by rule. -/
  groups : List (String × List Entry)
deriving DecidableEq, Repr

namespace Section

/-- The section for a linting. -/
def ofLinting (linting : Linting) : Section where
  file := linting.name
  state := linting.state
  groups := linting.diagnostics.groups.map fun group => (group.1, group.2.map .ofDiagnostic)

/-- The group that a member of an object tells of. -/
def groupOf? (member : String × Json) : Option (String × List Entry) := do
  return (member.1, ← (← member.2.items?).mapM Entry.ofJson?)

/-- The section that a value tells of. -/
def ofJson? (value : Json) : Option Section := do
  return {
    file := ← (← value.member? "file").text?
    state := ← LintState.ofWord? (← (← value.member? "state").text?)
    groups := ← (← (← value.member? "diagnostics").members?).mapM groupOf? }

end Section

/-- What is reported of a batch. -/
structure Contents where
  sections : List Section
  skipped : List SkippedFile
  exitCode : ExitCode
deriving DecidableEq, Repr

namespace Contents

/-- The contents for a result. -/
def ofResult (result : Batch.Result) : Contents :=
  ⟨result.lintings.map .ofLinting, result.skipped, result.exitCode⟩

/-- The skipped file that a value tells of. -/
def skippedOf? (value : Json) : Option SkippedFile := do
  return {
    path := ← (← value.member? "file").text?
    reason := ← (← value.member? "reason").text? }

/-- The contents that a value tells of. -/
def ofJson? (value : Json) : Option Contents := do
  return {
    sections := ← (← (← value.member? "lintings").items?).mapM Section.ofJson?
    skipped := ← (← (← value.member? "skipped").items?).mapM skippedOf?
    exitCode := ← ExitCode.ofNumber? (← (← value.member? "exit_code").integer?) }

end Contents

/-- Values are decoded one by one if each of them is. -/
theorem mapM_map_eq_some {α β γ : Type} {encode : α → β} {decode? : β → Option γ} {expected : α → γ}
    (decodes : ∀ value, decode? (encode value) = some (expected value)) (values : List α) :
    (values.map encode).mapM decode? = some (values.map expected) := by
  induction values with
  | nil => rfl
  | cons value values ih => simp [decodes, ih]

theorem Section.ofJson?_lintingValue (linting : Linting) :
    Section.ofJson? (lintingValue linting) = some (.ofLinting linting) := by
  have groups_eq := @mapM_map_eq_some (String × List Diagnostic) _ _
    (fun group => (group.1, Json.array (group.2.map diagnosticValue))) Section.groupOf?
    (fun group => (group.1, group.2.map .ofDiagnostic))
    (fun group => by
      simp [Section.groupOf?, Json.items?, mapM_map_eq_some Entry.ofJson?_diagnosticValue])
    linting.diagnostics.groups
  simp [ofJson?, lintingValue, Json.member?, List.lookup_cons, Json.text?, Json.members?, groups_eq,
    ofLinting]

theorem Contents.ofJson?_resultValue (result : Batch.Result) :
    Contents.ofJson? (resultValue result) = some (.ofResult result) := by
  have skipped_eq := @mapM_map_eq_some SkippedFile _ _ skippedValue Contents.skippedOf? id
    (fun file => by simp [Contents.skippedOf?, skippedValue, Json.member?, List.lookup_cons, Json.text?])
    result.skipped
  simp [ofJson?, resultValue, Json.member?, List.lookup_cons, Json.items?, Json.integer?,
    mapM_map_eq_some Section.ofJson?_lintingValue, skipped_eq, ofResult]

theorem hasDistinctNames_diagnosticValue (diagnostic : Diagnostic) :
    (diagnosticValue diagnostic).HasDistinctNames := by
  have node : ((diagnostic.node?.map Json.text).getD .null).HasDistinctNames := by
    cases diagnostic.node? <;> simp
  simp [diagnosticValue, node]

/-- Names come twice in a report just if a rule does in the diagnostics of a linting. -/
theorem hasDistinctNames_resultValue (result : Batch.Result) :
    (resultValue result).HasDistinctNames ↔
      ∀ linting ∈ result.lintings, linting.diagnostics.groups.keys.Nodup := by
  have lintings_iff : ∀ linting,
      (lintingValue linting).HasDistinctNames ↔ linting.diagnostics.groups.keys.Nodup := by
    intro linting
    have groups : ∀ group : String × List Diagnostic,
        (Json.array (group.2.map diagnosticValue)).HasDistinctNames := by
      simp [hasDistinctNames_diagnosticValue]
    simp only [lintingValue, Json.HasDistinctNames.object_iff, List.forall_mem_cons,
      List.forall_mem_map, groups]
    simp [Function.comp_def, Table.keys]
  have skipped : ∀ file, (skippedValue file).HasDistinctNames := fun file => by simp [skippedValue]
  simp [resultValue, lintings_iff, skipped]

/-- Nothing is printed of a batch but its structured report, of which nothing is removed. -/
theorem output_json (isDeferred : Bool) (colour? : Option Bool) (result : Batch.Result) :
    (⟨isDeferred, .json, colour?⟩ : Console).output result = (resultValue result).document ++ "\n" := by
  have unescaped : '\x1b' ∉ (resultValue result).document.toList := fun inside =>
    absurd (Json.isCommon_write _ 0 _ inside) (by decide)
  have silent : (⟨isDeferred, .json, colour?⟩ : Console).isStreaming = false := by
    simp [Console.isStreaming]
  simp only [Console.output, Console.streamed, Console.final, silent, Bool.false_eq_true, if_false,
    String.empty_append, Console.printed_eq, plain_eq_self unescaped, ite_self]

/-- All that is printed of a batch in the structured format is one value, from which the lintings in their
order with their states and diagnostics, the skipped files with their reasons and the exit code are read
back.  No object has a name twice unless a rule comes twice in the diagnostics of a linting. -/
theorem structured_report_lossless (isDeferred : Bool) (colour? : Option Bool) (result : Batch.Result) :
    ∃ value, Json.read? ((⟨isDeferred, .json, colour?⟩ : Console).output result) = some value ∧
      Contents.ofJson? value = some (.ofResult result) ∧
      (value.HasDistinctNames ↔
        ∀ linting ∈ result.lintings, linting.diagnostics.groups.keys.Nodup) := by
  refine ⟨resultValue result, ?_, Contents.ofJson?_resultValue result,
    hasDistinctNames_resultValue result⟩
  rw [output_json, Json.read?_document]

end Report
end MarkupLint
