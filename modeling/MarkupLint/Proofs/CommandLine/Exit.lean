import MarkupLint.Proofs.Batch.Together
import MarkupLint.Proofs.Config.Data
import MarkupLint.Proofs.Files.Scanning

/-!
# How the program ends

When files are to be linted and neither loading the configuration nor finding the files fails, the
program tells in the way in which it ends whether the configuration is wrong, whether an instance
reports an error on one of the files, or neither.
-/

namespace MarkupLint
/-- A file is read as a document, and an instance reports an error on it or fails. -/
def Config.Plan.FindsError
    (plan : Plan)
    (host : Files.Host)
    (file : Files.PathName) :
    Prop :=
  ∃ document, host.readDocument file.text = .ok document ∧
    ∃ rule ∈ plan.rules, ∃ (number : Nat) (configured : Rule.Instance),
      rule.2[number]? = some configured ∧ configured.ReportsError document (.new rule.1 number)

namespace Batch

variable {host : Files.Host} {plan : Config.Plan} {files : List Files.PathName}

/-- By a plan that has no other instances than those for elements and attributes, files lead to a result
that tells of violations just when an error is found in one of them, however they are read. -/
theorem LeadsTo.violations_iff
    {precision : Precision}
    {isShown : Bool}
    {outcome : Except Stop Result}
    (leads : LeadsTo host plan precision isShown files outcome)
    (clean : ∀ file ∈ files, '\x00' ∉ file.text.toList)
    (builtin : plan.rules.IsBuiltin) :
    ∃ result, outcome = .ok result ∧
      (result.exitCode = .violations ↔ ∃ file ∈ files, plan.FindsError host file) := by
  obtain ⟨result, leads, accounts, verdicts_eq, -⟩ := leads.exists_eq_ok builtin clean
  refine ⟨result, leads, accounts.exitCode_iff.trans ?_⟩
  have states_eq : result.lintings.map (·.state) =
      (documents host files).map fun document => (forecast plan precision document).state := by
    have mapped := congrArg (List.map Linting.Verdict.state) verdicts_eq
    rw [List.map_map, List.map_map] at mapped
    exact mapped
  have found_iff : (∃ linting ∈ result.lintings, linting.state = .error) ↔
      ∃ document ∈ documents host files, (forecast plan precision document).state = .error := by
    rw [← List.mem_map, states_eq, List.mem_map]
  rw [Report.countIn, List.countP_pos_iff]
  simp only [decide_eq_true_eq]
  rw [found_iff]
  simp only [mem_documents, forecast, builtin.state_forecast_eq_error_iff, Config.Plan.FindsError]
  constructor
  · rintro ⟨document, ⟨file, held, read⟩, reports⟩
    exact ⟨file, held, document, read, reports⟩
  · rintro ⟨file, held, document, read, reports⟩
    exact ⟨document, ⟨file, held, read⟩, reports⟩

end Batch

namespace CommandLine

open Files.Host (find_entry readBytes_entry resolve_root resolve_entry)

/-- Files whose names have no null character are linted to an end that tells whether an error is found
in one of them. -/
theorem LintRequest.exitCode_lintFiles
    {host : Files.Host}
    {plan : Config.Plan}
    {files : List Files.PathName}
    (clean : ∀ file ∈ files, '\x00' ∉ file.text.toList)
    (builtin : plan.rules.IsBuiltin)
    (request : LintRequest)
    (precedence : Precedence Batch.Turn)
    (log : String) :
    let execution := request.lintFiles host plan precedence log files
    (execution.exitCode = 1 ↔ ∃ file ∈ files, plan.FindsError host file) ∧
      (execution.exitCode = 0 ↔ ¬∃ file ∈ files, plan.FindsError host file) := by
  intro execution
  obtain ⟨result, leads, violations_iff⟩ :=
    (@Batch.leadsTo_lint_of_isBuiltin _ precedence builtin host .binary64 true files).violations_iff
      clean builtin
  rw [← violations_iff]
  by_cases none : files.isEmpty
  · have success : execution.exitCode = 0 := by
      simp only [execution, lintFiles, if_pos none]
      rfl
    have empty : ¬result.exitCode = .violations := by
      rw [violations_iff]
      rintro ⟨file, held, -⟩
      rw [List.isEmpty_iff.mp none] at held
      contradiction
    simp [success, empty]
  · have code_eq : execution.exitCode = result.exitCode.number := by
      simp only [execution, lintFiles, if_neg none, leads]
    rw [code_eq, Batch.Result.exitCode]
    split <;> simp [ExitCode.number]

/-- The way in which the program ends tells what it found: the configuration is wrong, and then nothing
is linted; or an instance reports an error in a file that is found and read; or neither.  However the
files are read makes no difference to that. -/
theorem exit_codes
    {arguments : List String}
    {request : LintRequest}
    {host : Files.Host}
    {directory : Files.PathName}
    {precedence : Precedence Batch.Turn}
    (asked : Command.ofArguments arguments = .ok (.lint request))
    (loads : ∀ failure,
      (Config.load host directory request.config?).result ≠ .error (.failure failure))
    (scans : ∀ plan, (request.plan host directory).1 = .ok plan → ∀ failure,
      (Files.scan host request.files plan.ignore directory).result ≠ .error failure) :
    let execution := run host directory precedence arguments
    match (request.plan host directory).1 with
    | .error _ =>
      execution.exitCode = 4 ∧ execution.output = "" ∧ request.targets host directory = []
    | .ok plan =>
      (execution.exitCode = 1 ↔
          ∃ file ∈ request.targets host directory, plan.FindsError host file) ∧
        (execution.exitCode = 0 ↔
          ¬∃ file ∈ request.targets host directory, plan.FindsError host file) ∧
        ∀ outcome, Batch.LeadsTo host plan .binary64 true (request.targets host directory) outcome →
          ∃ result, outcome = .ok result ∧ (result.exitCode = .violations ↔
            ∃ file ∈ request.targets host directory, plan.FindsError host file) := by
  have runs : run host directory precedence arguments = request.execute host directory precedence := by
    rw [run, asked]
  simp only [runs]
  cases planned : (request.plan host directory).1 with
  | error stop =>
    cases stop with
    | failure failure =>
      exact absurd (LintRequest.plan_eq_failure_iff.mp planned) (loads failure)
    | error error =>
      refine ⟨?_, ?_, ?_⟩
      · simp only [LintRequest.execute, planned]
        rfl
      · simp only [LintRequest.execute, planned]
        rfl
      · simp only [LintRequest.targets, planned]
  | ok plan =>
    have builtin := request.yields_plan host directory plan planned
    cases scanned : (Files.scan host request.files plan.ignore directory).result with
    | error failure => exact absurd scanned (scans plan planned failure)
    | ok files =>
      have clean := Files.clean_of_scan scanned
      have targets_eq : request.targets host directory = files := by
        simp only [LintRequest.targets, planned, scanned]
      simp only [targets_eq, LintRequest.execute, planned, scanned]
      obtain ⟨violations_iff, success_iff⟩ :=
        LintRequest.exitCode_lintFiles clean builtin request precedence _
      exact ⟨violations_iff, success_iff, fun _ leads => leads.violations_iff clean builtin⟩

/-- A configuration that wants titles, and a drawing without one. -/
def titleTree : Files.Host :=
  Files.FileNode.host (.directory
    [("rc.toml", .file "[rules.elm]\ntitle = true".toUTF8.toList),
      ("a.svg", .file "<svg/>".toUTF8.toList)])

/-- The request to lint the drawing by the configuration. -/
def titleRequest : LintRequest where
  files := ["a.svg"]
  config? := some ⟨.relative, ["rc.toml"]⟩
  level := .warning
  timeout? := none
  console := ⟨false, .text, none⟩

theorem exit_codes_of_drawing_without_title :
    let arguments := ["-c", "rc.toml", "a.svg"]
    let directory : Files.PathName := ⟨.slash, []⟩
    (Command.ofArguments arguments = .ok (.lint titleRequest) ∧
      (∀ failure, (Config.load titleTree directory titleRequest.config?).result ≠
        .error (.failure failure)) ∧
      ∀ plan, (titleRequest.plan titleTree directory).1 = .ok plan → ∀ failure,
        (Files.scan titleTree titleRequest.files plan.ignore directory).result ≠ .error failure) ∧
      ∃ plan, (titleRequest.plan titleTree directory).1 = .ok plan ∧
        ((run titleTree directory .creation arguments).exitCode = 1 ↔
          ∃ file ∈ titleRequest.targets titleTree directory, plan.FindsError titleTree file) := by
  intro arguments directory
  have asked : Command.ofArguments arguments = .ok (.lint titleRequest) := by decide +kernel
  have configured : titleTree.find ("/" ++ "rc.toml") =
      .ok (.file "[rules.elm]\ntitle = true".toUTF8.toList) :=
    find_entry rfl rfl (by decide) rfl (by simp)
  have read : titleTree.readBytes ("/" ++ "rc.toml") =
      .ok "[rules.elm]\ntitle = true".toUTF8.toList :=
    readBytes_entry rfl rfl (by decide) rfl rfl
  have drawn : titleTree.find ("/" ++ "a.svg") = .ok (.file "<svg/>".toUTF8.toList) :=
    find_entry rfl rfl (by decide) rfl (by simp)
  have planned : (match (titleRequest.plan titleTree directory).1 with
      | .ok _ => true
      | .error _ => false) = true := by
    have name_eq : (directory.join ⟨.relative, ["rc.toml"]⟩).text = "/" ++ "rc.toml" := by
      decide
    unfold LintRequest.plan titleRequest Config.load Config.loadFile Config.settingsIn
      Config.ConfigFile.isPresent Config.ConfigFile.table Files.Host.leadsTo
    simp only [name_eq, configured, read, Files.FileNode.isFile]
    decide +kernel
  have loads : ∀ failure, (Config.load titleTree directory titleRequest.config?).result ≠
      .error (.failure failure) := by
    intro failure failed
    rw [LintRequest.plan_eq_failure_iff.mpr failed] at planned
    contradiction
  have resolved : titleTree.resolve directory = .ok directory := resolve_root rfl
  have settled : titleTree.resolve ⟨.slash, ["a.svg"]⟩ = .ok ⟨.slash, ["a.svg"]⟩ :=
    resolve_entry rfl rfl (by decide) rfl (by simp)
  have expanded : Files.expandInput titleTree directory "a.svg" =
      ⟨.ok [⟨.slash, ["a.svg"]⟩], []⟩ := by
    have plain : ¬Files.Pattern.isMagic "a.svg" = true := by decide
    have name_eq : directory.join (Files.PathName.ofText "a.svg") = ⟨.slash, ["a.svg"]⟩ := by
      decide
    simp only [Files.expandInput, if_neg plain, name_eq, Files.Host.isDirectoryAt,
      Files.PathName.text_entry, Files.Host.leadsTo, drawn, Files.FileNode.isDirectory]
  have scans : ∀ plan, (titleRequest.plan titleTree directory).1 = .ok plan → ∀ failure,
      (Files.scan titleTree titleRequest.files plan.ignore directory).result ≠ .error failure := by
    intro plan _ failure
    simp [Files.scan, resolved, titleRequest, Files.ScanState.visitInputs, expanded,
      Files.ScanState.visitAll, settled]
  refine ⟨⟨asked, loads, scans⟩, ?_⟩
  have codes := @exit_codes _ _ _ _ .creation asked loads scans
  cases known : (titleRequest.plan titleTree directory).1 with
  | error stop =>
    rw [known] at planned
    contradiction
  | ok plan =>
    simp only [known] at codes
    exact ⟨plan, rfl, codes.1⟩

end CommandLine
end MarkupLint
