import MarkupLint.Proofs.Batch.Reading
import MarkupLint.Proofs.Files.Finding
import MarkupLint.Proofs.Insertion
import MarkupLint.Report.Text
import Mathlib.Data.String.Basic

/-!
# What batches lead to

When no name has a null character, all instances come to their ends, and none of them fails at once with
what nobody handles, a batch leads to a result that accounts for each of its files.
-/

namespace MarkupLint
namespace Batch

open Files.Host (readText readDocument readBytes_entry readBytes_missing)

/-! ## Sorting -/

theorem inserts_insertSkipped :
    Inserts (fun first second => first.path ≤ second.path) insertSkipped where
  nil _ := rfl
  cons file other rest := by
    rw [insertSkipped]
    split
    · next less => exact .inl ⟨le_of_lt less, rfl⟩
    · next less => exact .inr ⟨not_lt.mp less, rfl⟩

/-- The skipped files are put in the order of their names. -/
theorem sortSkipped_spec (files : List SkippedFile) :
    (sortSkipped files).Perm files ∧
      (sortSkipped files).Pairwise fun first second => first.path ≤ second.path := by
  have : IsTrans SkippedFile fun first second => first.path ≤ second.path :=
    ⟨fun _ _ _ => le_trans⟩
  exact ⟨by simpa [sortSkipped] using inserts_insertSkipped.perm_foldl files [],
    inserts_insertSkipped.pairwise_foldl files .nil⟩

/-! ## The result -/

/-- Each file is either read, into a linting with its name, or skipped. -/
theorem names_perm
    {files : List Files.PathName}
    (clean : ∀ name ∈ files, '\x00' ∉ name.text.toList)
    (host : Files.Host)
    (plan : Config.Plan)
    (precision : Precision) :
    ((documents host files).map (fun document => (setting plan precision document).name) ++
      (refused host files).map (·.path)).Perm (files.map (·.text)) := by
  induction files with
  | nil => exact .nil
  | cons name rest ih =>
    have others := ih fun other known => clean other (List.mem_cons_of_mem _ known)
    simp only [documents, refused, List.filterMap_cons, List.map_cons] at others ⊢
    cases read : host.readDocument name.text with
    | ok document =>
      have same : (setting plan precision document).name = name.text := by
        simp only [setting, Linting.new, host.file?_of_readDocument read, Option.getD_some]
      simp only [List.map_cons, List.cons_append, same]
      exact others.cons _
    | error stop =>
      cases stop with
      | failure failure =>
        exact absurd read (host.readDocument_ne_failure (clean name List.mem_cons_self) failure)
      | refused error =>
        simp only [List.map_cons]
        exact List.perm_middle.trans (others.cons _)

/-- Lintings that have come to their ends are counted in one of three states. -/
theorem countIn_add
    {lintings : List Linting}
    (terminal : ∀ linting ∈ lintings, linting.state.isTerminal = true) :
    Report.countIn .passing lintings + Report.countIn .warning lintings +
      Report.countIn .error lintings = lintings.length := by
  induction lintings with
  | nil => rfl
  | cons linting rest ih =>
    have others := ih fun other known => terminal other (List.mem_cons_of_mem _ known)
    have ended := terminal linting List.mem_cons_self
    simp only [Report.countIn, List.countP_cons, List.length_cons] at others ⊢
    cases state : linting.state with
    | running =>
      rw [state] at ended
      contradiction
    | _ =>
      simp only [reduceCtorEq, decide_true, decide_false, if_true, Bool.false_eq_true, if_false]
      omega

/-- A result accounts for files: each of them has a linting, in order, or is skipped; all lintings have
come to their ends, and the counters and the way in which the program ends follow from their states. -/
structure Result.Accounts
    (result : Result)
    (host : Files.Host)
    (plan : Config.Plan)
    (precision : Precision)
    (files : List Files.PathName) : Prop where
  settings_eq : result.lintings.map (·.toSetting) =
    (documents host files).map (setting plan precision)
  skipped_perm : result.skipped.Perm (refused host files)
  skipped_sorted : result.skipped.Pairwise fun first second => first.path ≤ second.path
  names_perm : (result.lintings.map (·.name) ++ result.skipped.map (·.path)).Perm
    (files.map (·.text))
  terminal : ∀ linting ∈ result.lintings, linting.state.isTerminal = true
  errorCount_eq : result.errorCount = Report.countIn .error result.lintings
  exitCode_iff : result.exitCode = .violations ↔ 0 < Report.countIn .error result.lintings
  success_iff : result.exitCode = .success ↔ ∀ linting ∈ result.lintings, linting.state ≠ .error
  summary : Report.countIn .passing result.lintings + Report.countIn .warning result.lintings +
    Report.countIn .error result.lintings = result.lintings.length

/-- The way in which the program ends follows from the number of errors that were counted. -/
theorem Result.exitCode_spec
    {result : Result}
    (errorCount_eq : result.errorCount = Report.countIn .error result.lintings) :
    (result.exitCode = .violations ↔ 0 < Report.countIn .error result.lintings) ∧
      (result.exitCode = .success ↔ ∀ linting ∈ result.lintings, linting.state ≠ .error) := by
  have violates : 0 < result.errorCount ↔ ∃ linting ∈ result.lintings, linting.state = .error := by
    rw [errorCount_eq, Report.countIn, List.countP_pos_iff]
    simp only [decide_eq_true_eq]
  rw [← errorCount_eq, Result.exitCode]
  split
  · next some =>
    obtain ⟨linting, held, failed⟩ := violates.mp some
    exact ⟨iff_of_true rfl some,
      iff_of_false ExitCode.noConfusion fun sound => sound linting held failed⟩
  · next none =>
    exact ⟨iff_of_false ExitCode.noConfusion none,
      iff_of_true rfl fun linting held failed => none (violates.mpr ⟨linting, held, failed⟩)⟩

/-- Lintings that are closed have come to their ends. -/
theorem Noted.isTerminal_of_closed
    {batch : Batch}
    (noted : batch.Noted)
    (closed : batch.AllClosed) :
    ∀ linting ∈ batch.lintings, linting.state.isTerminal = true := by
  intro linting held
  obtain ⟨index, known⟩ := List.mem_iff_getElem?.mp held
  have ended := closed index (List.getElem?_eq_some_iff.mp known).1
  rw [hasClosed, known, Option.any_some] at ended
  rw [(noted.watched linting held).balanced.isTerminal_eq, ended]

/-- However files are read, a result that they lead to accounts for them. -/
theorem Reading.Reaches.accounts
    {host : Files.Host}
    {plan : Config.Plan}
    {precision : Precision}
    {precedence : Precedence Turn}
    {isShown : Bool}
    {files : List Files.PathName}
    {last : Reading}
    {result : Result}
    (path : Reaches host plan files (.start precision precedence isShown files.length) last)
    (clean : ∀ name ∈ files, '\x00' ∉ name.text.toList)
    (leads : last.result files.length = .ok result) :
    result.Accounts host plan precision files := by
  obtain ⟨complete, closing, rfl⟩ := Reading.result_eq_ok_iff.mp leads
  have valid := path.valid
  have all := valid.unread_eq_nil complete
  have recorded := valid.recorded all
  have arranged := valid.arranged_perm
  have each : last.Each host files fun document linting =>
      linting.toSetting = setting plan precision document :=
    path.each (fun _ => rfl) fun _ linting _ same now turn =>
      (Linting.setting_take linting now turn).trans same
  have settings_eq : (last.arranged (last.order files.length)).map (·.toSetting) =
      (documents host files).map (setting plan precision) :=
    each.map_arranged valid all fun _ _ _ same => same
  have ended : ∀ linting ∈ last.arranged (last.order files.length),
      linting.state.isTerminal = true :=
    fun linting held => recorded.isTerminal_of_closed (recorded.stage.of_closing closing) linting
      (arranged.mem_iff.mp held)
  obtain ⟨sort_perm, sorted⟩ := sortSkipped_spec last.batch.skipped
  have skipped_perm : (sortSkipped last.batch.skipped).Perm (refused host files) := by
    have skipped := valid.skipped_perm
    rw [all, done_nil, filterMap_refusalAt?] at skipped
    exact sort_perm.trans skipped
  have errorCount_eq : (last.outcome files.length).errorCount =
      Report.countIn .error (last.outcome files.length).lintings := by
    change last.batch.errorCount = _
    rw [recorded.errorCount_eq, Report.countIn]
    exact (arranged.countP_eq _).symm
  obtain ⟨exitCode_iff, success_iff⟩ := Result.exitCode_spec errorCount_eq
  refine
    { settings_eq := settings_eq
      skipped_perm := skipped_perm
      skipped_sorted := sorted
      names_perm := ?_
      terminal := ended
      errorCount_eq := errorCount_eq
      exitCode_iff := exitCode_iff
      success_iff := success_iff
      summary := countIn_add ended }
  have names_eq := congrArg (List.map Linting.Setting.name) settings_eq
  rw [List.map_map, List.map_map] at names_eq
  refine .trans ?_ (names_perm clean host plan precision)
  exact (List.Perm.of_eq names_eq).append (skipped_perm.map _)

section

variable {host : Files.Host} {plan : Config.Plan} {precision : Precision} {isShown : Bool}
  {files : List Files.PathName}

/-- A batch that is over has a result, and all its lintings have come to their ends, when no instance
fails at once with what nobody handles. -/
theorem Reading.Reaches.result_eq_ok
    {precedence : Precedence Turn}
    {last : Reading}
    (path : Reaches host plan files (.start precision precedence isShown files.length) last)
    (contained : ∀ document ∈ documents host files, plan.rules.IsContained document)
    (complete : last.batch.isOver = true) :
    last.result files.length = .ok (last.outcome files.length) ∧ last.batch.AllClosed := by
  have sound := (path.safe contained).sound (path.valid.unread_eq_nil complete)
  have closing := sound.stage.of_isOver complete sound.unrefused
  exact ⟨Reading.result_eq_ok_iff.mpr ⟨complete, closing, rfl⟩, sound.stage.of_closing closing⟩

/-- When all files have been read and all instances come to their ends, the batch can come to its
end. -/
theorem Reading.Reaches.exists_isOver_of_allSettled
    {precedence : Precedence Turn}
    {last : Reading}
    {turns : Nat}
    (path : Reaches host plan files (.start precision precedence isShown files.length) last)
    (contained : ∀ document ∈ documents host files, plan.rules.IsContained document)
    (all : last.unread = [])
    (settled : (last.batch.goOn turns).AllSettled) :
    ∃ later, last.batch.Reaches later ∧ later.isOver = true := by
  have sound := (path.safe contained).sound all
  have begun := last.batch.reaches_goOn turns
  obtain ⟨middle, others, answered⟩ :=
    (sound.reaches begun).exists_allAnswered_of_allSettled settled
  obtain ⟨later, behind, complete⟩ := (sound.reaches (begun.trans others)).exists_isOver answered
  exact ⟨later, (begun.trans others).trans behind, complete⟩

/-- However files are read, they are linted to a result that accounts for them, when no name has a null
character and no instance fails at once with what nobody handles.  When all files have been read and all
instances come to their ends, the batch can come to its end. -/
theorem aggregate
    (clean : ∀ name ∈ files, '\x00' ∉ name.text.toList)
    (contained : ∀ document ∈ documents host files, plan.rules.IsContained document) :
    (∀ outcome, LeadsTo host plan precision isShown files outcome →
        ∃ result, outcome = .ok result ∧ result.Accounts host plan precision files) ∧
      ∀ precedence : Precedence Turn,
        (∀ last turns, Reading.Reaches host plan files
            (.start precision precedence isShown files.length) last →
          last.unread = [] → (last.batch.goOn turns).AllSettled →
            ∃ later, last.batch.Reaches later ∧ later.isOver = true) ∧
        ((∀ opened, openFiles host plan (empty precision precedence isShown) files = .ok opened →
            ∃ turns, (opened.goOn turns).AllSettled) →
          LeadsTo host plan precision isShown files
            (lint host plan precision precedence isShown files)) := by
  refine ⟨fun outcome leads => ?_, fun precedence => ⟨fun last turns path all settled =>
    path.exists_isOver_of_allSettled contained all settled, fun settles => ?_⟩⟩
  · cases leads with
    | @failed precedence last place name failure path waits known read =>
      have readable := clean name (List.mem_of_getElem? known)
      exact absurd read (host.readDocument_ne_failure readable failure)
    | @ended precedence last path complete =>
      have leads := (path.result_eq_ok contained complete).1
      exact ⟨_, leads, path.accounts clean leads⟩
  · refine leadsTo_lint fun opened opens => ?_
    obtain ⟨places, path, -⟩ := Reading.exists_reaches_openFiles opens
    obtain ⟨turns, settled⟩ := settles opened opens
    exact Reading.Reaches.exists_isOver_of_allSettled path contained rfl settled

end

/-- A file with a drawing. -/
def drawings : Files.Host :=
  Files.FileNode.host (.directory [("a.svg", .file "<svg/>".toUTF8.toList)])

/-- One instance fails at once, and one is idle for too long. -/
def faultyPlan : Config.Plan where
  rules := [("first", [.custom ⟨[.fail (.of "ValueError" ["no"])], none⟩]),
    ("second", [.custom ⟨[], some [.sleep 3 [] false]⟩])]
  ignore := []
  timeout? := some (.finite false 2 0)

theorem aggregate_of_repeated_and_missing :
    let files : List Files.PathName := [⟨.slash, ["a.svg"]⟩, ⟨.slash, ["b.svg"]⟩, ⟨.slash, ["a.svg"]⟩]
    ((∀ name ∈ files, '\x00' ∉ name.text.toList) ∧
      (∀ document ∈ documents drawings files, faultyPlan.rules.IsContained document) ∧
      ∀ opened, openFiles drawings faultyPlan (empty .binary64 .creation true) files = .ok opened →
        ∃ turns, (opened.goOn turns).AllSettled) ∧
      ∃ result, lint drawings faultyPlan .binary64 .creation true files = .ok result ∧
        result.Accounts drawings faultyPlan .binary64 files := by
  intro files
  have clean : ∀ name ∈ files, '\x00' ∉ name.text.toList := by decide
  have contained : ∀ document ∈ documents drawings files,
      faultyPlan.rules.IsContained document :=
    fun document _ => of_decide_eq_true rfl
  have known : drawings.readBytes ("/" ++ "a.svg") = .ok "<svg/>".toUTF8.toList :=
    readBytes_entry rfl rfl (by decide) rfl rfl
  have missing : drawings.readBytes ("/" ++ "b.svg") = .error .notFound :=
    readBytes_missing rfl rfl (by decide) rfl
  have settles : ∀ opened,
      openFiles drawings faultyPlan (empty .binary64 .creation true) files = .ok opened →
        ∃ turns, (opened.goOn turns).AllSettled := by
    intro opened opens
    have settled : (match openFiles drawings faultyPlan (empty .binary64 .creation true) files with
        | .ok opened => decide (opened.goOn 40).AllSettled
        | .error _ => false) = true := by
      simp only [files, openFiles, readDocument, readText, Files.PathName.text_entry, known, missing]
      decide +kernel
    rw [opens] at settled
    exact ⟨40, of_decide_eq_true settled⟩
  obtain ⟨accounts, possible⟩ :=
    @aggregate drawings faultyPlan .binary64 true files clean contained
  exact ⟨⟨clean, contained, settles⟩, accounts _ ((possible .creation).2 settles)⟩

/-- A name with a null character fails the batch, so the other files have no result either. -/
theorem failure_of_nulCharacter :
    lint drawings ⟨[], [], none⟩ .binary64 .creation false [⟨.slash, ["\x00.svg"]⟩, ⟨.slash, ["a.svg"]⟩] =
      .error (.failure (.ofValue "embedded null byte")) := by
  simp only [lint, openFiles, drawings.readDocument_of_nulCharacter
    (show '\x00' ∈ (⟨.slash, ["\x00.svg"]⟩ : Files.PathName).text.toList by decide)]

end Batch
end MarkupLint
