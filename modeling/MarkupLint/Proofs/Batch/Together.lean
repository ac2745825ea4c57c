import MarkupLint.Proofs.Batch.Aggregate
import MarkupLint.Proofs.Linting.Alone
import MarkupLint.Proofs.Rule.Builtin

/-!
# Linting files together

The instances of the rules for elements and attributes do everything at once.  By such rules, linting
files together comes to the same as linting each of them alone, whatever the other files are and in
whatever order they are given.
-/

namespace MarkupLint
namespace Batch

open Linting (Verdict)

/-- The diagnostics that linting a document by a plan leads to if all instances do everything at
once. -/
def forecast (plan : Config.Plan) (precision : Precision) (document : Document) : Collection :=
  (Linting.new document plan.rules plan.timeout? precision).forecast

/-- Each linting has not begun, or it has come to its end. -/
def IsPrompt (batch : Batch) : Prop :=
  ∀ linting ∈ batch.lintings, ∃ collection, linting.Prompt collection

section

variable {batch later : Batch}

theorem IsPrompt.step
    (prompt : batch.IsPrompt)
    (recorded : batch.Recorded)
    (stepped : batch.step? = some later) :
    later.IsPrompt := by
  intro after held
  obtain ⟨index, known⟩ := List.mem_iff_getElem?.mp held
  obtain ⟨before, found, same⟩ := lintings_step stepped known
  have early := List.mem_of_getElem? found
  obtain ⟨collection, prompt⟩ := prompt before early
  refine ⟨collection, ?_⟩
  rcases same with rfl | ⟨now, turn, rfl⟩
  · exact prompt
  · exact prompt.take (recorded.watched before early).balanced now turn

theorem IsPrompt.reaches
    (prompt : batch.IsPrompt)
    (recorded : batch.Recorded)
    (path : batch.Reaches later) :
    later.IsPrompt := by
  induction path with
  | refl => exact prompt
  | tail path stepped ih => exact ih.step (recorded.reaches path) stepped

/-- Lintings whose members do everything at once come to their ends as they begin. -/
theorem IsPrompt.exists_allAnswered
    (prompt : batch.IsPrompt)
    (sound : batch.Sound) :
    ∃ later, batch.Reaches later ∧ later.AllAnswered := by
  refine @Sound.exists_allAnswered batch IsPrompt ?_ ?_ sound prompt
  · exact fun before after kept still stepped => still.step kept.toRecorded stepped
  intro batch kept prompt index bound
  obtain ⟨later, path, ⟨-, inside⟩, begun⟩ := (hosts index).exists_begun ⟨kept, bound⟩
  have known := List.getElem?_eq_getElem inside
  obtain ⟨collection, still⟩ := prompt.reaches kept.toRecorded path _ (List.mem_of_getElem? known)
  rw [known, Option.getD_some] at begun
  refine ⟨later, path, hasAnswered_of_hasClosed ?_⟩
  rw [hasClosed, known, Option.any_some]
  exact (still.ended begun).closed

end

/-- What the linting of a document by a plan comes to if all instances do everything at once. -/
def verdictOf (plan : Config.Plan) (precision : Precision) (document : Document) : Verdict :=
  ⟨(setting plan precision document).name, (forecast plan precision document).state,
    forecast plan precision document⟩

section

variable {host : Files.Host} {plan : Config.Plan} {precision : Precision}
  {precedence : Precedence Turn} {isShown : Bool} {files others : List Files.PathName}

/-- However files are read, the linting of a document has not begun, or it has come to what is forecast
of the document. -/
theorem Reading.Reaches.each_prompt
    {last : Reading}
    (path : Reaches host plan files (.start precision precedence isShown files.length) last)
    (builtin : plan.rules.IsBuiltin) :
    last.Each host files fun document linting =>
      linting.toSetting = setting plan precision document ∧
        linting.Prompt (forecast plan precision document) := by
  refine path.each (fun document => ⟨rfl, fun _ => ⟨?_, rfl⟩, fun begun => ?_⟩) ?_
  · exact builtin.isImmediate_new document plan.timeout? precision
  · contradiction
  · rintro document linting balanced ⟨setting_eq, prompt⟩ now turn
    exact ⟨(Linting.setting_take linting now turn).trans setting_eq, prompt.take balanced now turn⟩

/-- The order in which refused files are found makes no difference to how they are listed. -/
theorem sortSkipped_of_perm
    {skipped : List SkippedFile}
    (perm : skipped.Perm (refused host files)) :
    sortSkipped skipped = sortSkipped (refused host files) := by
  obtain ⟨first_perm, first_sorted⟩ := sortSkipped_spec skipped
  obtain ⟨second_perm, second_sorted⟩ := sortSkipped_spec (refused host files)
  have same : (sortSkipped skipped).Perm (sortSkipped (refused host files)) :=
    first_perm.trans (perm.trans second_perm.symm)
  refine same.eq_of_pairwise (fun first second held known before behind => ?_) first_sorted
    second_sorted
  -- Of one path, there is only one reason why it is refused.
  have path_eq := le_antisymm before behind
  obtain ⟨file, -, first_eq⟩ :=
    List.mem_filterMap.mp (perm.mem_iff.mp (first_perm.mem_iff.mp held))
  obtain ⟨other, -, second_eq⟩ := List.mem_filterMap.mp (second_perm.mem_iff.mp known)
  split at first_eq
  · next error read =>
    cases first_eq
    split at second_eq
    · next later again =>
      cases second_eq
      rw [show file.text = other.text from path_eq, again] at read
      cases read
      exact congrArg (SkippedFile.mk · error.message) path_eq
    · contradiction
  · contradiction

/-- By a plan whose instances do everything at once, however files are read, the documents are linted to
what is forecast of them, and the other files are skipped. -/
theorem LeadsTo.exists_eq_ok
    {outcome : Except Stop Result}
    (leads : LeadsTo host plan precision isShown files outcome)
    (builtin : plan.rules.IsBuiltin)
    (clean : ∀ name ∈ files, '\x00' ∉ name.text.toList) :
    ∃ result, outcome = .ok result ∧ result.Accounts host plan precision files ∧
      result.lintings.map (·.verdict) = (documents host files).map (verdictOf plan precision) ∧
      result.skipped = sortSkipped (refused host files) := by
  cases leads with
  | @failed precedence last place name failure path waits known read =>
    exact absurd read (host.readDocument_ne_failure (clean name (List.mem_of_getElem? known)) failure)
  | @ended precedence last path complete =>
    have valid := path.valid
    have all := valid.unread_eq_nil complete
    obtain ⟨leads, closed⟩ :=
      path.result_eq_ok (fun document _ => builtin.isContained document) complete
    refine ⟨_, leads, path.accounts clean leads, ?_, ?_⟩
    · refine (path.each_prompt builtin).map_arranged valid all ?_
      rintro linting held document ⟨setting_eq, prompt⟩
      obtain ⟨index, known⟩ := List.mem_iff_getElem?.mp held
      have ended := closed index (List.getElem?_eq_some_iff.mp known).1
      rw [hasClosed, known, Option.any_some] at ended
      have ended := prompt.endedWith ended
      rw [Linting.verdict, ended.state_eq, ended.diagnostics_eq, setting_eq, verdictOf]
    · have skipped := valid.skipped_perm
      rw [all, done_nil, filterMap_refusalAt?] at skipped
      exact sortSkipped_of_perm skipped

/-- A file that cannot be read is never read. -/
theorem Reading.Reaches.mem_unread
    {last : Reading}
    {place : Nat}
    {name : Files.PathName}
    {failure : Failure}
    (path : Reaches host plan files (.start precision precedence isShown files.length) last)
    (known : files[place]? = some name)
    (read : host.readDocument name.text = .error (.failure failure)) :
    place ∈ last.unread := by
  induction path with
  | refl => exact List.mem_range.mpr (List.getElem?_eq_some_iff.mp known).1
  | tail path stepped ih =>
    cases stepped with
    | delayed => exact ih
    | took => exact ih
    | @entered other _ _ waits found readable =>
      refine (List.mem_erase_of_ne ?_).mpr ih
      rintro rfl
      rw [known] at found
      cases found
      rw [read] at readable
      contradiction
    | @skipped other _ _ waits found refused =>
      refine (List.mem_erase_of_ne ?_).mpr ih
      rintro rfl
      rw [known] at found
      cases found
      rw [read] at refused
      cases refused

/-- A file with a null character in its name fails all files, however they are read. -/
theorem LeadsTo.eq_failure
    {outcome : Except Stop Result}
    (leads : LeadsTo host plan precision isShown files outcome)
    (unclean : ∃ file ∈ files, '\x00' ∈ file.text.toList) :
    outcome = .error (.failure (.ofValue "embedded null byte")) := by
  cases leads with
  | @failed precedence last place name failure path waits known read =>
    by_cases here : '\x00' ∈ name.text.toList
    · rw [host.readDocument_of_nulCharacter here] at read
      cases read
      rfl
    · exact absurd read (host.readDocument_ne_failure here failure)
  | @ended precedence last path complete =>
    obtain ⟨file, held, unclean⟩ := unclean
    obtain ⟨place, known⟩ := List.mem_iff_getElem?.mp held
    have waits := path.mem_unread known (host.readDocument_of_nulCharacter unclean)
    rw [path.valid.unread_eq_nil complete] at waits
    contradiction

/-- By a plan whose instances do everything at once, a batch that has read all files can come to its
end. -/
theorem Reading.Reaches.exists_reaches_isOver
    {last : Reading}
    (path : Reaches host plan files (.start precision precedence isShown files.length) last)
    (builtin : plan.rules.IsBuiltin)
    (all : last.unread = []) :
    ∃ later, last.batch.Reaches later ∧ later.isOver = true := by
  have sound := (path.safe fun document _ => builtin.isContained document).sound all
  have prompt : last.batch.IsPrompt := by
    intro linting held
    obtain ⟨index, known⟩ := List.mem_iff_getElem?.mp held
    obtain ⟨_, document, -, -, -, prompt⟩ := path.each_prompt builtin index linting known
    exact ⟨_, prompt⟩
  obtain ⟨later, path, answered⟩ := prompt.exists_allAnswered sound
  obtain ⟨last, others, complete⟩ := (sound.reaches path).exists_isOver answered
  exact ⟨last, path.trans others, complete⟩

/-- By a plan whose instances do everything at once, linting files comes to an end. -/
theorem leadsTo_lint_of_isBuiltin
    (builtin : plan.rules.IsBuiltin)
    (host : Files.Host)
    (precision : Precision)
    (isShown : Bool)
    (files : List Files.PathName) :
    LeadsTo host plan precision isShown files (lint host plan precision precedence isShown files) := by
  refine leadsTo_lint fun opened opens => ?_
  obtain ⟨places, path, -⟩ := Reading.exists_reaches_openFiles opens
  exact Reading.Reaches.exists_reaches_isOver path builtin rfl

/-- By a plan whose instances do everything at once, linting files can always come to an end, whatever has
happened so far. -/
theorem Reading.Reaches.exists_isOver
    {reading : Reading}
    (path : Reaches host plan files (.start precision precedence isShown files.length) reading)
    (builtin : plan.rules.IsBuiltin)
    (clean : ∀ name ∈ files, '\x00' ∉ name.text.toList) :
    ∃ last, Reaches host plan files reading last ∧ last.batch.isOver = true := by
  obtain ⟨later, others, all⟩ := path.exists_unread_eq_nil clean
  have reached : Reaches host plan files (.start precision precedence isShown files.length) later :=
    Relation.ReflTransGen.trans path others
  obtain ⟨_, behind, complete⟩ := reached.exists_reaches_isOver builtin all
  obtain ⟨proceeds, isOver⟩ := behind.run_eq complete
  exact ⟨_, Relation.ReflTransGen.trans others (reaches_proceeds proceeds later.unread later.places),
    isOver⟩

/-- The one who lints a document alone is told what is forecast of it. -/
theorem exists_lintFile_eq
    {alone : Precedence Linting.SessionTurn}
    {file : Files.PathName}
    {document : Document}
    (builtin : plan.rules.IsBuiltin)
    (read : host.readDocument file.text = .ok document) :
    ∃ started last, lintFile host plan precision alone file = .ok [started, last] ∧
      last.reply = .finished last.linting.state ∧
      last.linting.verdict = verdictOf plan precision document := by
  obtain ⟨started, last, answers_eq, reply_eq, ended, setting_eq⟩ :=
    Linting.answersOf_of_isImmediate
      (Linting.Balanced.new document plan.rules plan.timeout? precision) rfl rfl
      (builtin.isImmediate_new document plan.timeout? precision)
  refine ⟨started, last, ?_, reply_eq, ?_⟩
  · rw [lintFile, read, Except.map, answers_eq]
  · rw [Linting.verdict, ended.state_eq, ended.diagnostics_eq, setting_eq]
    rfl

/-- What linting a file alone comes to, if the file is read and the linting comes to its end. -/
def verdict? (answers : Except Files.ReadStop (List Linting.Answer)) : Option Verdict :=
  match answers with
  | .ok [_, last] => some last.linting.verdict
  | _ => none

/-- The file as it is skipped, if it is refused when it is linted alone. -/
def skipped?
    (file : Files.PathName)
    (answers : Except Files.ReadStop (List Linting.Answer)) :
    Option SkippedFile :=
  match answers with
  | .error (.refused error) => some ⟨file.text, error.message⟩
  | _ => none

/-- A file can be linted alone: it is refused, or the one who waits for the end of its linting is told
the state. -/
inductive EndsAlone (answers : Except Files.ReadStop (List Linting.Answer)) : Prop where
  | refused
      (error : ParseError)
      (same : answers = .error (.refused error))
  | finished
      (started last : Linting.Answer)
      (same : answers = .ok [started, last])
      (reply_eq : last.reply = .finished last.linting.state)

/-- A result is made up of what linting each file alone comes to: the lintings are in the order of the
files, and the refused files are skipped. -/
structure Result.Composed
    (result : Result)
    (host : Files.Host)
    (plan : Config.Plan)
    (precision : Precision)
    (files : List Files.PathName) : Prop where
  alone : ∀ precedence, ∀ file ∈ files, EndsAlone (lintFile host plan precision precedence file)
  verdicts_eq : ∀ precedence, result.lintings.map (·.verdict) =
    files.filterMap fun file => verdict? (lintFile host plan precision precedence file)
  skipped_eq : ∀ precedence, result.skipped =
    sortSkipped (files.filterMap fun file =>
      skipped? file (lintFile host plan precision precedence file))

/-- A result that accounts for files is made up of what linting each file alone comes to, if the
instances do everything at once. -/
theorem composed_of_verdicts
    {result : Result}
    (builtin : plan.rules.IsBuiltin)
    (clean : ∀ file ∈ files, '\x00' ∉ file.text.toList)
    (verdicts_eq : result.lintings.map (·.verdict) =
      (documents host files).map (verdictOf plan precision))
    (skipped_eq : result.skipped = sortSkipped (refused host files)) :
    result.Composed host plan precision files := by
  have unread : ∀ precedence file stop, host.readDocument file.text = .error stop →
      lintFile host plan precision precedence file = .error stop := by
    intro precedence file stop read
    rw [lintFile, read, Except.map]
  refine ⟨fun precedence file held => ?_, fun precedence => verdicts_eq.trans ?_,
    fun precedence => skipped_eq.trans (congrArg _ ?_)⟩
  · cases read : host.readDocument file.text with
    | ok document =>
      obtain ⟨started, last, same, reply_eq, -⟩ :=
        @exists_lintFile_eq host plan precision precedence _ _ builtin read
      exact .finished started last same reply_eq
    | error stop =>
      cases stop with
      | refused error => exact .refused error (unread precedence file _ read)
      | failure failure => exact absurd read (host.readDocument_ne_failure (clean file held) failure)
  · rw [documents, List.map_filterMap]
    refine List.filterMap_congr fun file _ => ?_
    cases read : host.readDocument file.text with
    | ok document =>
      obtain ⟨started, last, same, -, verdict_eq⟩ :=
        @exists_lintFile_eq host plan precision precedence _ _ builtin read
      rw [same, verdict?, verdict_eq, Option.map_some]
    | error stop =>
      rw [unread precedence file stop read]
      rfl
  · refine List.filterMap_congr fun file _ => ?_
    cases read : host.readDocument file.text with
    | ok document =>
      obtain ⟨started, last, same, -⟩ :=
        @exists_lintFile_eq host plan precision precedence _ _ builtin read
      rw [same]
      rfl
    | error stop =>
      rw [unread precedence file stop read]
      cases stop <;> rfl

/-- Linting files together comes to the same as linting each of them alone, however they are read: one
failure fails all, and otherwise the batch can always come to its end, at which each file has the verdict
that it has alone.  The order of the files is that of the lintings, and does not matter for anything
else; nor does the order of timers of one instant. -/
theorem together_eq_alone
    (builtin : plan.rules.IsBuiltin)
    (host : Files.Host)
    (precision : Precision)
    (precedence : Precedence Turn)
    (isShown : Bool)
    (files : List Files.PathName) :
    (∃ failure,
      (∃ file ∈ files, ∀ alone, lintFile host plan precision alone file = .error (.failure failure)) ∧
      ∀ others, files.Perm others →
        (∀ other, LeadsTo host plan precision isShown others
          (lint host plan precision other isShown others)) ∧
        ∀ outcome, LeadsTo host plan precision isShown others outcome →
          outcome = .error (.failure failure)) ∨
    ∃ result, lint host plan precision precedence isShown files = .ok result ∧
      ∀ others, files.Perm others →
        (∀ other, LeadsTo host plan precision isShown others
          (lint host plan precision other isShown others)) ∧
        (∀ other reading,
          Reading.Reaches host plan others (.start precision other isShown others.length) reading →
            ∃ last, Reading.Reaches host plan others reading last ∧ last.batch.isOver = true) ∧
        ∀ outcome, LeadsTo host plan precision isShown others outcome →
          ∃ other, outcome = .ok other ∧ other.Composed host plan precision others ∧
            other.skipped = result.skipped ∧ other.errorCount = result.errorCount ∧
            other.exitCode = result.exitCode := by
  have possible : ∀ others other, LeadsTo host plan precision isShown others
      (lint host plan precision other isShown others) := fun others _ =>
    leadsTo_lint_of_isBuiltin builtin host precision isShown others
  by_cases clean : ∀ file ∈ files, '\x00' ∉ file.text.toList
  · obtain ⟨result, leads, accounts, verdicts_eq, skipped_eq⟩ :=
      (possible files precedence).exists_eq_ok builtin clean
    refine .inr ⟨result, leads, fun others perm => ?_⟩
    have cleanly : ∀ file ∈ others, '\x00' ∉ file.text.toList :=
      fun file held => clean file (perm.mem_iff.mpr held)
    refine ⟨possible others, fun _ reading path => path.exists_isOver builtin cleanly,
      fun outcome leads => ?_⟩
    obtain ⟨other, same, others_accounts, others_verdicts, others_skipped⟩ :=
      leads.exists_eq_ok builtin cleanly
    have states : (other.lintings.map (·.verdict)).Perm (result.lintings.map (·.verdict)) := by
      rw [others_verdicts, verdicts_eq]
      exact ((perm.symm.filterMap _).map _)
    have count_eq : other.errorCount = result.errorCount := by
      have counted := states.countP_eq (fun verdict => decide (verdict.state = .error))
      rw [List.countP_map, List.countP_map] at counted
      rw [others_accounts.errorCount_eq, accounts.errorCount_eq]
      exact counted
    refine ⟨other, same, composed_of_verdicts builtin cleanly others_verdicts others_skipped, ?_,
      count_eq, ?_⟩
    · rw [others_skipped, skipped_eq]
      exact sortSkipped_of_perm (perm.symm.filterMap _)
    · rw [Result.exitCode, Result.exitCode, count_eq]
  · push Not at clean
    obtain ⟨file, held, unclean⟩ := clean
    refine .inl ⟨.ofValue "embedded null byte", ⟨file, held, fun alone => ?_⟩,
      fun others perm => ?_⟩
    · rw [lintFile, host.readDocument_of_nulCharacter unclean, Except.map]
    · exact ⟨possible others, fun outcome leads =>
        leads.eq_failure ⟨file, perm.mem_iff.mp held, unclean⟩⟩

end

/-- One instance wants no rectangles, and another one has a selector that is none. -/
def selectivePlan : Config.Plan where
  rules := [("elm", [.elements ⟨[("rect", .none)]⟩, .elements ⟨[("[", .some)]⟩])]
  ignore := []
  timeout? := some (.finite false 2 0)

theorem together_eq_alone_beside_missing :
    let files : List Files.PathName := [⟨.slash, ["a.svg"]⟩, ⟨.slash, ["b.svg"]⟩, ⟨.slash, ["a.svg"]⟩]
    selectivePlan.rules.IsBuiltin ∧
      ∃ result, lint drawings selectivePlan .binary64 .creation true files = .ok result ∧
        result.Composed drawings selectivePlan .binary64 files := by
  intro files
  have builtin : selectivePlan.rules.IsBuiltin := by decide
  refine ⟨builtin, ?_⟩
  rcases together_eq_alone builtin drawings .binary64 .creation true files with
    ⟨failure, ⟨file, held, failed⟩, -⟩ | ⟨result, leads, composed⟩
  · have clean : ∀ file ∈ files, '\x00' ∉ file.text.toList := by decide
    have read : drawings.readDocument file.text = .error (.failure failure) := by
      have failed := failed .creation
      rw [lintFile] at failed
      cases read : drawings.readDocument file.text with
      | ok document => simp [read, Except.map] at failed
      | error stop =>
        rw [read] at failed
        cases failed
        rfl
    exact absurd read (drawings.readDocument_ne_failure (clean file held) failure)
  · obtain ⟨possible, -, same⟩ := composed files (.refl files)
    obtain ⟨other, others, composed, -⟩ := same _ (possible .creation)
    rw [leads] at others
    cases others
    exact ⟨result, leads, composed⟩

end Batch
end MarkupLint
