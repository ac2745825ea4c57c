import MarkupLint.Proofs.Batch.Reading
import MarkupLint.Proofs.Config.Data
import MarkupLint.Proofs.Config.Validation
import MarkupLint.Proofs.Files.Finding

/-!
# Limits of idle seconds

The number of seconds after which an idle rule is stopped is given on the command line or in a
configuration file.  A configuration file gives no other limit than a number above zero.  An option
gives one too, or else no number at all, which passes a check that only refuses what is at most zero.
-/

namespace MarkupLint
namespace Config

/-- A limit of idle seconds, if there is one, is a number above zero. -/
def IsLimit (timeout? : Option Binary64) : Prop :=
  ∀ seconds, timeout? = some seconds → IsPositiveNumber (.float seconds)

/-- The limit that a value describes is a number above zero. -/
theorem isLimit_of_readTimeout
    {value : Value}
    {timeout? : Option Binary64}
    (read : readTimeout value = .ok (.ok timeout?)) :
    IsLimit timeout? := by
  rcases readTimeout_cases read with ⟨none | positive, same⟩ | ⟨-, same⟩
  · cases none
    cases same
    exact fun _ some => nomatch some
  · cases same
    intro seconds known
    cases positive with
    | integer number above =>
      cases known
      exact isPositiveNumber_float_iff.mpr (Binary64.isPositive_ofInt above)
    | finite number rational value_eq above =>
      cases known
      exact .finite seconds rational value_eq above
    | infinite =>
      cases known
      exact .infinite
  · cases same

theorem Settings.isLimit_ofValue (entries : Table Value) (path? : Option String) :
    Toml.Yields (fun settings : Settings => IsLimit settings.timeout?)
      (ofValue (.table entries) path?) := by
  intro settings read
  simp only [ofValue] at read
  split at read
  · contradiction
  · next timeout found =>
    split at read
    · next rules ignore timeout? _ _ _ _ =>
      cases read
      exact isLimit_of_readTimeout found
    · contradiction

/-- Whatever configuration file is loaded, its limit is a number above zero. -/
theorem isLimit_load
    (host : Files.Host)
    (directory : Files.PathName)
    (name? : Option Files.PathName) :
    Toml.Yields (fun settings : Settings => IsLimit settings.timeout?)
      (load host directory name?).result :=
  @yields_load_of (fun settings => IsLimit settings.timeout?) (fun _ some => nomatch some)
    (fun entries path? _ => Settings.isLimit_ofValue entries path?) host directory name?

end Config

namespace CommandLine

open Config (IsLimit IsPositiveNumber isPositiveNumber_float_iff)
open Files.Host (find_entry readBytes_entry)

/-- The range of the option refuses what is at most zero, and not what is no number. -/
theorem isBelowRange_eq_false_iff {seconds : Binary64} :
    isBelowRange seconds = false ↔ IsPositiveNumber (.float seconds) ∨ seconds = .nan := by
  rw [isPositiveNumber_float_iff]
  cases seconds with
  | nan => simp [isBelowRange]
  | infinite isNegative => cases isNegative <;> simp [isBelowRange, Binary64.isPositive]
  | finite isNegative significand exponent =>
    cases isNegative <;> simp [isBelowRange, Binary64.isPositive, Nat.pos_iff_ne_zero]

/-- The texts that the option accepts are those of numbers above zero, and those of no number. -/
theorem readTimeout_eq_ok_iff {text : String} {seconds : Binary64} :
    readTimeout text = .ok seconds ↔
      Binary64.read? text.toList = some seconds ∧
        (IsPositiveNumber (.float seconds) ∨ seconds = .nan) := by
  rw [← isBelowRange_eq_false_iff, readTimeout]
  cases Binary64.read? text.toList with
  | none => simp
  | some number =>
    simp only [Option.some.injEq]
    split
    · next below =>
      refine iff_of_false (fun same => nomatch same) ?_
      rintro ⟨rfl, above⟩
      exact Bool.false_ne_true (above.symm.trans below)
    · next above =>
      rw [Except.ok.injEq]
      refine ⟨?_, And.left⟩
      rintro rfl
      exact ⟨rfl, by simpa using above⟩

/-- Linting is not what arguments ask for before any value is looked at. -/
theorem eager?_ne_lint (given : Arguments) (request : LintRequest) :
    eager? given ≠ some (.lint request) := by
  intro eager
  obtain ⟨topic, -, same⟩ := List.exists_of_findSome?_eq_some eager
  cases topic <;> cases same

/-- The limit of a request is the one that its arguments give. -/
theorem exists_of_ofArguments
    {arguments : List String}
    {request : LintRequest}
    (asked : Command.ofArguments arguments = .ok (.lint request)) :
    ∃ given, Arguments.read arguments = .ok given ∧
      (given.value? .timeout).mapM readTimeout = .ok request.timeout? := by
  unfold Command.ofArguments at asked
  split at asked
  · contradiction
  · next given read =>
    refine ⟨given, read, ?_⟩
    split at asked
    · next command eager =>
      cases asked
      exact absurd eager (eager?_ne_lint given request)
    · cases requested : LintRequest.ofArguments given with
      | error refusal =>
        rw [requested] at asked
        contradiction
      | ok found =>
        rw [requested] at asked
        cases asked
        obtain ⟨-, -, requested⟩ := bind_eq_ok_iff.mp requested
        obtain ⟨format, -, requested⟩ := bind_eq_ok_iff.mp requested
        obtain ⟨timeout?, known, requested⟩ := bind_eq_ok_iff.mp requested
        cases requested
        exact known

/-- The limit of a plan is that of the request, or else that of the configuration. -/
theorem LintRequest.exists_of_plan
    {request : LintRequest}
    {host : Files.Host}
    {directory : Files.PathName}
    {plan : Config.Plan}
    (planned : (request.plan host directory).1 = .ok plan) :
    ∃ settings, (Config.load host directory request.config?).result = .ok settings ∧
      plan.timeout? = (request.timeout? <|> settings.timeout?) := by
  unfold LintRequest.plan at planned
  dsimp only at planned
  split at planned
  · contradiction
  · next settings loaded =>
    obtain ⟨rules, -, rfl⟩ := map_eq_ok_iff.mp planned
    exact ⟨settings, loaded, rfl⟩

/-- The limit of a plan is a number above zero from the configuration, or what the option accepts. -/
theorem limit_cases
    {arguments : List String}
    {request : LintRequest}
    {host : Files.Host}
    {directory : Files.PathName}
    {plan : Config.Plan}
    (asked : Command.ofArguments arguments = .ok (.lint request))
    (planned : (request.plan host directory).1 = .ok plan) :
    ∃ given, Arguments.read arguments = .ok given ∧
      (given.value? .timeout = none ∧ IsLimit plan.timeout? ∨
        ∃ text seconds, given.value? .timeout = some text ∧ readTimeout text = .ok seconds ∧
          plan.timeout? = some seconds) := by
  obtain ⟨given, read, limit_eq⟩ := exists_of_ofArguments asked
  obtain ⟨settings, loaded, timeout?_eq⟩ := LintRequest.exists_of_plan planned
  refine ⟨given, read, ?_⟩
  cases text? : given.value? .timeout with
  | none =>
    rw [text?] at limit_eq
    rw [timeout?_eq, ← Except.ok.inj limit_eq]
    exact .inl ⟨rfl, Config.isLimit_load host directory request.config? settings loaded⟩
  | some text =>
    rw [text?] at limit_eq
    obtain ⟨seconds, accepted, same⟩ := bind_eq_ok_iff.mp limit_eq
    refine .inr ⟨text, seconds, rfl, accepted, ?_⟩
    rw [timeout?_eq, ← Except.ok.inj same]
    rfl

/-- However files are read, all lintings keep to the limit of the plan. -/
theorem timeout?_of_reaches
    {host : Files.Host}
    {plan : Config.Plan}
    {precision : Precision}
    {isShown : Bool}
    {files : List Files.PathName}
    {last : Batch.Reading}
    (path : Batch.Reading.Reaches host plan files (.start precision precedence isShown files.length)
      last)
    {linting : Linting}
    (held : linting ∈ last.batch.lintings) :
    linting.timeout? = plan.timeout? := by
  have each : last.Each host files fun document linting =>
      linting.toSetting = Batch.setting plan precision document :=
    path.each (fun _ => rfl) fun _ linting _ same now turn =>
      (Linting.setting_take linting now turn).trans same
  obtain ⟨index, known⟩ := List.mem_iff_getElem?.mp held
  obtain ⟨-, document, -, -, same⟩ := each index linting known
  exact congrArg Linting.Setting.timeout? same

/-- The lintings that the program starts have no limit or a number above zero as their limit, unless the
option asks for no number at all.  That is the only text that the option accepts although a
configuration may not say so. -/
theorem limits_of_lintings
    {arguments : List String}
    {request : LintRequest}
    {host : Files.Host}
    {directory : Files.PathName}
    {plan : Config.Plan}
    (asked : Command.ofArguments arguments = .ok (.lint request))
    (planned : (request.plan host directory).1 = .ok plan) :
    (∀ text seconds, readTimeout text = .ok seconds ↔
        Binary64.read? text.toList = some seconds ∧
          (IsPositiveNumber (.float seconds) ∨ seconds = .nan)) ∧
      (∀ seconds, plan.timeout? = some seconds →
        IsPositiveNumber (.float seconds) ∨ seconds = .nan) ∧
      (plan.timeout? = some .nan ↔ ∃ given text, Arguments.read arguments = .ok given ∧
        given.value? .timeout = some text ∧ Binary64.read? text.toList = some .nan) ∧
      ∀ precedence files last,
        Batch.Reading.Reaches host plan files (.start .binary64 precedence true files.length) last →
          ∀ linting ∈ last.batch.lintings, linting.timeout? = plan.timeout? := by
  have unnumbered : ¬IsPositiveNumber (.float .nan) := by
    rw [isPositiveNumber_float_iff]
    decide
  obtain ⟨given, read, cases⟩ := limit_cases asked planned
  refine ⟨fun _ _ => readTimeout_eq_ok_iff, ?_, ?_,
    fun _ _ _ path _ held => timeout?_of_reaches path held⟩
  · intro seconds known
    rcases cases with ⟨-, limited⟩ | ⟨text, number, -, accepted, same⟩
    · exact .inl (limited seconds known)
    · rw [same] at known
      cases known
      exact (readTimeout_eq_ok_iff.mp accepted).2
  · rcases cases with ⟨text?, limited⟩ | ⟨text, number, text?, accepted, same⟩
    · refine iff_of_false (fun known => unnumbered (limited _ known)) ?_
      rintro ⟨other, text, again, given?, -⟩
      cases read.symm.trans again
      cases text?.symm.trans given?
    · have number_eq := (readTimeout_eq_ok_iff.mp accepted).1
      rw [same, Option.some.injEq]
      constructor
      · rintro rfl
        exact ⟨given, text, read, text?, number_eq⟩
      · rintro ⟨other, text, again, given?, nan⟩
        cases read.symm.trans again
        cases text?.symm.trans given?
        exact Option.some.inj (number_eq.symm.trans nan)

/-- A configuration that sets a limit, and a drawing. -/
def limitTree : Files.Host :=
  Files.FileNode.host (.directory
    [("rc.toml", .file "timeout = 2".toUTF8.toList), ("a.svg", .file "<svg/>".toUTF8.toList)])

/-- The request to lint the drawing by the configuration, but for the limit. -/
def limitRequest (timeout? : Option Binary64) : LintRequest where
  files := ["a.svg"]
  config? := some ⟨.relative, ["rc.toml"]⟩
  level := .warning
  timeout? := timeout?
  console := ⟨false, .text, none⟩

/-- The limit of the configuration holds if the request has none. -/
theorem plan_limitTree (timeout? : Option Binary64) :
    ((limitRequest timeout?).plan limitTree ⟨.slash, []⟩).1 =
      .ok ⟨[], [], timeout? <|> some (.finite false 4503599627370496 (-51))⟩ := by
  have configured : limitTree.find ("/" ++ "rc.toml") = .ok (.file "timeout = 2".toUTF8.toList) :=
    find_entry rfl rfl (by decide) rfl (by simp)
  have read : limitTree.readBytes ("/" ++ "rc.toml") = .ok "timeout = 2".toUTF8.toList :=
    readBytes_entry rfl rfl (by decide) rfl rfl
  have name_eq : (Files.PathName.join ⟨.slash, []⟩ ⟨.relative, ["rc.toml"]⟩).text =
      "/" ++ "rc.toml" := by
    decide
  have checked : (match (Config.load limitTree ⟨.slash, []⟩ (some ⟨.relative, ["rc.toml"]⟩)).result with
      | .ok settings => decide (settings.rules.isEmpty = true ∧ settings.ignore = [] ∧
          settings.timeout? = some (.finite false 4503599627370496 (-51)))
      | .error _ => false) = true := by
    unfold Config.load Config.loadFile Config.settingsIn Config.ConfigFile.isPresent
      Config.ConfigFile.table Files.Host.leadsTo
    simp only [name_eq, configured, read, Files.FileNode.isFile]
    decide +kernel
  simp only [LintRequest.plan, limitRequest]
  split at checked
  · next settings loaded =>
    obtain ⟨unruled, ignore_eq, limit_eq⟩ := of_decide_eq_true checked
    rw [loaded]
    simp only [Config.Plan.ofSettings, List.isEmpty_iff.mp unruled, ignore_eq, limit_eq]
    rfl
  · contradiction

theorem limits_of_lintings_of_configured :
    let arguments := ["-c", "rc.toml", "a.svg"]
    (Command.ofArguments arguments = .ok (.lint (limitRequest none)) ∧
      ((limitRequest none).plan limitTree ⟨.slash, []⟩).1 =
        .ok ⟨[], [], some (.finite false 4503599627370496 (-51))⟩) ∧
      IsPositiveNumber (.float (.finite false 4503599627370496 (-51))) := by
  intro arguments
  have asked : Command.ofArguments arguments = .ok (.lint (limitRequest none)) := by decide +kernel
  have planned := plan_limitTree none
  have limits := limits_of_lintings asked planned
  refine ⟨⟨asked, planned⟩, ?_⟩
  rcases limits.2.1 _ rfl with positive | nan
  · exact positive
  · cases nan

/-- The option sets no number at all as the limit, which a configuration may not do. -/
theorem limit_of_no_number :
    Command.ofArguments ["-c", "rc.toml", "--timeout", "nan", "a.svg"] =
        .ok (.lint (limitRequest (some .nan))) ∧
      ((limitRequest (some .nan)).plan limitTree ⟨.slash, []⟩).1 = .ok ⟨[], [], some .nan⟩ ∧
      ¬IsPositiveNumber (.float .nan) ∧
      Config.Settings.ofValue (.table [("timeout", .float .nan)]) none =
        .error (.error ⟨.problems [.timeoutNotPositive], none⟩) := by
  refine ⟨by decide +kernel, plan_limitTree _, ?_, rfl⟩
  rw [isPositiveNumber_float_iff]
  decide

end CommandLine
end MarkupLint
