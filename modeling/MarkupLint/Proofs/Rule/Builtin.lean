import MarkupLint.Proofs.Linting.Configured
import MarkupLint.Proofs.Linting.Immediate
import MarkupLint.Proofs.Linting.Isolation

/-!
# Checks of elements and attributes

The instances of the rules for elements and attributes do everything at once: they only report, or
fail, and their failures are such as those who handle failures handle.  Such an instance reports an error
when one of its reports is an error or when it fails.
-/

namespace MarkupLint

/-- A failure that those who handle failures handle is no cancellation. -/
theorem Failure.isCancellation_of_isException
    {failure : Failure}
    (handled : failure.isException = true) :
    failure.isCancellation = false := by
  unfold isException at handled
  unfold isCancellation
  split at handled
  · next families ranked => rw [ranked]; rfl
  · contradiction

/-- A refused selector amounts to a failure that those who handle failures handle. -/
theorem Selector.Refusal.isException_failure (refusal : Refusal) :
    refusal.failure.isException = true := by
  rw [failure]
  split <;> rfl

/-- An action only reports something that it describes itself, or fails with what those who handle
failures handle. -/
def Action.IsPlain : Action → Prop
  | report _ _ .nothing => True
  | report _ _ (.described _) => True
  | fail failure => failure.isException = true
  | _ => False

/-- A performance has not let its reporter be done, and has at most ended with a failure that those who
handle failures handle. -/
structure Performance.IsPlain (performance : Performance) : Prop where
  unfinished : performance.reporter.isFinished = false
  ending : performance.ending? = none ∨
    ∃ failure, performance.ending? = some (.failed failure) ∧ failure.isException = true

namespace Action

variable {document : Document} {now : Rat} {before : Performance}

theorem isPlain_perform
    {action : Action}
    (plain : before.IsPlain)
    (isPlain : action.IsPlain) :
    (action.perform document now before).IsPlain := by
  have reported : ∀ severity message node?,
      (before.use (·.report now severity message node?)).IsPlain := by
    intro severity message node?
    refine ⟨?_, plain.ending⟩
    simp only [Performance.use, Reporter.report, plain.unfinished, Bool.false_eq_true, if_false]
  cases action with
  | report severity message target =>
    cases target with
    | selected selector index => exact isPlain.elim
    | _ => exact reported severity message _
  | fail failure =>
    have handled : failure.isException = true := isPlain
    refine ⟨plain.unfinished, .inr ⟨failure, ?_, handled⟩⟩
    rw [perform, Performance.fail, Failure.isCancellation_of_isException handled]
    rfl
  | _ => exact isPlain.elim

theorem isPlain_performAll
    {actions : List Action}
    (plain : before.IsPlain)
    (arePlain : ∀ action ∈ actions, action.IsPlain) :
    (performAll document now before actions).IsPlain := by
  induction actions generalizing before with
  | nil => exact plain
  | cons action rest ih =>
    have after := @isPlain_perform document now before action plain (arePlain _ List.mem_cons_self)
    simp only [performAll]
    split
    · exact after
    · exact ih after fun other known => arePlain other (List.mem_cons_of_mem _ known)

end Action

namespace Rule

theorem Expectation.isPlain_reports
    {expectation : Expectation}
    {selector : String}
    {nodes : List Node}
    {action : Action}
    (known : action ∈ expectation.reports selector nodes) :
    action.IsPlain := by
  have counted : ∀ bounds message, (countReport bounds message).IsPlain := by
    intro bounds message
    rw [countReport]
    split
    · trivial
    · rfl
  simp only [reports] at known
  split at known
  · contradiction
  · cases expectation with
    | none =>
      obtain ⟨node, -, rfl⟩ := List.mem_map.mp known
      trivial
    | some =>
      rw [List.mem_singleton.mp known]
      trivial
    | _ =>
      rw [List.mem_singleton.mp known]
      exact counted _ _

theorem ElementCheck.isPlain_actions
    {check : ElementCheck}
    {document : Document}
    {action : Action}
    (known : action ∈ check.actions document) :
    action.IsPlain := by
  obtain ⟨⟨selector, expectation⟩, -, held⟩ := List.mem_flatMap.mp known
  unfold actionsFor at held
  split at held
  · next refusal _ =>
    rw [List.mem_singleton.mp held]
    exact refusal.isException_failure
  · exact Expectation.isPlain_reports held

theorem AttributeCheck.isPlain_actions
    {check : AttributeCheck}
    {document : Document}
    {action : Action}
    (known : action ∈ check.actions document) :
    action.IsPlain := by
  unfold actions at known
  split at known
  · next refusal _ =>
    rw [List.mem_singleton.mp known]
    exact refusal.isException_failure
  · obtain ⟨node, -, held⟩ := List.mem_flatMap.mp known
    obtain ⟨message, -, rfl⟩ := List.mem_map.mp held
    trivial

namespace Instance

/-- Whether this is an instance of one of the rules for elements and attributes. -/
def isBuiltin : Instance → Bool
  | elements _ => true
  | attributes _ => true
  | _ => false

/-- What calling an instance on a document with a reporter leads to. -/
def call (configured : Instance) (document : Document) (reporter : Reporter) : Performance :=
  Action.performAll document 0 (.start reporter) (configured.script document).immediate

/-- An instance that is called on a document reports an error or fails. -/
def ReportsError (configured : Instance) (document : Document) (reporter : Reporter) : Prop :=
  (∃ diagnostic, .delivered diagnostic ∈ (configured.call document reporter).effects ∧
      diagnostic.severity = .error) ∨
    ∃ failure, (configured.call document reporter).ending? = some (.failed failure)

variable {configured : Instance} {document : Document}

theorem isPlain_call
    {reporter : Reporter}
    (isBuiltin : configured.isBuiltin = true)
    (unfinished : reporter.isFinished = false) :
    (configured.call document reporter).IsPlain := by
  refine Action.isPlain_performAll ⟨unfinished, .inl rfl⟩ fun action known => ?_
  cases configured with
  | elements check =>
    simp only [script] at known
    exact ElementCheck.isPlain_actions known
  | attributes check =>
    simp only [script] at known
    exact AttributeCheck.isPlain_actions known
  | _ => contradiction

theorem isImmediate_script
    (isBuiltin : configured.isBuiltin = true)
    (document : Document) :
    (configured.script document).IsImmediate document := by
  refine ⟨?_, ?_⟩
  · cases configured with
    | elements check => rfl
    | attributes check => rfl
    | _ => contradiction
  · have ending := (@isPlain_call configured document (.new "" 0) isBuiltin rfl).ending
    rw [call, Script.ending?_immediate] at ending
    rcases ending with ending | ⟨failure, ending, handled⟩
    · rw [Script.escape?, ending]
      rfl
    · simp [Script.escape?, ending, Ending.escape?, handled]

/-- What an instance forecasts has an error just when it reports one or fails. -/
theorem exists_error_forecast
    {rule : String}
    {number : Nat}
    (isBuiltin : configured.isBuiltin = true) :
    (∃ diagnostic ∈ (Linting.Member.new rule number (configured.script document)).forecast document,
        diagnostic.severity = .error) ↔
      configured.ReportsError document (.new rule number) := by
  have immediate := isImmediate_script isBuiltin document
  have plain := @isPlain_call configured document (.new rule number) isBuiltin rfl
  have mem : ∀ (effects : List Reporter.Effect) diagnostic,
      diagnostic ∈ Reporter.delivered effects ↔ .delivered diagnostic ∈ effects := by
    intro effects diagnostic
    simp only [Reporter.delivered, List.mem_filterMap]
    constructor
    · rintro ⟨effect, known, same⟩
      cases effect <;> cases same
      exact known
    · exact fun known => ⟨_, known, rfl⟩
  rw [Linting.Member.forecast, Script.prospect, Performance.prospect, ReportsError]
  simp only [Linting.Member.new, Script.perform, immediate.awaited?_eq]
  rw [show Action.performAll document 0 (.start (.new rule number))
    (configured.script document).immediate = configured.call document (.new rule number) from rfl]
  generalize configured.call document (.new rule number) = performed at plain
  obtain ⟨reporter, effects, ending?⟩ := performed
  obtain ⟨unfinished, rfl | ⟨failure, rfl, handled⟩⟩ := plain
  · simp only at unfinished
    simp [Performance.settle, Performance.stop, Performance.use, Reporter.finish, unfinished,
      mem]
  · simp only at unfinished
    simp [Performance.settle, Performance.use, Reporter.fail, Reporter.report, Reporter.finish,
      Ending.escape?, handled, unfinished, mem]

end Instance
end Rule

namespace Linting

/-- All instances are instances of the rules for elements and attributes. -/
def RuleSet.IsBuiltin (rules : RuleSet) : Prop :=
  ∀ rule ∈ rules, ∀ configured ∈ rule.2, configured.isBuiltin = true

instance (rules : RuleSet) : Decidable rules.IsBuiltin :=
  inferInstanceAs (Decidable (∀ rule ∈ rules, ∀ configured ∈ rule.2, configured.isBuiltin = true))

namespace RuleSet.IsBuiltin

variable {rules : RuleSet}

theorem isImmediate_new
    (builtin : rules.IsBuiltin)
    (document : Document)
    (timeout? : Option Binary64)
    (precision : Precision) :
    (Linting.new document rules timeout? precision).IsImmediate := by
  intro member held
  obtain ⟨rule, named, known⟩ := List.mem_flatMap.mp held
  obtain ⟨number, configured, found, rfl⟩ := mem_membersOf.mp known
  exact Rule.Instance.isImmediate_script
    (builtin rule named configured (List.mem_of_getElem? found)) document

theorem isContained (builtin : rules.IsBuiltin) (document : Document) :
    rules.IsContained document :=
  fun rule named configured held =>
    (Rule.Instance.isImmediate_script (builtin rule named configured held) document).contained

/-- What is forecast of a document has an error just when one of the instances reports one or
fails. -/
theorem state_forecast_eq_error_iff
    (builtin : rules.IsBuiltin)
    (document : Document)
    (timeout? : Option Binary64)
    (precision : Precision) :
    (Linting.new document rules timeout? precision).forecast.state = .error ↔
      ∃ rule ∈ rules, ∃ (number : Nat) (configured : Rule.Instance),
        rule.2[number]? = some configured ∧
          configured.ReportsError document (.new rule.1 number) := by
  have unfrozen : (Linting.new document rules timeout? precision).diagnostics.isFrozen = false :=
    (Balanced.new document rules timeout? precision).isFrozen_eq
  have none : (Linting.new document rules timeout? precision).diagnostics.diagnostics = [] := by
    rw [diagnostics_new]
    exact Collection.perm_afterDeclaring.eq_nil
  rw [Collection.state_eq_error_iff, forecast, Collection.diagnostics_freeze]
  simp only [Collection.mem_diagnostics_foldl_accept unfrozen, none, List.not_mem_nil, false_or,
    List.mem_flatMap]
  constructor
  · rintro ⟨diagnostic, ⟨member, held, forecast⟩, isError⟩
    obtain ⟨rule, named, known⟩ := List.mem_flatMap.mp held
    obtain ⟨number, configured, found, rfl⟩ := mem_membersOf.mp known
    refine ⟨rule, named, number, configured, found, ?_⟩
    exact (Rule.Instance.exists_error_forecast
      (builtin rule named configured (List.mem_of_getElem? found))).mp ⟨diagnostic, forecast, isError⟩
  · rintro ⟨rule, named, number, configured, found, reports⟩
    obtain ⟨diagnostic, forecast, isError⟩ := (Rule.Instance.exists_error_forecast
      (builtin rule named configured (List.mem_of_getElem? found))).mpr reports
    refine ⟨diagnostic, ⟨.new rule.1 number (configured.script document), ?_, forecast⟩, isError⟩
    exact List.mem_flatMap.mpr ⟨rule, named, mem_membersOf.mpr ⟨number, configured, found, rfl⟩⟩

end RuleSet.IsBuiltin
end Linting

end MarkupLint
