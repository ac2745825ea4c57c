import MarkupLint.Proofs.Linting.Follow
import MarkupLint.Proofs.Performance

/-!
# Prospects

When an instance may be idle as long as it likes, its script alone decides what it reports and
whether it is done in the end: the prospect of the script.  How long the instance sleeps does not
matter, since every stretch of its steps goes on where the one before has come to rest.
-/

namespace MarkupLint

/-- What is to be expected: the reports, and whether the instance is done in the end. -/
structure Prospect where
  diagnostics : List Diagnostic
  isDone : Bool
deriving DecidableEq, Repr, Inhabited

/-- The prospect with other reports before. -/
def Prospect.behind (prospect : Prospect) (diagnostics : List Diagnostic) : Prospect :=
  { prospect with diagnostics := diagnostics ++ prospect.diagnostics }

namespace Performance

/-- A performance that goes on is one of the same reporter with effects before. -/
theorem start_behind {performance : Performance} (goesOn : performance.ending? = none) :
    (start performance.reporter).behind performance.effects = performance := by
  obtain ⟨reporter, effects, ending?⟩ := performance
  subst goesOn
  simp only [start, behind, List.append_nil]

/-- Let the reporter be done if the script has ended. -/
def settle (now : Rat) (performance : Performance) : Performance :=
  match performance.ending? with
  | none => performance
  | some .completed => performance.use (·.finish)
  | some (.failed failure) => (performance.use (·.fail now failure none)).use (·.finish)
  | some .cancelled =>
    (performance.use (·.report now .error "Rule was cancelled before it finished" none)).use
      (·.finish)

/-- What a performance has led to. -/
def prospect (performance : Performance) : Prospect :=
  ⟨Reporter.delivered performance.effects, performance.reporter.isFinished⟩

variable {first second : Performance}

theorem settle_behind
    (performance : Performance)
    (now : Rat)
    (effects : List Reporter.Effect) :
    (performance.behind effects).settle now = (performance.settle now).behind effects := by
  have same : (performance.behind effects).ending? = performance.ending? := rfl
  simp only [settle, same]
  split
  · rfl
  · exact performance.behind_use effects _
  · rw [behind_use, behind_use]
  · rw [behind_use, behind_use]

theorem timeless_settle (same : first.timeless = second.timeless) (now later : Rat) :
    (first.settle now).timeless = (second.settle later).timeless := by
  have ending_eq := congrArg ending? same
  simp only [timeless] at ending_eq
  simp only [settle, ending_eq]
  split
  · exact same
  · exact timeless_use same Reporter.timeless_finish
  · exact timeless_use (timeless_use same (Reporter.timeless_fail now later _ none))
      Reporter.timeless_finish
  · refine timeless_use (timeless_use same ?_) Reporter.timeless_finish
    exact Reporter.timeless_report now later .error (fun _ => _) none fun _ => rfl

theorem prospect_eq_of_timeless (same : first.timeless = second.timeless) :
    first.prospect = second.prospect := by
  have effects_eq := congrArg effects same
  have finished_eq := congrArg (·.reporter.isFinished) same
  simp only [timeless, Reporter.timeless] at effects_eq finished_eq
  rw [prospect, prospect, effects_eq, finished_eq]

theorem prospect_behind (performance : Performance) (effects : List Reporter.Effect) :
    (performance.behind effects).prospect =
      performance.prospect.behind (Reporter.delivered effects) := by
  simp only [prospect, behind, Prospect.behind, Reporter.delivered, List.filterMap_append]

/-- Nothing is to be expected of a reporter that is done. -/
theorem prospect_of_isFinished
    {reporter : Reporter}
    {performance : Performance}
    (finished : reporter.isFinished = true)
    (goes : (start reporter).Extends performance) :
    performance.prospect = ⟨[], true⟩ := by
  obtain ⟨effects, effects_eq, used⟩ := goes
  have conduct := used.conduct
  have silent : Reporter.delivered effects = [] := by
    apply List.filterMap_eq_nil_iff.mpr
    intro effect known
    cases effect with
    | delivered diagnostic => exact absurd known (conduct.silent finished diagnostic)
    | _ => rfl
  rw [prospect, effects_eq]
  simp only [start, List.nil_append, silent, conduct.isFinished_of_isFinished finished]

theorem Extends.settle (performance : Performance) (now : Rat) :
    performance.Extends (performance.settle now) := by
  simp only [Performance.settle]
  split
  · exact .refl performance
  · exact .use performance _ (.finish _)
  · exact (Extends.use performance _ (.fail _ _ _ _)).trans (.use _ _ (.finish _))
  · exact (Extends.use performance _ (.report _ _ _ _ _)).trans (.use _ _ (.finish _))

end Performance

namespace Step

/-- Perform steps to their end, without sleeping; a step that hangs is the last one. -/
def performAll (document : Document) (now : Rat) (before : Performance) : List Step → Performance
  | [] => before.stop .completed
  | .act action :: rest =>
    let after := action.perform document now before
    if after.ending?.isSome then after else performAll document now after rest
  | .sleep _ _ _ :: rest => performAll document now before rest
  | .hang _ _ :: _ => before

variable {document : Document} {now : Rat}

theorem performAll_behind
    (before : Performance)
    (effects : List Reporter.Effect)
    (steps : List Step) :
    performAll document now (before.behind effects) steps =
      (performAll document now before steps).behind effects := by
  induction steps generalizing before with
  | nil => rfl
  | cons step rest ih =>
    cases step with
    | act action =>
      have same : ∀ performance : Performance,
          (performance.behind effects).ending? = performance.ending? := fun _ => rfl
      simp only [performAll, Action.perform_behind, same]
      split
      · rfl
      · exact ih _
    | sleep seconds onCancel swallows => exact ih before
    | hang onCancel swallows => rfl

theorem timeless_performAll
    {later : Rat}
    {first second : Performance}
    (same : first.timeless = second.timeless)
    (steps : List Step) :
    (performAll document now first steps).timeless =
      (performAll document later second steps).timeless := by
  induction steps generalizing first second with
  | nil => exact Performance.timeless_stop same _
  | cons step rest ih =>
    cases step with
    | act action =>
      have performed := @Action.timeless_perform document now later first second same action
      have ending_eq := congrArg Performance.ending? performed
      simp only [Performance.timeless] at ending_eq
      simp only [performAll, ending_eq]
      split
      · exact performed
      · exact ih performed
    | sleep seconds onCancel swallows => exact ih same
    | hang onCancel swallows => exact same

theorem extends_performAll (before : Performance) (steps : List Step) :
    before.Extends (performAll document now before steps) := by
  induction steps generalizing before with
  | nil => exact .stop before .completed
  | cons step rest ih =>
    cases step with
    | act action =>
      have performed := action.extends_perform document now before
      simp only [performAll]
      split
      · exact performed
      · exact performed.trans (ih _)
    | sleep seconds onCancel swallows => exact ih before
    | hang onCancel swallows => exact .refl before

end Step

namespace Linting

/-- What a task has ahead, without sleeping. -/
def Task.ahead (document : Document) (now : Rat) (reporter : Reporter) : Task → Performance
  | absent => .start reporter
  | fresh steps => Step.performAll document now (.start reporter) steps
  | resting (.sleep _ _ _) rest => Step.performAll document now (.start reporter) rest
  | resting _ _ => .start reporter
  | rested _ rest => Step.performAll document now (.start reporter) rest
  | ended ending => (Performance.start reporter).stop ending

/-- Performing steps to their end is running them up to the next rest, and then what is ahead. -/
theorem Stretch.performAll_eq
    (document : Document)
    (now : Rat)
    (before : Performance)
    (goesOn : before.ending? = none)
    (steps : List Step) :
    let stretch := run document now before steps
    Step.performAll document now before steps =
      (stretch.task.ahead document now stretch.reporter).behind stretch.effects := by
  have ends : ∀ (performance : Performance) (ending : Ending), performance.ending? = some ending →
      ((Performance.start performance.reporter).stop ending).behind performance.effects =
        performance := by
    rintro ⟨reporter, effects, ending?⟩ ending rfl
    simp [Performance.start, Performance.stop, Performance.behind]
  intro stretch
  induction steps generalizing before with
  | nil => exact (ends (before.stop .completed) .completed rfl).symm
  | cons step rest ih =>
    cases step with
    | act action =>
      simp only [stretch, Step.performAll, run]
      cases ending : (action.perform document now before).ending? with
      | none => exact ih _ ending
      | some ending => exact (ends _ _ ending).symm
    | sleep seconds onCancel swallows =>
      have later := @Step.performAll_behind document now (.start before.reporter) before.effects rest
      rw [Performance.start_behind goesOn] at later
      simp only [stretch, Step.performAll, run, later]
      split <;> rfl
    | hang onCancel swallows => exact (Performance.start_behind goesOn).symm

namespace Member

/-- What is to be expected of a member from now on. -/
def prospect (document : Document) (member : Member) : Prospect :=
  ((member.task.ahead document 0 member.reporter).settle 0).prospect

/-- What is to be expected does not depend on the instant. -/
theorem prospect_eq (document : Document) (now : Rat) (member : Member) :
    member.prospect document =
      ((member.task.ahead document now member.reporter).settle now).prospect := by
  refine Performance.prospect_eq_of_timeless (Performance.timeless_settle ?_ 0 now)
  cases member.task with
  | absent => rfl
  | fresh steps => exact Step.timeless_performAll rfl steps
  | resting step rest =>
    cases step with
    | sleep seconds onCancel swallows => exact Step.timeless_performAll rfl rest
    | _ => rfl
  | rested step rest => exact Step.timeless_performAll rfl rest
  | ended ending => rfl

/-- Nothing is to be expected of a member that is done. -/
theorem prospect_of_isFinished
    {member : Member}
    (finished : member.reporter.isFinished = true)
    (document : Document) :
    member.prospect document = ⟨[], true⟩ := by
  refine Performance.prospect_of_isFinished finished (.trans ?_ (.settle _ 0))
  cases member.task with
  | absent => exact .refl _
  | fresh steps => exact Step.extends_performAll _ steps
  | resting step rest =>
    cases step with
    | sleep seconds onCancel swallows => exact Step.extends_performAll _ rest
    | _ => exact .refl _
  | rested step rest => exact Step.extends_performAll _ rest
  | ended ending => exact .stop _ ending

end Member

end Linting
end MarkupLint
