import MarkupLint.Proofs.Linting.Fulfilment
import MarkupLint.Proofs.Linting.Lockstep

/-!
# Durations of sleeps

What is to be expected of an instance follows from its script.  The durations of its sleeps do not
matter: a script promises what it promises when no sleep takes time.
-/

namespace MarkupLint

mutual

/-- The step without the durations of its sleeps. -/
def Step.untimed : Step → Step
  | .act action => .act action
  | .sleep _ onCancel swallows => .sleep 0 (untimedAll onCancel) swallows
  | .hang onCancel swallows => .hang (untimedAll onCancel) swallows

/-- Steps without the durations of their sleeps. -/
def Step.untimedAll : List Step → List Step
  | [] => []
  | step :: rest => step.untimed :: untimedAll rest

end

/-- The script without the durations of its sleeps. -/
def Script.untimed (script : Script) : Script :=
  { script with awaited? := script.awaited?.map Step.untimedAll }

theorem Step.performAll_untimedAll
    (document : Document)
    (now : Rat)
    (before : Performance)
    (steps : List Step) :
    performAll document now before (untimedAll steps) = performAll document now before steps := by
  induction steps generalizing before with
  | nil => rfl
  | cons step rest ih =>
    cases step with
    | act action =>
      simp only [untimedAll, untimed, performAll]
      split
      · rfl
      · exact ih _
    | sleep seconds onCancel swallows => exact ih before
    | hang onCancel swallows => rfl

namespace Script

/-- Perform a script to its end, without sleeping.  What stops the run at once is not settled. -/
def perform (document : Document) (now : Rat) (reporter : Reporter) (script : Script) :
    Performance :=
  let performed := Action.performAll document now (.start reporter) script.immediate
  match performed.ending?.bind Ending.escape? with
  | some _ => performed
  | none =>
    match performed.ending?, script.awaited? with
    | some _, _ => performed.settle now
    | none, none => (performed.stop .completed).settle now
    | none, some steps => (Step.performAll document now performed steps).settle now

theorem perform_untimed
    (document : Document)
    (now : Rat)
    (reporter : Reporter)
    (script : Script) :
    script.untimed.perform document now reporter = script.perform document now reporter := by
  obtain ⟨immediate, awaited?⟩ := script
  cases awaited? with
  | none => rfl
  | some steps =>
    simp only [perform, untimed, Option.map_some]
    cases (Action.performAll document now (.start reporter) immediate).ending? with
    | none => simp only [Step.performAll_untimedAll]
    | some ending =>
      cases ending.escape? <;> rfl

theorem timeless_perform
    {reporter other : Reporter}
    (document : Document)
    (now later : Rat)
    (same : reporter.timeless = other.timeless)
    (script : Script) :
    (script.perform document now reporter).timeless =
      (script.perform document later other).timeless := by
  have begun : (Performance.start reporter).timeless = (Performance.start other).timeless := by
    simp only [Performance.timeless, Performance.start, same]
  have performed := @Action.timeless_performAll document now later _ _ begun script.immediate
  have ending_eq := congrArg Performance.ending? performed
  simp only [Performance.timeless] at ending_eq
  simp only [perform, ending_eq]
  generalize (Action.performAll document later (.start other) script.immediate).ending? = ending?
  cases ending?.bind Ending.escape? with
  | some failure => exact performed
  | none =>
    simp only
    split
    · exact Performance.timeless_settle performed now later
    · exact Performance.timeless_settle (Performance.timeless_stop performed _) now later
    · exact Performance.timeless_settle (Step.timeless_performAll performed _) now later

/-- What is to be expected of an instance that follows the script. -/
def prospect (document : Document) (reporter : Reporter) (script : Script) : Prospect :=
  (script.perform document 0 reporter).prospect

theorem prospect_eq_of_untimed
    {script other : Script}
    (same : script.untimed = other.untimed)
    (document : Document)
    (reporter : Reporter) :
    script.prospect document reporter = other.prospect document reporter := by
  rw [prospect, prospect, ← perform_untimed, same, perform_untimed]

theorem escape?_eq_of_untimed
    {script other : Script}
    (same : script.untimed = other.untimed)
    (document : Document) :
    script.escape? document = other.escape? document := by
  have immediate_eq : script.immediate = other.immediate := congrArg (·.immediate) same
  rw [escape?, escape?, immediateEnding?, immediateEnding?, immediate_eq]

end Script

namespace Linting
namespace Member

/-- How a member is left that is invoked: with steps to go, or with nothing more to do. -/
inductive Entered (setting : Setting) (now : Rat) (member : Member) (after : Course) : Prop where
  | launched
      (performed : Performance)
      (steps : List Step)
      (performed_eq : performed =
        Action.performAll setting.document now (.start member.reporter) member.script.immediate)
      (goesOn : performed.ending? = none)
      (awaits : member.script.awaited? = some steps)
      (member_eq : after.member = { member with
        reporter := performed.reporter, task := .fresh steps, supervision := .fresh })
      (turns_eq : after.turns = [.soon .task, .soon .supervisor])
      (delivered_eq : delivered after.effects = Reporter.delivered performed.effects)
  | spent
      (performed : Performance)
      (performed_eq : performed = member.script.perform setting.document now member.reporter)
      (member_eq : after.member = { member with reporter := performed.reporter })
      (turns_eq : after.turns = [])
      (delivered_eq : delivered after.effects = Reporter.delivered performed.effects)
      (stopped : member.script.awaited? = none ∨ (Action.performAll setting.document now
        (.start member.reporter) member.script.immediate).ending? ≠ none)

/-- Settling the reporter behind the immediate actions is settling the performance of them. -/
theorem Entered.of_settled
    {setting : Setting}
    {now : Rat}
    {member : Member}
    {performed : Performance}
    {course last : Course}
    (ending? : Option Ending)
    (performed_eq : Action.performAll setting.document now (.start member.reporter)
      member.script.immediate = performed)
    (member_eq : course.member = { member with reporter := performed.reporter })
    (turns_eq : course.turns = [])
    (delivered_eq : delivered course.effects = Reporter.delivered performed.effects)
    (stopped : member.script.awaited? = none ∨ performed.ending? ≠ none)
    (perform_eq : member.script.perform setting.document now member.reporter =
      Performance.settle now { performed with ending? := ending? })
    (last_eq : last.member = { course.member with
      reporter := ((⟨performed.reporter, [], ending?⟩ : Performance).settle now).reporter })
    (lastTurns_eq : last.turns = course.turns)
    (lastDelivered_eq : delivered last.effects = delivered course.effects ++ Reporter.delivered
      ((⟨performed.reporter, [], ending?⟩ : Performance).settle now).effects) :
    Entered setting now member last := by
  have behind : Performance.settle now { performed with ending? := ending? } =
      ((⟨performed.reporter, [], ending?⟩ : Performance).settle now).behind performed.effects := by
    rw [← Performance.settle_behind]
    simp only [Performance.behind, List.append_nil]
  refine .spent _ (perform_eq.trans behind).symm ?_ (lastTurns_eq.trans turns_eq) ?_
    (performed_eq ▸ stopped)
  · rw [last_eq, member_eq]
    rfl
  · rw [lastDelivered_eq, delivered_eq]
    simp only [Performance.behind, Reporter.delivered, List.filterMap_append]

theorem entered
    {member : Member}
    (deaf : member.watch ≠ .waiting)
    (setting : Setting)
    (now : Rat) :
    Entered setting now member (member.invoke setting now).1 := by
  generalize performed_eq :
    Action.performAll setting.document now (.start member.reporter) member.script.immediate =
      performed
  have used := @Course.use_eq (Course.start member) deaf
    fun _ => (performed.reporter, performed.effects)
  simp only [invoke, performed_eq]
  generalize (Course.start member).use (fun _ => (performed.reporter, performed.effects)) = course
    at used
  obtain ⟨member_eq, turns_eq, delivered_eq⟩ := used
  have still : course.member.watch ≠ .waiting := by
    rw [member_eq]
    exact deaf
  have reporter_eq : course.member.reporter = performed.reporter := by rw [member_eq]
  have finished := Course.use_eq still (·.finish)
  rw [reporter_eq] at finished
  obtain ⟨finished_eq, finishedTurns_eq, finishedDelivered_eq⟩ := finished
  cases ended : performed.ending? with
  | none =>
    simp only [Option.bind_none]
    cases awaited : member.script.awaited? with
    | none =>
      refine .of_settled (some .completed) performed_eq member_eq turns_eq delivered_eq
        (.inl awaited) ?_ finished_eq finishedTurns_eq finishedDelivered_eq
      simp only [Script.perform, performed_eq, ended, awaited]
      rfl
    | some steps =>
      refine .launched performed steps performed_eq.symm ended awaited ?_ ?_ ?_
      · simp only [Course.proceed, Course.launch, Course.member_emit, Course.member_modify, member_eq]
        rfl
      · simp only [Course.proceed, Course.launch, Course.turns, Course.effects_emit,
          List.filter_append] at turns_eq ⊢
        rw [Course.effects_modify, turns_eq]
        rfl
      · simp only [Course.proceed, Course.launch, Course.effects_emit, delivered,
          List.filterMap_append] at delivered_eq ⊢
        rw [Course.effects_modify, delivered_eq]
        simp [Course.start]
  | some ending =>
    have ends : performed.ending? ≠ none := by simp [ended]
    simp only [Option.bind_some]
    cases escapes : ending.escape? with
    | some failure =>
      refine .spent performed ?_ member_eq turns_eq delivered_eq (.inr (performed_eq ▸ ends))
      simp only [Script.perform, performed_eq, ended, Option.bind_some, escapes]
    | none =>
      have perform_eq : member.script.perform setting.document now member.reporter =
          Performance.settle now { performed with ending? := some ending } := by
        simp only [Script.perform, performed_eq, ended, Option.bind_some, escapes]
        rw [← ended]
      cases ending with
      | completed =>
        exact .of_settled (some .completed) performed_eq member_eq turns_eq delivered_eq (.inr ends)
          perform_eq finished_eq finishedTurns_eq finishedDelivered_eq
      | failed failure =>
        have failed := Course.use_finish_eq still (·.fail now failure none) (some (.failed failure))
        rw [reporter_eq] at failed
        obtain ⟨failed_eq, failedTurns_eq, failedDelivered_eq⟩ := failed
        exact .of_settled (some (.failed failure)) performed_eq member_eq turns_eq delivered_eq
          (.inr ends) perform_eq failed_eq failedTurns_eq failedDelivered_eq
      | cancelled => contradiction

/-- A member that is invoked is to do what its script promises. -/
theorem Entered.prospect_eq
    {setting : Setting}
    {now : Rat}
    {member : Member}
    {after : Course}
    (entered : Entered setting now member after)
    (idle : member.task = .absent) :
    (after.member.prospect setting.document).behind (delivered after.effects) =
      member.script.prospect setting.document member.reporter := by
  have promised : member.script.prospect setting.document member.reporter =
      (member.script.perform setting.document now member.reporter).prospect :=
    Performance.prospect_eq_of_timeless (member.script.timeless_perform _ _ _ rfl)
  rw [promised]
  cases entered with
  | launched performed steps performed_eq goesOn awaits member_eq turns_eq delivered_eq =>
    have perform_eq : member.script.perform setting.document now member.reporter =
        (Step.performAll setting.document now performed steps).settle now := by
      simp only [Script.perform, ← performed_eq, goesOn, Option.bind_none, awaits]
    have split := @Step.performAll_behind setting.document now (.start performed.reporter)
      performed.effects steps
    rw [Performance.start_behind goesOn] at split
    rw [perform_eq, split, Performance.settle_behind, Performance.prospect_behind, delivered_eq,
      after.member.prospect_eq _ now, member_eq]
    rfl
  | spent performed performed_eq member_eq turns_eq delivered_eq =>
    have nothing : after.member.prospect setting.document =
        ⟨[], performed.reporter.isFinished⟩ := by
      rw [member_eq, prospect, idle]
      rfl
    rw [nothing, delivered_eq, ← performed_eq]
    simp only [Prospect.behind, List.append_nil, Performance.prospect]

end Member

namespace Solo

/-- A member that has not been invoked has nothing on its schedule, and needs nothing. -/
theorem sound_idle
    {place : Nat}
    {member : Member}
    (untouched : member.Untouched)
    (schedule : Schedule SessionTurn) :
    (Solo.idle place member schedule).Sound := by
  obtain ⟨rule, index, script, rfl⟩ := untouched
  constructor <;> simp [Solo.idle, Member.new, Schedule.entries, Schedule.empty, Task.isReady,
    Task.isSleeping, Supervision.isReady]

/-- A member that is invoked has what it needs on its schedule. -/
theorem sound_invoke
    {place : Nat}
    {member : Member}
    (untouched : member.Untouched)
    (setting : Setting)
    (schedule : Schedule SessionTurn) :
    ((Solo.idle place member schedule).follow (member.invoke setting schedule.now).1).Sound := by
  obtain ⟨rule, index, script, rfl⟩ := untouched
  have entered := @Member.entered (.new rule index script) Watch.noConfusion setting schedule.now
  generalize ((Member.new rule index script).invoke setting schedule.now).1 = after at entered
  have count : ∀ turns, after.turns = turns → (∀ own, .cancel own ∉ turns) → ∀ turn,
      ((Solo.idle place (.new rule index script) schedule).follow after).schedule.entries.count turn =
        turns.countP (·.brings turn) := by
    rintro _ rfl kept turn
    rw [schedule_follow, count_entries_foldl_obey (kept turn)]
    simp [Solo.idle, Schedule.entries, Schedule.empty]
  have solo_eq : ((Solo.idle place (.new rule index script) schedule).follow after).member =
      after.member := rfl
  generalize (Solo.idle place (.new rule index script) schedule).follow after = solo at count solo_eq ⊢
  cases entered with
  | launched performed steps performed_eq goesOn awaits member_eq turns_eq delivered_eq =>
    have counts := count _ turns_eq (by simp)
    rw [member_eq] at solo_eq
    constructor <;> simp [solo_eq, counts, Member.new, Member.Effect.brings, Task.isSleeping]
  | spent performed performed_eq member_eq turns_eq delivered_eq =>
    have counts := count _ turns_eq (by simp)
    rw [member_eq] at solo_eq
    constructor <;> simp [solo_eq, counts, Member.new, Task.isReady, Task.isSleeping,
      Supervision.isReady]

/-- A solo that begins with the invocation of its member is to do what the script promises. -/
theorem prospect_invoke
    {place : Nat}
    {member : Member}
    (untouched : member.Untouched)
    (setting : Setting)
    (schedule : Schedule SessionTurn) :
    ((Solo.idle place member schedule).follow (member.invoke setting schedule.now).1).prospect
        setting.document = member.script.prospect setting.document member.reporter := by
  obtain ⟨rule, index, script, rfl⟩ := untouched
  exact (@Member.entered (.new rule index script) Watch.noConfusion setting
    schedule.now).prospect_eq rfl

end Solo
end Linting
end MarkupLint
