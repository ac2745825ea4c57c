import MarkupLint.Proofs.Conduct

/-!
# What performing actions depends on

How a script ends depends on its actions and the document, neither on the instant nor on the
reporter.  What is reported does not depend on the instants either, and what has been done before is
no more than a prefix of what is done.
-/

namespace MarkupLint
namespace Reporter

/-- The reporter without the time of its last report. -/
def timeless (reporter : Reporter) : Reporter := { reporter with lastReport? := none }

/-- The reports that are delivered, in order. -/
def delivered (effects : List Effect) : List Diagnostic :=
  effects.filterMap fun effect =>
    match effect with
    | .delivered diagnostic => some diagnostic
    | _ => none

theorem delivered_append (first second : List Effect) :
    delivered (first ++ second) = delivered first ++ delivered second :=
  List.filterMap_append

/-- A use of a reporter that takes no account of the time. -/
def Timeless (first second : Reporter → Reporter × List Effect) : Prop :=
  ∀ reporter other : Reporter, reporter.timeless = other.timeless →
    (first reporter).1.timeless = (second other).1.timeless ∧ (first reporter).2 = (second other).2

theorem timeless_report
    (now later : Rat)
    (severity : Severity)
    (message : Reporter → String)
    (node? : Option String)
    (same : ∀ reporter, message reporter.timeless = message reporter) :
    Timeless (fun reporter => reporter.report now severity (message reporter) node?)
      (fun reporter => reporter.report later severity (message reporter) node?) := by
  intro reporter other alike
  have message_eq : message reporter = message other := by rw [← same, alike, same]
  obtain ⟨rule, index, isFinished, activity, last⟩ := reporter
  obtain ⟨otherRule, otherIndex, otherIsFinished, otherActivity, otherLast⟩ := other
  simp only [timeless, mk.injEq] at alike
  obtain ⟨rfl, rfl, rfl, rfl, -⟩ := alike
  simp only [report, message_eq]
  split <;> exact ⟨rfl, rfl⟩

theorem timeless_fail (now later : Rat) (failure : Failure) (node? : Option String) :
    Timeless (·.fail now failure node?) (·.fail later failure node?) :=
  timeless_report now later .error (fun _ => failure.report) node? fun _ => rfl

/-- The time of the last report is the instant of the uses if something is delivered, and that from
before otherwise. -/
def IsStamped
    (before? : Option Rat)
    (now : Rat)
    (reporter : Reporter)
    (effects : List Effect) : Prop :=
  reporter.lastReport? = if delivered effects = [] then before? else some now

theorem IsStamped.report
    {before? : Option Rat}
    {now : Rat}
    {reporter : Reporter}
    {effects : List Effect}
    (stamped : reporter.IsStamped before? now effects)
    (severity : Severity)
    (message : String)
    (node? : Option String) :
    (reporter.report now severity message node?).1.IsStamped before? now
      (effects ++ (reporter.report now severity message node?).2) := by
  unfold IsStamped Reporter.report at *
  rw [delivered_append]
  split
  · rw [stamped, show ∀ record, delivered [.dropped record] = [] from fun _ => rfl,
      List.append_nil]
  · exact (if_neg (List.append_ne_nil_of_right_ne_nil _ (List.cons_ne_nil _ _))).symm

theorem IsStamped.finish
    {before? : Option Rat}
    {now : Rat}
    {reporter : Reporter}
    {effects : List Effect}
    (stamped : reporter.IsStamped before? now effects) :
    reporter.finish.1.IsStamped before? now (effects ++ reporter.finish.2) := by
  unfold IsStamped Reporter.finish at *
  rw [delivered_append]
  split
  · rw [stamped, show delivered [] = [] from rfl, List.append_nil]
  · rw [stamped, show delivered [.finished] = [] from rfl, List.append_nil]

theorem timeless_finish : Timeless finish finish := by
  intro reporter other alike
  obtain ⟨rule, index, isFinished, activity, last⟩ := reporter
  obtain ⟨otherRule, otherIndex, otherIsFinished, otherActivity, otherLast⟩ := other
  simp only [timeless, mk.injEq] at alike
  obtain ⟨rfl, rfl, rfl, rfl, -⟩ := alike
  simp only [finish]
  split <;> exact ⟨rfl, rfl⟩

end Reporter

namespace Performance

/-- The performance without the time of its last report. -/
def timeless (performance : Performance) : Performance :=
  { performance with reporter := performance.reporter.timeless }

/-- The performance with other effects before. -/
def behind (performance : Performance) (effects : List Reporter.Effect) : Performance :=
  { performance with effects := effects ++ performance.effects }

theorem timeless_use
    {first second : Performance}
    {act other : Reporter → Reporter × List Reporter.Effect}
    (same : first.timeless = second.timeless)
    (alike : Reporter.Timeless act other) :
    (first.use act).timeless = (second.use other).timeless := by
  obtain ⟨reporter, effects, ending?⟩ := first
  obtain ⟨otherReporter, otherEffects, otherEnding?⟩ := second
  simp only [timeless, mk.injEq] at same
  obtain ⟨reporter_eq, rfl, rfl⟩ := same
  obtain ⟨used_eq, effects_eq⟩ := alike _ _ reporter_eq
  simp only [timeless, use, used_eq, effects_eq]

theorem timeless_stop
    {first second : Performance}
    (same : first.timeless = second.timeless)
    (ending : Ending) :
    (first.stop ending).timeless = (second.stop ending).timeless := by
  simp only [timeless, mk.injEq] at same
  simp only [timeless, stop, same]

theorem behind_use
    (performance : Performance)
    (effects : List Reporter.Effect)
    (act : Reporter → Reporter × List Reporter.Effect) :
    (performance.behind effects).use act = (performance.use act).behind effects := by
  simp only [behind, use, List.append_assoc]

end Performance

namespace Action

variable {document : Document} {now later : Rat} {first second : Performance}

theorem isStamped_perform
    {before? : Option Rat}
    (stamped : first.reporter.IsStamped before? now first.effects)
    (action : Action) :
    (action.perform document now first).reporter.IsStamped before? now
      (action.perform document now first).effects :=
  perform_induction (fun _ _ severity message node? held => held.report severity message node?)
    (fun _ _ held => held.finish) stamped document action

theorem isStamped_performAll
    {before? : Option Rat}
    (stamped : first.reporter.IsStamped before? now first.effects)
    (actions : List Action) :
    (performAll document now first actions).reporter.IsStamped before? now
      (performAll document now first actions).effects := by
  induction actions generalizing first with
  | nil => exact stamped
  | cons action rest ih =>
    have performed := @isStamped_perform document now first before? stamped action
    simp only [performAll]
    split
    · exact performed
    · exact ih performed

/-- How a performance ends does not depend on the instant or the reporter. -/
theorem ending?_perform (same : first.ending? = second.ending?) (action : Action) :
    (action.perform document now first).ending? =
      (action.perform document later second).ending? := by
  cases action with
  | report severity message target =>
    simp only [perform]
    split
    · rfl
    · exact same
  | reportFailure failure target =>
    simp only [perform]
    split
    · rfl
    · exact same
  | finish => exact same
  | fail failure => rfl
  | reportEach selector message =>
    have kept : ∀ (instant : Rat) (nodes : List Node) (performance : Performance),
        (nodes.foldl (fun performance node =>
          performance.use (·.report instant .info message (some node.element.describe)))
            performance).ending? = performance.ending? := by
      intro instant nodes
      induction nodes with
      | nil => exact fun _ => rfl
      | cons node rest ih => exact fun performance => ih _
    simp only [perform]
    split
    · rfl
    · rw [kept, kept, same]
  | reportStatus => exact same
  | leave => rfl
  | cancel => rfl

/-- What is performed does not depend on the instant. -/
theorem timeless_perform (same : first.timeless = second.timeless) (action : Action) :
    (action.perform document now first).timeless =
      (action.perform document later second).timeless := by
  cases action with
  | report severity message target =>
    simp only [perform]
    split
    · exact Performance.timeless_stop same _
    · exact Performance.timeless_use same
        (Reporter.timeless_report now later severity (fun _ => message) _ fun _ => rfl)
  | reportFailure failure target =>
    simp only [perform]
    split
    · exact Performance.timeless_stop same _
    · exact Performance.timeless_use same (Reporter.timeless_fail now later failure _)
  | finish => exact Performance.timeless_use same Reporter.timeless_finish
  | fail failure => exact Performance.timeless_stop same _
  | reportEach selector message =>
    simp only [perform]
    split
    · exact Performance.timeless_stop same _
    · next nodes found =>
      clear found
      induction nodes generalizing first second with
      | nil => exact same
      | cons node rest ih =>
        refine ih (Performance.timeless_use same ?_)
        exact Reporter.timeless_report now later .info (fun _ => message) _ fun _ => rfl
  | reportStatus =>
    exact Performance.timeless_use same
      (Reporter.timeless_report now later .info statusMessage none fun _ => rfl)
  | leave => exact Performance.timeless_stop same _
  | cancel => exact Performance.timeless_stop same _

/-- What has been done before is not looked at. -/
theorem perform_behind
    (document : Document)
    (now : Rat)
    (before : Performance)
    (effects : List Reporter.Effect)
    (action : Action) :
    action.perform document now (before.behind effects) =
      (action.perform document now before).behind effects := by
  cases action with
  | report severity message target =>
    simp only [perform]
    split
    · rfl
    · exact before.behind_use effects _
  | reportFailure failure target =>
    simp only [perform]
    split
    · rfl
    · exact before.behind_use effects _
  | finish => exact before.behind_use effects _
  | fail failure => rfl
  | reportEach selector message =>
    simp only [perform]
    split
    · rfl
    · next nodes found =>
      clear found
      induction nodes generalizing before with
      | nil => rfl
      | cons node rest ih =>
        rw [List.foldl_cons, List.foldl_cons, Performance.behind_use]
        exact ih _
  | reportStatus =>
    simp only [perform]
    exact before.behind_use effects _
  | leave => rfl
  | cancel => rfl

theorem timeless_performAll (same : first.timeless = second.timeless) (actions : List Action) :
    (performAll document now first actions).timeless =
      (performAll document later second actions).timeless := by
  induction actions generalizing first second with
  | nil => exact same
  | cons action rest ih =>
    have performed := @timeless_perform document now later first second same action
    have ending_eq := congrArg Performance.ending? performed
    simp only [Performance.timeless] at ending_eq
    simp only [performAll, ending_eq]
    split
    · exact performed
    · exact ih performed

theorem ending?_performAll (same : first.ending? = second.ending?) (actions : List Action) :
    (performAll document now first actions).ending? =
      (performAll document later second actions).ending? := by
  induction actions generalizing first second with
  | nil => exact same
  | cons action rest ih =>
    have performed := @ending?_perform document now later first second same action
    simp only [performAll, performed]
    split
    · exact performed
    · exact ih performed

end Action

/-- How the immediate actions of a script end it, if they do. -/
def Script.immediateEnding? (document : Document) (script : Script) : Option Ending :=
  (Action.performAll document 0 (.start (.new "" 0)) script.immediate).ending?

/-- How the immediate actions end a script does not depend on the instant or the reporter. -/
theorem Script.ending?_immediate
    (document : Document)
    (now : Rat)
    (reporter : Reporter)
    (script : Script) :
    (Action.performAll document now (.start reporter) script.immediate).ending? =
      script.immediateEnding? document := by
  rw [immediateEnding?]
  refine Action.ending?_performAll ?_ _
  rfl

/-- The failure with which a script ends in what it does at once, if nobody handles it. -/
def Script.escape? (document : Document) (script : Script) : Option Failure :=
  (script.immediateEnding? document).bind Ending.escape?

namespace Linting

/-- A member stops the run with the failure that nobody handles. -/
theorem Member.invoke_snd (setting : Setting) (now : Rat) (member : Member) :
    (member.invoke setting now).2 = member.script.escape? setting.document := by
  simp only [invoke, member.script.ending?_immediate]
  split
  · next failure escaped => exact escaped.symm
  · next contained => exact contained.symm

end Linting
end MarkupLint
