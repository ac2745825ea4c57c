import MarkupLint.Proofs.Performance
import MarkupLint.Proofs.Traversal

/-!
# Uses of a reporter in sequence

A new reporter is used for reports and to be done, in any order and as often as one likes, while the
clock is moved.  It delivers the reports up to the first time that it is done, and knows how many
they are and when the last of them was made.  It tells once that it is done.  Every report from then
on leaves it as it is, and is noted in the log by one warning.
-/

namespace MarkupLint
namespace Reporter

/-! ## Histories -/

/-- Reports are delivered, in order, until the reporter is done, and dropped from then on. -/
def IsHistory (effects : List Effect) (reports : List Diagnostic) (isFinished : Bool) : Prop :=
  ∃ late : List LogRecord, effects =
    reports.map .delivered ++ if isFinished then .finished :: late.map .dropped else []

theorem IsHistory.delivered_eq
    {effects : List Effect}
    {reports : List Diagnostic}
    {isFinished : Bool}
    (history : IsHistory effects reports isFinished) :
    delivered effects = reports := by
  obtain ⟨late, rfl⟩ := history
  have none : delivered (late.map .dropped) = [] := by simp [delivered]
  rw [delivered_append]
  cases isFinished with
  | false => simp [delivered]
  | true =>
    rw [if_pos rfl, ← List.singleton_append, delivered_append, none]
    simp [delivered]

/-- Nothing is delivered behind the effect that the reporter is done. -/
theorem IsHistory.delivered_behind
    {first second : List Effect}
    {reports : List Diagnostic}
    {isFinished : Bool}
    (history : IsHistory (first ++ second) reports isFinished)
    (finished : .finished ∈ first) :
    delivered second = [] := by
  obtain ⟨late, effects_eq⟩ := history
  induction first generalizing reports with
  | nil => contradiction
  | cons effect rest ih =>
    cases reports with
    | nil =>
      cases isFinished with
      | false => simp at effects_eq
      | true =>
        have behind : rest ++ second = late.map .dropped := (List.cons.inj effects_eq).2
        have dropped : ∃ more, second = List.map Effect.dropped more := by
          obtain ⟨early, more, -, -, rfl⟩ := List.append_eq_map_iff.mp behind
          exact ⟨more, rfl⟩
        obtain ⟨more, rfl⟩ := dropped
        simp [delivered]
    | cons report reports =>
      obtain ⟨rfl, behind⟩ := List.cons.inj effects_eq
      exact ih (by simpa using finished) behind

/-- The uses of a reporter that was not done have a history, and the reporter counts the reports that
are delivered. -/
theorem Used.exists_isHistory
    {before after : Reporter}
    {effects : List Effect}
    (used : Used before after effects)
    (running : before.isFinished = false) :
    ∃ reports, IsHistory effects reports after.isFinished ∧
      after.activity = before.activity + reports.length := by
  induction used with
  | refl => exact ⟨[], ⟨[], by simp [running]⟩, rfl⟩
  | @thenReport middle effects used now severity message node? ih =>
    obtain ⟨reports, ⟨late, rfl⟩, activity_eq⟩ := ih
    cases finished : middle.isFinished with
    | true =>
      rw [report_of_isFinished finished, finished]
      exact ⟨reports, ⟨late ++ [droppedRecord middle.rule message], by simp⟩, activity_eq⟩
    | false =>
      simp only [Reporter.report, finished]
      refine ⟨reports ++ [⟨middle.rule, middle.index, severity, message, node?⟩], ⟨[], by simp⟩, ?_⟩
      rw [List.length_append, activity_eq, Nat.add_assoc]
      rfl
  | @thenFinish middle effects used ih =>
    obtain ⟨reports, ⟨late, rfl⟩, activity_eq⟩ := ih
    simp only [Reporter.finish]
    cases finished : middle.isFinished with
    | true => exact ⟨reports, ⟨late, by simp [finished]⟩, activity_eq⟩
    | false => exact ⟨reports, ⟨[], by simp⟩, activity_eq⟩

/-! ## Uses -/

/-- What can be done with a reporter and the clock that it looks at. -/
inductive Use where
  | report (severity : Severity) (message : String) (node? : Option String)
  /-- Report a failure as an error. -/
  | fail (failure : Failure) (node? : Option String)
  | finish
  /-- Let the clock show another instant. -/
  | moveClock (now : Rat)
deriving DecidableEq, Repr

/-- A reporter, and what the clock shows. -/
structure Clocked where
  reporter : Reporter
  now : Rat
deriving DecidableEq, Repr

namespace Clocked

/-- Do something with the reporter. -/
def act (clocked : Clocked) (act : Reporter → Reporter × List Effect) : Clocked × List Effect :=
  let acted := act clocked.reporter
  (⟨acted.1, clocked.now⟩, acted.2)

/-- Use the reporter or the clock. -/
def use (clocked : Clocked) : Use → Clocked × List Effect
  | .report severity message node? =>
    clocked.act (·.report clocked.now severity message node?)
  | .fail failure node? => clocked.act (·.fail clocked.now failure node?)
  | .finish => clocked.act (·.finish)
  | .moveClock now => (⟨clocked.reporter, now⟩, [])

/-- Use them several times, with all effects in order. -/
def useAll (clocked : Clocked) : List Use → Clocked × List Effect
  | [] => (clocked, [])
  | use :: rest =>
    let used := clocked.use use
    let others := used.1.useAll rest
    (others.1, used.2 ++ others.2)

theorem useAll_append (clocked : Clocked) (first second : List Use) :
    clocked.useAll (first ++ second) =
      let begun := clocked.useAll first
      let ended := begun.1.useAll second
      (ended.1, begun.2 ++ ended.2) := by
  induction first generalizing clocked with
  | nil => rfl
  | cons use rest ih => simp only [List.cons_append, useAll, ih, List.append_assoc]

end Clocked

/-! ## Reports that are made -/

/-- The message of a use that is a report. -/
def Use.message? : Use → Option String
  | report _ message _ => some message
  | fail failure _ => some failure.report
  | finish => none
  | moveClock _ => none

/-- The reports that are made by some uses, with the instants at which they are made. -/
def made (rule : String) (index : Int) (now : Rat) : List Use → List (Rat × Diagnostic)
  | [] => []
  | .report severity message node? :: rest =>
    (now, ⟨rule, index, severity, message, node?⟩) :: made rule index now rest
  | .fail failure node? :: rest =>
    (now, ⟨rule, index, .error, failure.report, node?⟩) :: made rule index now rest
  | .finish :: rest => made rule index now rest
  | .moveClock later :: rest => made rule index later rest

/-- The uses up to the first time that the reporter is done. -/
def early (uses : List Use) : List Use := uses.takeWhile (· ≠ .finish)

/-- The messages of the reports that are made later than that. -/
def lateMessages (uses : List Use) : List String :=
  (uses.dropWhile (· ≠ .finish)).filterMap Use.message?

theorem early_eq_self {uses : List Use} (running : .finish ∉ uses) : early uses = uses :=
  takeWhile_ne_eq_self running

theorem lateMessages_eq_nil {uses : List Use} (running : .finish ∉ uses) :
    lateMessages uses = [] := by
  rw [lateMessages, dropWhile_ne_eq_nil running]
  rfl

theorem early_append
    {before : List Use}
    (running : .finish ∉ before)
    (behind : List Use) :
    early (before ++ .finish :: behind) = before :=
  takeWhile_ne_append running behind

theorem lateMessages_append
    {before : List Use}
    (running : .finish ∉ before)
    (behind : List Use) :
    lateMessages (before ++ .finish :: behind) = behind.filterMap Use.message? := by
  rw [lateMessages, dropWhile_ne_append running]
  rfl

theorem rule_eq_of_mem_made
    {rule : String}
    {index : Int}
    {now : Rat}
    {uses : List Use}
    {report : Rat × Diagnostic}
    (known : report ∈ made rule index now uses) :
    report.2.rule = rule ∧ report.2.index = index := by
  induction uses generalizing now with
  | nil => contradiction
  | cons use rest ih =>
    cases use with
    | finish => exact ih known
    | moveClock later => exact ih known
    | _ =>
      rcases List.mem_cons.mp known with rfl | known
      · exact ⟨rfl, rfl⟩
      · exact ih known

/-- The instant that a use lets the clock show. -/
def Use.instant? : Use → Option Rat
  | moveClock now => some now
  | _ => none

/-- The clock is never moved back. -/
def IsForward (now : Rat) (uses : List Use) : Prop :=
  (now :: uses.filterMap Use.instant?).Pairwise (· ≤ ·)

theorem IsForward.le_of_mem_made
    {rule : String}
    {index : Int}
    {now : Rat}
    {uses : List Use}
    (forward : IsForward now uses)
    {report : Rat × Diagnostic}
    (known : report ∈ made rule index now uses) :
    now ≤ report.1 := by
  induction uses generalizing now with
  | nil => contradiction
  | cons use rest ih =>
    cases use with
    | finish => exact ih forward known
    | moveClock later =>
      obtain ⟨after, forward⟩ := List.pairwise_cons.mp forward
      exact Rat.le_trans (after later List.mem_cons_self) (ih forward known)
    | _ =>
      rcases List.mem_cons.mp known with rfl | known
      · exact Rat.le_refl
      · exact ih forward known

theorem IsForward.pairwise_made
    {rule : String}
    {index : Int}
    {now : Rat}
    {uses : List Use}
    (forward : IsForward now uses) :
    (made rule index now uses).Pairwise fun report later => report.1 ≤ later.1 := by
  induction uses generalizing now with
  | nil => exact .nil
  | cons use rest ih =>
    cases use with
    | finish => exact ih forward
    | moveClock later => exact ih (List.pairwise_cons.mp forward).2
    | _ =>
      have ahead : IsForward now rest := forward
      exact .cons (fun other known => ahead.le_of_mem_made known) (ih ahead)

theorem IsForward.exists_last
    {rule : String}
    {index : Int}
    {now : Rat}
    {uses : List Use}
    (forward : IsForward now uses)
    {report : Rat × Diagnostic}
    (known : report ∈ made rule index now uses) :
    ∃ last, (made rule index now uses).getLast?.map (·.1) = some last ∧ report.1 ≤ last := by
  have ordered := @IsForward.pairwise_made rule index now uses forward
  cases found : (made rule index now uses).getLast? with
  | none =>
    rw [List.getLast?_eq_none_iff.mp found] at known
    contradiction
  | some last =>
    obtain ⟨before, same⟩ := List.getLast?_eq_some_iff.mp found
    rw [same] at ordered known
    refine ⟨last.1, rfl, ?_⟩
    rcases List.mem_append.mp known with earlier | itself
    · exact (List.pairwise_append.mp ordered).2.2 report earlier last List.mem_cons_self
    · obtain rfl := List.mem_singleton.mp itself
      exact Rat.le_refl

theorem IsForward.early {now : Rat} {uses : List Use} (forward : IsForward now uses) :
    IsForward now (early uses) :=
  forward.sublist (((List.takeWhile_sublist _).filterMap _).cons_cons now)

/-! ## What the reporter makes of them -/

/-- The records of the log among effects, in order. -/
def records (effects : List Effect) : List LogRecord :=
  effects.filterMap fun effect =>
    match effect with
    | .dropped record => some record
    | _ => none

theorem useAll_of_isFinished
    {reporter : Reporter}
    (finished : reporter.isFinished = true)
    (now : Rat)
    (uses : List Use) :
    (Clocked.useAll ⟨reporter, now⟩ uses).1.reporter = reporter ∧
      (Clocked.useAll ⟨reporter, now⟩ uses).2 =
        (uses.filterMap Use.message?).map fun message =>
          .dropped (droppedRecord reporter.rule message) := by
  induction uses generalizing now with
  | nil => exact ⟨rfl, rfl⟩
  | cons use rest ih =>
    cases use with
    | moveClock later => exact ih later
    | finish =>
      simp only [Clocked.useAll, Clocked.use, Clocked.act, finish, finished, if_true]
      exact ih now
    | _ =>
      obtain ⟨reporter_eq, effects_eq⟩ := ih now
      simp only [Clocked.useAll, Clocked.use, Clocked.act, fail, report_of_isFinished finished]
      exact ⟨reporter_eq, congrArg (_ :: ·) effects_eq⟩

/-- The reporter that has delivered some reports more. -/
def having (reporter : Reporter) (reports : List (Rat × Diagnostic)) : Reporter :=
  { reporter with
    activity := reporter.activity + reports.length
    lastReport? := (reports.getLast?.map (·.1)).or reporter.lastReport? }

theorem having_cons
    (reporter : Reporter)
    (report : Rat × Diagnostic)
    (reports : List (Rat × Diagnostic)) :
    reporter.having (report :: reports) = (reporter.having [report]).having reports := by
  have activity_eq : reporter.activity + (report :: reports).length =
      reporter.activity + [report].length + reports.length := by
    rw [List.length_cons, List.length_singleton, Nat.add_assoc, Nat.add_comm 1]
  have last_eq : ((report :: reports).getLast?.map (·.1)).or reporter.lastReport? =
      (reports.getLast?.map (·.1)).or (some report.1) := by
    cases known : reports.getLast? <;> simp [List.getLast?_cons, known]
  simp only [having, activity_eq, last_eq]
  rfl

/-- As long as it is not done, a reporter delivers every report. -/
theorem useAll_of_running
    {reporter : Reporter}
    (running : reporter.isFinished = false)
    {uses : List Use}
    (unused : .finish ∉ uses)
    (now : Rat) :
    (Clocked.useAll ⟨reporter, now⟩ uses).1.reporter =
        reporter.having (made reporter.rule reporter.index now uses) ∧
      (Clocked.useAll ⟨reporter, now⟩ uses).2 =
        (made reporter.rule reporter.index now uses).map (.delivered ·.2) := by
  induction uses generalizing reporter now with
  | nil => exact ⟨rfl, rfl⟩
  | cons use rest ih =>
    obtain ⟨goesOn, others⟩ := not_or.mp (mt List.mem_cons.mpr unused)
    have delivers : ∀ severity message node?,
        reporter.report now severity message node? =
          (reporter.having [(now, ⟨reporter.rule, reporter.index, severity, message, node?⟩)],
            [.delivered ⟨reporter.rule, reporter.index, severity, message, node?⟩]) := by
      intro severity message node?
      simp [report, running, having]
    cases use with
    | moveClock later => exact ih running others later
    | finish => contradiction
    | _ =>
      simp only [Clocked.useAll, Clocked.use, Clocked.act, fail, delivers, made]
      obtain ⟨reporter_eq, effects_eq⟩ := @ih (reporter.having [_]) running others now
      exact ⟨reporter_eq.trans (having_cons _ _ _).symm, congrArg (_ :: ·) effects_eq⟩

/-- A new reporter after some uses, and their effects. -/
def afterUses (rule : String) (index : Int) (start : Rat) (uses : List Use) :
    Clocked × List Effect :=
  Clocked.useAll ⟨new rule index, start⟩ uses

theorem afterUses_of_running
    {uses : List Use}
    (unused : .finish ∉ uses)
    (rule : String)
    (index : Int)
    (start : Rat) :
    (afterUses rule index start uses).1.reporter =
        (new rule index).having (made rule index start (early uses)) ∧
      (afterUses rule index start uses).2 =
        (made rule index start (early uses)).map (.delivered ·.2) := by
  rw [early_eq_self unused]
  exact useAll_of_running rfl unused start

theorem afterUses_of_finished
    {uses : List Use}
    (finished : .finish ∈ uses)
    (rule : String)
    (index : Int)
    (start : Rat) :
    (afterUses rule index start uses).1.reporter =
        { (new rule index).having (made rule index start (early uses)) with isFinished := true } ∧
      (afterUses rule index start uses).2 =
        (made rule index start (early uses)).map (.delivered ·.2) ++
          .finished :: (lateMessages uses).map fun message =>
            .dropped (droppedRecord rule message) := by
  obtain ⟨before, behind, rfl, unused⟩ := List.eq_append_cons_of_mem finished
  obtain ⟨reporter_eq, effects_eq⟩ := afterUses_of_running unused rule index start
  rw [early_eq_self unused] at reporter_eq effects_eq
  rw [early_append unused, lateMessages_append unused, afterUses, Clocked.useAll_append]
  rw [afterUses] at reporter_eq effects_eq
  generalize Clocked.useAll ⟨new rule index, start⟩ before = begun at reporter_eq effects_eq ⊢
  generalize made rule index start before = reports at reporter_eq effects_eq ⊢
  obtain ⟨⟨reporter, now⟩, effects⟩ := begun
  obtain rfl : reporter = (new rule index).having reports := reporter_eq
  obtain rfl : effects = reports.map (.delivered ·.2) := effects_eq
  obtain ⟨kept, dropped⟩ := @useAll_of_isFinished
    { (new rule index).having reports with isFinished := true } rfl now behind
  exact ⟨kept, congrArg (_ ++ .finished :: ·) dropped⟩

theorem reporter_afterUses (rule : String) (index : Int) (start : Rat) (uses : List Use) :
    (afterUses rule index start uses).1.reporter =
      ⟨rule, index, decide (.finish ∈ uses), (made rule index start (early uses)).length,
        (made rule index start (early uses)).getLast?.map (·.1)⟩ := by
  have counted : ∀ reports, (new rule index).having reports =
      ⟨rule, index, false, reports.length, reports.getLast?.map (·.1)⟩ := by
    intro reports
    simp [having, new]
  by_cases finished : .finish ∈ uses
  · rw [(afterUses_of_finished finished rule index start).1, counted, decide_eq_true finished]
  · rw [(afterUses_of_running finished rule index start).1, counted, decide_eq_false finished]

theorem effects_afterUses (rule : String) (index : Int) (start : Rat) (uses : List Use) :
    (afterUses rule index start uses).2 =
      (made rule index start (early uses)).map (.delivered ·.2) ++
        if .finish ∈ uses then
          .finished :: (lateMessages uses).map fun message => .dropped (droppedRecord rule message)
        else [] := by
  split
  · next finished => exact (afterUses_of_finished finished rule index start).2
  · next unused =>
    rw [List.append_nil]
    exact (afterUses_of_running unused rule index start).2

/-- A report to a reporter that is done leaves it as it is, and is noted in the log. -/
theorem use_of_isFinished
    {clocked : Clocked}
    (finished : clocked.reporter.isFinished = true)
    {use : Use}
    {message : String}
    (reports : use.message? = some message) :
    clocked.use use = (clocked, [.dropped (droppedRecord clocked.reporter.rule message)]) := by
  cases use with
  | finish => contradiction
  | moveClock now => contradiction
  | _ =>
    cases reports
    simp only [Clocked.use, Clocked.act, fail, report_of_isFinished finished]

/-- What becomes of a new reporter that is used, and what comes of the uses. -/
structure Serves (rule : String) (index : Int) (start : Rat) (uses : List Use) : Prop where
  /-- The reports that are made before the reporter is done are delivered. -/
  delivered_eq : delivered (afterUses rule index start uses).2 =
    (made rule index start (early uses)).map (·.2)
  attributed : ∀ diagnostic ∈ delivered (afterUses rule index start uses).2,
    diagnostic.rule = rule ∧ diagnostic.index = index
  /-- It is told once that the reporter is done, if it is done at all. -/
  count_finished : (afterUses rule index start uses).2.count .finished =
    if .finish ∈ uses then 1 else 0
  isFinished_iff : (afterUses rule index start uses).1.reporter.isFinished = true ↔ .finish ∈ uses
  activity_eq : (afterUses rule index start uses).1.reporter.activity =
    (delivered (afterUses rule index start uses).2).length
  /-- The last report is the last of those that are delivered. -/
  lastReport?_eq : (afterUses rule index start uses).1.reporter.lastReport? =
    (made rule index start (early uses)).getLast?.map (·.1)
  /-- It is also the latest of them, unless the clock is moved back. -/
  latest : IsForward start uses → ∀ report ∈ made rule index start (early uses),
    ∃ last, (afterUses rule index start uses).1.reporter.lastReport? = some last ∧ report.1 ≤ last
  /-- The log has a record for each report that is made when the reporter is done, and no other. -/
  records_eq : records (afterUses rule index start uses).2 =
    (lateMessages uses).map (droppedRecord rule)
  /-- Such a report leaves the reporter as it is, and comes to one warning in the log. -/
  late : ∀ before use after message, uses = before ++ use :: after → .finish ∈ before →
    use.message? = some message →
      (afterUses rule index start before).1.use use =
          ((afterUses rule index start before).1, [.dropped (droppedRecord rule message)]) ∧
        (droppedRecord rule message).level = .warning
  /-- First the reports are delivered, then it is told that the reporter is done, and then the other
  reports are dropped. -/
  effects_eq : (afterUses rule index start uses).2 =
    (made rule index start (early uses)).map (.delivered ·.2) ++
      if .finish ∈ uses then
        .finished :: (lateMessages uses).map fun message => .dropped (droppedRecord rule message)
      else []

/-- A new reporter that is used serves as the channel of an instance, whatever the uses are. -/
theorem serves_uses (rule : String) (index : Int) (start : Rat) (uses : List Use) :
    Serves rule index start uses := by
  have reporter_eq := reporter_afterUses rule index start uses
  have effects_eq := effects_afterUses rule index start uses
  have history : IsHistory (afterUses rule index start uses).2
      ((made rule index start (early uses)).map (·.2)) (decide (.finish ∈ uses)) := by
    refine ⟨(lateMessages uses).map (droppedRecord rule), ?_⟩
    simpa [Function.comp_def] using effects_eq
  refine {
    effects_eq
    delivered_eq := history.delivered_eq
    attributed := fun diagnostic known => ?_
    count_finished := ?_
    isFinished_iff := ?_
    activity_eq := ?_
    lastReport?_eq := ?_
    latest := fun forward report known => ?_
    records_eq := ?_
    late := ?_ }
  · rw [history.delivered_eq] at known
    obtain ⟨report, made, rfl⟩ := List.mem_map.mp known
    exact rule_eq_of_mem_made made
  · have noneEarly : ((made rule index start (early uses)).map fun report =>
        Effect.delivered report.2).count .finished = 0 := List.count_eq_zero.mpr (by simp)
    have noneLate : ((lateMessages uses).map fun message =>
        Effect.dropped (droppedRecord rule message)).count .finished = 0 :=
      List.count_eq_zero.mpr (by simp)
    rw [effects_eq, List.count_append, noneEarly]
    split <;> simp [noneLate]
  · rw [reporter_eq, decide_eq_true_iff]
  · rw [reporter_eq, history.delivered_eq, List.length_map]
  · rw [reporter_eq]
  · rw [reporter_eq]
    exact forward.early.exists_last known
  · rw [effects_eq]
    split
    · simp [records, List.filterMap_map]
    · next unused => simp [records, List.filterMap_map, lateMessages_eq_nil unused]
  · rintro before use after message - finished reports
    have done := reporter_afterUses rule index start before
    rw [decide_eq_true finished] at done
    refine ⟨?_, rfl⟩
    rw [use_of_isFinished (by rw [done]) reports, done]

end Reporter
end MarkupLint
