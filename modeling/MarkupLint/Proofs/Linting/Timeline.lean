import MarkupLint.Proofs.Linting.Prospect
import Mathlib.Algebra.Order.Field.Basic
import Mathlib.Algebra.Order.Field.Rat
import Mathlib.Tactic.Linarith

/-!
# Timelines

The timeline of an instance says what it reports and when, and when it is done, as long as nobody
cancels it.  A bound on idleness cuts it short where more than the bounding seconds pass without a
report.
-/

namespace MarkupLint

/-- What an instance does in the course of time. -/
inductive Timeline where
  /-- Nothing ever happens again. -/
  | silent
  /-- The instance is done. -/
  | done (instant : Rat)
  | report (instant : Rat) (diagnostic : Diagnostic) (rest : Timeline)
deriving DecidableEq, Repr, Inhabited

namespace Timeline

/-- The timeline with reports at one instant before. -/
def behind (timeline : Timeline) (now : Rat) (diagnostics : List Diagnostic) : Timeline :=
  diagnostics.foldr (report now) timeline

/-- What is performed at an instant, with nothing behind it. -/
def ofPerformance (now : Rat) (performance : Performance) : Timeline :=
  (if performance.reporter.isFinished then done now else silent).behind now
    (Reporter.delivered performance.effects)

/-- All reports, in order. -/
def reports : Timeline → List Diagnostic
  | report _ diagnostic rest => diagnostic :: rest.reports
  | _ => []

/-- The reports before an instant. -/
def reportsBefore (instant : Rat) : Timeline → List Diagnostic
  | report reported diagnostic rest =>
    if reported < instant then diagnostic :: rest.reportsBefore instant
    else rest.reportsBefore instant
  | _ => []

/-- The instants of the reports. -/
def reportInstants : Timeline → List Rat
  | report instant _ rest => instant :: rest.reportInstants
  | _ => []

/-- The instant at which the instance is done, if it ever is. -/
def done? : Timeline → Option Rat
  | silent => none
  | done instant => some instant
  | report _ _ rest => rest.done?

/-- At an instant, an instance that began at another one is not done, and more than the seconds have
passed since it began and since each of its reports so far. -/
structure IsIdle (timeline : Timeline) (start seconds instant : Rat) : Prop where
  begun : start + seconds < instant
  reported : ∀ report ∈ timeline.reportInstants, report ≤ instant → report + seconds < instant
  undone : ∀ done ∈ timeline.done?, instant < done

/-- The instant at which the seconds have passed since the last report, or since another instant,
unless the instance always reports, or is done, before. -/
def lapse? (seconds last : Rat) : Timeline → Option Rat
  | silent => some (last + seconds)
  | done instant => if last + seconds < instant then some (last + seconds) else none
  | report instant _ rest =>
    if last + seconds < instant then some (last + seconds) else rest.lapse? seconds instant

/-- Nothing happens just when the seconds have passed since the last report, or since another
instant. -/
def IsClear (seconds last : Rat) : Timeline → Prop
  | silent => True
  | done instant => instant ≠ last + seconds
  | report instant _ rest => instant ≠ last + seconds ∧ rest.IsClear seconds instant

/-- The reports up to the instant at which the seconds have passed without a report. -/
def heard (seconds last : Rat) : Timeline → List Diagnostic
  | report instant diagnostic rest =>
    if last + seconds < instant then [] else diagnostic :: rest.heard seconds instant
  | _ => []

/-- Nothing happens before an instant, and what happens is in the order of its instants. -/
def IsFrom (now : Rat) : Timeline → Prop
  | silent => True
  | done instant => now ≤ instant
  | report instant _ rest => now ≤ instant ∧ rest.IsFrom instant

instance decidableIsClear (seconds last : Rat) :
    (timeline : Timeline) → Decidable (timeline.IsClear seconds last)
  | silent => inferInstanceAs (Decidable True)
  | done instant => inferInstanceAs (Decidable (instant ≠ last + seconds))
  | report instant _ rest =>
    @instDecidableAnd (instant ≠ last + seconds) (rest.IsClear seconds instant) inferInstance
      (decidableIsClear seconds instant rest)

section

variable {seconds last now start : Rat} {timeline : Timeline} {diagnostics : List Diagnostic}

theorem IsFrom.mono (late : timeline.IsFrom now) (before : last ≤ now) : timeline.IsFrom last := by
  cases timeline with
  | silent => trivial
  | done instant => exact before.trans late
  | report instant diagnostic rest => exact ⟨before.trans late.1, late.2⟩

theorem IsFrom.behind (late : timeline.IsFrom now) (diagnostics : List Diagnostic) :
    (timeline.behind now diagnostics).IsFrom now := by
  induction diagnostics with
  | nil => exact late
  | cons diagnostic rest ih => exact ⟨le_refl now, ih⟩

theorem isFrom_ofPerformance (now : Rat) (performance : Performance) :
    (ofPerformance now performance).IsFrom now := by
  refine IsFrom.behind ?_ _
  split
  · exact le_refl now
  · trivial

/-- No report comes before those that it comes behind. -/
theorem IsFrom.le_of_mem
    {instant : Rat}
    (late : timeline.IsFrom now)
    (known : instant ∈ timeline.reportInstants ∨ timeline.done? = some instant) :
    now ≤ instant := by
  induction timeline generalizing now with
  | silent => simp [reportInstants, done?] at known
  | done other =>
    simp only [reportInstants, List.not_mem_nil, done?, Option.some.injEq, false_or] at known
    exact known ▸ late
  | report reported diagnostic rest ih =>
    simp only [reportInstants, List.mem_cons, done?] at known
    rcases known with (rfl | later) | later
    · exact late.1
    · exact late.1.trans (ih late.2 (.inl later))
    · exact late.1.trans (ih late.2 (.inr later))

/-- The seconds pass without a report just if at some instant more than the seconds have passed. -/
theorem isSome_lapse?_iff (late : timeline.IsFrom start) :
    (timeline.lapse? seconds start).isSome = true ↔
      ∃ instant, timeline.IsIdle start seconds instant := by
  -- If something happens too late, the instance is idle halfway before it.
  have halfway : ∀ {timeline : Timeline} {start instant : Rat}, timeline.IsFrom instant →
      start + seconds < instant → ∃ idle, timeline.IsIdle start seconds idle := by
    intro timeline start instant late tardy
    obtain ⟨idle, begun, early⟩ := exists_between tardy
    refine ⟨idle, begun, fun report known before => ?_, fun done known => ?_⟩
    · exact absurd (before.trans_lt early) (late.le_of_mem (.inl known)).not_gt
    · exact early.trans_le (late.le_of_mem (.inr known))
  induction timeline generalizing start with
  | silent =>
    refine ⟨fun _ => ⟨start + seconds + 1, by linarith, ?_, ?_⟩, fun _ => rfl⟩
    · simp [reportInstants]
    · simp [done?]
  | done instant =>
    simp only [lapse?]
    split
    · next tardy =>
      exact ⟨fun _ => halfway (le_refl instant) tardy, fun _ => rfl⟩
    · next timely =>
      refine ⟨fun some => (nomatch some), ?_⟩
      rintro ⟨idle, begun, -, undone⟩
      exact absurd (begun.trans (undone instant rfl)) timely
  | report instant diagnostic rest ih =>
    simp only [lapse?]
    split
    · next tardy =>
      exact ⟨fun _ => halfway ⟨le_refl instant, late.2⟩ tardy, fun _ => rfl⟩
    · next timely =>
      refine (ih late.2).trans ?_
      constructor
      · rintro ⟨idle, begun, reported, undone⟩
        refine ⟨idle, (add_le_add_left late.1 seconds).trans_lt begun, ?_, undone⟩
        intro report known before
        rcases List.mem_cons.mp known with rfl | later
        · exact begun
        · exact reported report later before
      · rintro ⟨idle, begun, reported, undone⟩
        have before : instant ≤ idle := (not_lt.mp timely).trans begun.le
        exact ⟨idle, reported instant List.mem_cons_self before,
          fun report later => reported report (List.mem_cons_of_mem _ later), undone⟩

/-- Without a lapse, all reports are heard. -/
theorem heard_of_lapse?_eq_none (none : timeline.lapse? seconds last = none) :
    timeline.heard seconds last = timeline.reports := by
  induction timeline generalizing last with
  | silent => rfl
  | done instant => rfl
  | report instant diagnostic rest ih =>
    simp only [lapse?] at none
    split at none
    · contradiction
    · next timely =>
      simp only [heard, if_neg timely, reports, ih none]

theorem le_of_lapse?
    {deadline : Rat}
    (late : timeline.IsFrom last)
    (lapsed : timeline.lapse? seconds last = some deadline) :
    last + seconds ≤ deadline := by
  induction timeline generalizing last with
  | silent => exact (Option.some.inj lapsed).le
  | done instant =>
    simp only [lapse?] at lapsed
    split at lapsed
    · exact (Option.some.inj lapsed).le
    · contradiction
  | report instant diagnostic rest ih =>
    simp only [lapse?] at lapsed
    split at lapsed
    · exact (Option.some.inj lapsed).le
    · exact (add_le_add_left late.1 seconds).trans (ih late.2 lapsed)

theorem reportsBefore_eq_nil (late : timeline.IsFrom now) (before : last ≤ now) :
    timeline.reportsBefore last = [] := by
  induction timeline generalizing now with
  | silent => rfl
  | done instant => rfl
  | report instant diagnostic rest ih =>
    have after := before.trans late.1
    simp only [reportsBefore, if_neg after.not_gt, ih late.2 after]

/-- With a lapse, the reports before it are heard. -/
theorem heard_of_lapse?_eq_some
    {deadline : Rat}
    (late : timeline.IsFrom last)
    (clear : timeline.IsClear seconds last)
    (lapsed : timeline.lapse? seconds last = some deadline) :
    timeline.heard seconds last = timeline.reportsBefore deadline := by
  induction timeline generalizing last with
  | silent => rfl
  | done instant => rfl
  | report instant diagnostic rest ih =>
    have whole := lapsed
    simp only [lapse?] at lapsed
    split at lapsed
    · next tardy =>
      cases lapsed
      simp only [heard, if_pos tardy, reportsBefore, if_neg tardy.not_gt,
        reportsBefore_eq_nil late.2 tardy.le]
    · next timely =>
      have before : instant < deadline :=
        (lt_of_le_of_ne (not_lt.mp timely) clear.1).trans_le (le_of_lapse? late whole)
      simp only [heard, if_neg timely, reportsBefore, if_pos before, ih late.2 clear.2 lapsed]

/-- A lapse comes when the seconds have passed since the last report before it, or since the
beginning if there is none. -/
theorem lapse?_eq_some
    {deadline : Rat}
    (late : timeline.IsFrom last)
    (clear : timeline.IsClear seconds last)
    (lapsed : timeline.lapse? seconds last = some deadline) :
    deadline = (timeline.reportInstants.filter (· < deadline)).getLastD last + seconds := by
  have none : ∀ {now : Rat} {timeline : Timeline}, timeline.IsFrom now → deadline ≤ now →
      timeline.reportInstants.filter (· < deadline) = [] := by
    intro now timeline late before
    refine List.filter_eq_nil_iff.mpr fun instant known => ?_
    simpa using before.trans (late.le_of_mem (.inl known))
  induction timeline generalizing last with
  | silent => exact (Option.some.inj lapsed).symm
  | done instant =>
    simp only [lapse?] at lapsed
    split at lapsed
    · exact (Option.some.inj lapsed).symm
    · contradiction
  | report instant diagnostic rest ih =>
    have whole := lapsed
    simp only [lapse?] at lapsed
    split at lapsed
    · next tardy =>
      have due := Option.some.inj lapsed
      rw [@none instant (report instant diagnostic rest) ⟨le_refl instant, late.2⟩ (due ▸ tardy.le)]
      exact due.symm
    · next timely =>
      have before : instant < deadline :=
        (lt_of_le_of_ne (not_lt.mp timely) clear.1).trans_le (le_of_lapse? late whole)
      simp only [reportInstants, List.filter_cons, before, decide_true, if_true, List.getLastD_cons]
      exact ih late.2 clear.2 lapsed

/-- The last report, when there are some at an instant behind another one. -/
def latest (last now : Rat) (diagnostics : List Diagnostic) : Rat :=
  if diagnostics = [] then last else now

theorem latest_cons (last now : Rat) (diagnostic : Diagnostic) (rest : List Diagnostic) :
    latest now now rest = latest last now (diagnostic :: rest) := by
  simp [latest]

theorem le_latest (past : last ≤ now) : last ≤ latest last now diagnostics := by
  unfold latest
  split
  · exact le_refl last
  · exact past

theorem latest_le (past : last ≤ now) : latest last now diagnostics ≤ now := by
  unfold latest
  split
  · exact past
  · exact le_refl now

theorem le_latest_add (positive : 0 < seconds) (timely : now ≤ last + seconds) :
    now ≤ latest last now diagnostics + seconds := by
  unfold latest
  split
  · exact timely
  · exact (lt_add_of_pos_right now positive).le

/-- What comes too late behind reports that do not. -/
theorem lapse?_behind
    (positive : 0 < seconds)
    (timely : now ≤ last + seconds)
    (timeline : Timeline)
    (diagnostics : List Diagnostic) :
    (timeline.behind now diagnostics).lapse? seconds last =
      timeline.lapse? seconds (latest last now diagnostics) := by
  induction diagnostics generalizing last with
  | nil => rfl
  | cons diagnostic rest ih =>
    rw [← latest_cons, ← ih (by linarith)]
    exact if_neg timely.not_gt

theorem heard_behind
    (positive : 0 < seconds)
    (timely : now ≤ last + seconds)
    (timeline : Timeline)
    (diagnostics : List Diagnostic) :
    (timeline.behind now diagnostics).heard seconds last =
      diagnostics ++ timeline.heard seconds (latest last now diagnostics) := by
  induction diagnostics generalizing last with
  | nil => rfl
  | cons diagnostic rest ih =>
    rw [← latest_cons, List.cons_append, ← ih (by linarith)]
    exact if_neg timely.not_gt

theorem isClear_behind
    {timeline : Timeline}
    {diagnostics : List Diagnostic}
    (clear : (timeline.behind now diagnostics).IsClear seconds last) :
    (diagnostics ≠ [] → now ≠ last + seconds) ∧
      timeline.IsClear seconds (latest last now diagnostics) := by
  induction diagnostics generalizing last with
  | nil => exact ⟨fun none => absurd rfl none, clear⟩
  | cons diagnostic rest ih =>
    rw [← latest_cons]
    exact ⟨fun _ => clear.1, (ih clear.2).2⟩

/-- When the seconds have passed, and nothing happens just then, the instance has been idle. -/
theorem lapse?_of_eq
    (late : timeline.IsFrom now)
    (clear : timeline.IsClear seconds last)
    (due : now = last + seconds) :
    timeline.lapse? seconds last = some now ∧ timeline.heard seconds last = [] := by
  cases timeline with
  | silent => exact ⟨congrArg some due.symm, rfl⟩
  | done instant =>
    have tardy : last + seconds < instant := lt_of_le_of_ne (due ▸ late) clear.symm
    exact ⟨(if_pos tardy).trans (congrArg some due.symm), rfl⟩
  | report instant diagnostic rest =>
    have tardy : last + seconds < instant := lt_of_le_of_ne (due ▸ late.1) clear.1.symm
    exact ⟨(if_pos tardy).trans (congrArg some due.symm), if_pos tardy⟩

theorem behind_behind (timeline : Timeline) (now : Rat) (first second : List Diagnostic) :
    (timeline.behind now second).behind now first = timeline.behind now (first ++ second) :=
  List.foldr_append.symm

theorem ofPerformance_behind
    (now : Rat)
    (performance : Performance)
    (effects : List Reporter.Effect) :
    ofPerformance now (performance.behind effects) =
      (ofPerformance now performance).behind now (Reporter.delivered effects) := by
  rw [ofPerformance, ofPerformance, behind_behind, ← Reporter.delivered_append]
  rfl

/-- Once an instance is done, nothing more happens. -/
theorem ofPerformance_of_extends
    {before after : Performance}
    (finished : before.reporter.isFinished = true)
    (goes : before.Extends after) :
    ofPerformance now after = ofPerformance now before := by
  obtain ⟨effects, effects_eq, used⟩ := goes
  have silent : Reporter.delivered effects = [] := by
    apply List.filterMap_eq_nil_iff.mpr
    intro effect known
    cases effect with
    | delivered diagnostic => exact absurd known (used.conduct.silent finished diagnostic)
    | _ => rfl
  have delivered_eq : Reporter.delivered after.effects = Reporter.delivered before.effects := by
    rw [effects_eq, Reporter.delivered_append, silent, List.append_nil]
  rw [ofPerformance, ofPerformance, delivered_eq, finished,
    used.conduct.isFinished_of_isFinished finished]

end
end Timeline

namespace Step

/-- What happens when steps are taken from an instant on, with what has been performed at that
instant before. -/
def timeline (document : Document) (now : Rat) (before : Performance) : List Step → Timeline
  | [] => .ofPerformance now ((before.stop .completed).settle now)
  | .act action :: rest =>
    let after := action.perform document now before
    if after.ending?.isSome then .ofPerformance now (after.settle now)
    else timeline document now after rest
  | .sleep seconds _ _ :: rest =>
    if before.reporter.isFinished then .ofPerformance now before
    else
      let later := if seconds ≤ 0 then now else now + seconds
      (timeline document later (.start before.reporter) rest).behind now
        (Reporter.delivered before.effects)
  | .hang _ _ :: _ => .ofPerformance now before

variable {document : Document} {now : Rat}

theorem timeline_behind
    (before : Performance)
    (effects : List Reporter.Effect)
    (steps : List Step) :
    timeline document now (before.behind effects) steps =
      (timeline document now before steps).behind now (Reporter.delivered effects) := by
  induction steps generalizing before with
  | nil =>
    rw [timeline, timeline, ← Timeline.ofPerformance_behind, ← Performance.settle_behind]
    rfl
  | cons step rest ih =>
    cases step with
    | act action =>
      have same : ∀ performance : Performance,
          (performance.behind effects).ending? = performance.ending? := fun _ => rfl
      simp only [timeline, Action.perform_behind, same]
      split
      · rw [Performance.settle_behind, Timeline.ofPerformance_behind]
      · exact ih _
    | sleep seconds onCancel swallows =>
      have same : (before.behind effects).reporter = before.reporter := rfl
      simp only [timeline, same]
      split
      · exact Timeline.ofPerformance_behind now before effects
      · rw [Timeline.behind_behind, ← Reporter.delivered_append]
        rfl
    | hang onCancel swallows => exact Timeline.ofPerformance_behind now before effects

theorem timeline_of_isFinished
    {before : Performance}
    (finished : before.reporter.isFinished = true)
    (steps : List Step) :
    timeline document now before steps = .ofPerformance now before := by
  induction steps generalizing before with
  | nil =>
    exact Timeline.ofPerformance_of_extends finished
      ((Performance.Extends.stop before .completed).trans (.settle _ now))
  | cons step rest ih =>
    cases step with
    | act action =>
      have performed := action.extends_perform document now before
      simp only [timeline]
      split
      · exact Timeline.ofPerformance_of_extends finished (performed.trans (.settle _ now))
      · obtain ⟨effects, -, used⟩ := performed
        rw [ih (used.conduct.isFinished_of_isFinished finished)]
        exact Timeline.ofPerformance_of_extends finished (action.extends_perform document now before)
    | sleep seconds onCancel swallows => simp only [timeline, finished, if_true]
    | hang onCancel swallows => rfl

theorem isFrom_timeline (before : Performance) (steps : List Step) :
    (timeline document now before steps).IsFrom now := by
  induction steps generalizing now before with
  | nil => exact Timeline.isFrom_ofPerformance now _
  | cons step rest ih =>
    cases step with
    | act action =>
      simp only [timeline]
      split
      · exact Timeline.isFrom_ofPerformance now _
      · exact ih _
    | sleep seconds onCancel swallows =>
      simp only [timeline]
      split
      · exact Timeline.isFrom_ofPerformance now before
      · refine Timeline.IsFrom.behind ((ih _).mono ?_) _
        split
        · exact le_refl now
        · next takes => linarith
    | hang onCancel swallows => exact Timeline.isFrom_ofPerformance now before

end Step

/-- What happens when a script is run from an instant on. -/
def Script.timeline (document : Document) (start : Rat) (reporter : Reporter) (script : Script) :
    Timeline :=
  Step.timeline document start (Action.performAll document start (.start reporter) script.immediate)
    (script.awaited?.getD [])

namespace Linting

/-- What a task leads to, when it goes on now, or is woken at an instant. -/
def Task.timeline (document : Document) (now wake : Rat) (reporter : Reporter) : Task → Timeline
  | absent => .silent
  | fresh steps => Step.timeline document now (.start reporter) steps
  | resting (.sleep _ _ _) rest => Step.timeline document wake (.start reporter) rest
  | resting _ _ => .silent
  | rested _ rest => Step.timeline document now (.start reporter) rest
  | ended ending => .ofPerformance now (((Performance.start reporter).stop ending).settle now)

/-- The instant at which a task that has just come to rest is to be woken. -/
def Task.wakeInstant (now : Rat) : Task → Rat
  | resting (.sleep seconds _ _) _ => now + seconds
  | _ => now

namespace Stretch

theorem isStamped_run
    {document : Document}
    {now : Rat}
    {before? : Option Rat}
    {before : Performance}
    (stamped : before.reporter.IsStamped before? now before.effects)
    (steps : List Step) :
    (run document now before steps).reporter.IsStamped before? now
      (run document now before steps).effects := by
  induction steps generalizing before with
  | nil => exact stamped
  | cons step rest ih =>
    cases step with
    | act action =>
      have performed := @Action.isStamped_perform document now before before? stamped action
      simp only [run]
      split
      · exact performed
      · exact ih performed
    | _ => exact stamped

/-- Taking steps is running them up to the next rest, and then what the task leads to, unless the
instance is done. -/
theorem timeline_eq
    (document : Document)
    (now : Rat)
    (before : Performance)
    (goesOn : before.ending? = none)
    (steps : List Step) :
    let stretch := run document now before steps
    Step.timeline document now before steps =
      (if stretch.reporter.isFinished then .done now
        else stretch.task.timeline document now (stretch.task.wakeInstant now)
          stretch.reporter).behind now (Reporter.delivered stretch.effects) := by
  have ends : ∀ (performance : Performance) (ending : Ending), performance.ending? = some ending →
      Timeline.ofPerformance now (performance.settle now) =
        (if performance.reporter.isFinished then Timeline.done now
          else .ofPerformance now (((Performance.start performance.reporter).stop ending).settle
            now)).behind now (Reporter.delivered performance.effects) := by
    intro performance ending same
    split
    · next finished =>
      rw [Timeline.ofPerformance_of_extends finished (.settle performance now),
        Timeline.ofPerformance, if_pos finished]
    · rw [← Timeline.ofPerformance_behind, ← Performance.settle_behind]
      obtain ⟨reporter, effects, ending?⟩ := performance
      subst same
      simp [Performance.start, Performance.stop, Performance.behind]
  intro stretch
  induction steps generalizing before with
  | nil => exact ends (before.stop .completed) .completed rfl
  | cons step rest ih =>
    cases step with
    | act action =>
      simp only [stretch, Step.timeline, run]
      cases ending : (action.perform document now before).ending? with
      | none => exact ih _ ending
      | some ending => exact ends _ _ ending
    | sleep seconds onCancel swallows =>
      simp only [stretch, Step.timeline, run]
      split
      · next finished => rw [Timeline.ofPerformance, if_pos finished]
      · split <;> rfl
    | hang onCancel swallows => rfl

end Stretch
end Linting
end MarkupLint
