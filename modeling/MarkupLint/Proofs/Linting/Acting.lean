import MarkupLint.Proofs.Linting.Prospect

/-!
# What members do in their turns

Each turn of a member runs a stretch of its steps, wakes its task, moves its supervisor or its watch,
or does nothing.
-/

namespace MarkupLint
namespace Linting

namespace Task

/-- Whether a turn is ready for the task. -/
def isReady : Task → Bool
  | fresh _ => true
  | rested _ _ => true
  | _ => false

/-- Whether the task sleeps. -/
def isSleeping : Task → Bool
  | resting (.sleep _ _ _) _ => true
  | _ => false

end Task

/-- Whether a turn is ready for the supervisor. -/
def Supervision.isReady : Supervision → Bool
  | fresh => true
  | woken _ => true
  | _ => false

namespace Member
namespace Course

/-- What a turn demands of the turns of the member. -/
def turns (course : Course) : List Effect := course.effects.filter Effect.isTurn

/-- How uses of the reporter move the watch, with the turns that follow. -/
inductive Rouses (before after : Watch) (turns : List Effect) : Prop where
  | still
      (watch_eq : after = before)
      (turns_eq : turns = [])
  | roused
      (waiting : before = .waiting)
      (watch_eq : after = .woken)
      (turns_eq : turns = [.soon .watch])

theorem Rouses.trans
    {before middle after : Watch}
    {first second : List Effect}
    (begun : Rouses before middle first)
    (ended : Rouses middle after second) :
    Rouses before after (first ++ second) := by
  cases begun with
  | still watch_eq turns_eq =>
    subst watch_eq turns_eq
    exact ended
  | roused waiting watch_eq turns_eq =>
    cases ended with
    | still later_eq laterTurns_eq =>
      refine .roused waiting (later_eq.trans watch_eq) ?_
      rw [turns_eq, laterTurns_eq, List.append_nil]
    | roused again later_eq laterTurns_eq =>
      rw [watch_eq] at again
      contradiction

/-- A course that goes on with reports: nothing but the watch is moved. -/
structure Reports (before after : Course) (diagnostics : List Diagnostic) : Prop where
  moved : ∃ watch woken, Rouses before.member.watch watch woken ∧
    after.member = { before.member with watch := watch } ∧ after.turns = before.turns ++ woken
  delivered_eq : delivered after.effects = delivered before.effects ++ diagnostics

theorem Reports.trans
    {before middle after : Course}
    {first second : List Diagnostic}
    (begun : Reports before middle first)
    (ended : Reports middle after second) :
    Reports before after (first ++ second) := by
  obtain ⟨⟨watch, woken, rouses, member_eq, turns_eq⟩, delivered_eq⟩ := begun
  obtain ⟨⟨later, more, laterRouses, laterMember_eq, laterTurns_eq⟩, laterDelivered_eq⟩ := ended
  rw [member_eq] at laterRouses laterMember_eq
  refine ⟨⟨later, woken ++ more, rouses.trans laterRouses, laterMember_eq, ?_⟩, ?_⟩
  · rw [laterTurns_eq, turns_eq, List.append_assoc]
  · rw [laterDelivered_eq, delivered_eq, List.append_assoc]

theorem reports_absorb (course : Course) (effect : Reporter.Effect) :
    Reports course (course.absorb effect) (Reporter.delivered [effect]) := by
  have emitted : ∀ (before : Course) (own : Effect), own.isTurn = false →
      Reports before (before.emit own) (delivered [own]) := by
    intro before own foreign
    refine ⟨⟨before.member.watch, [], .still rfl rfl, rfl, ?_⟩, ?_⟩
    · simp [turns, foreign]
    · simp only [effects_emit, Member.delivered, List.filterMap_append]
  cases effect with
  | delivered diagnostic => exact emitted course (.delivered diagnostic) rfl
  | dropped record => exact emitted course (.log record) rfl
  | finished =>
    refine @Reports.trans _ _ _ [] _ ?_ (emitted course.wakeWatch .finished rfl)
    unfold wakeWatch
    split
    · next waiting =>
      refine ⟨⟨.woken, [.soon .watch], .roused waiting rfl rfl, rfl, ?_⟩, ?_⟩
      · simp [turns, Effect.isTurn]
      · simp [Member.delivered]
    · exact ⟨⟨_, [], .still rfl rfl, rfl, (List.append_nil _).symm⟩, (List.append_nil _).symm⟩

/-- Having the effects of the reporter reports what the reporter delivers. -/
theorem reports_absorbAll (course : Course) (effects : List Reporter.Effect) :
    Reports course (course.absorbAll effects) (Reporter.delivered effects) := by
  induction effects generalizing course with
  | nil =>
    exact ⟨⟨_, [], .still rfl rfl, rfl, (List.append_nil _).symm⟩, (List.append_nil _).symm⟩
  | cons effect rest ih =>
    have joined : Reporter.delivered (effect :: rest) =
        Reporter.delivered [effect] ++ Reporter.delivered rest := by
      rw [Reporter.delivered, ← List.singleton_append, List.filterMap_append]
      rfl
    rw [joined]
    exact (reports_absorb course effect).trans (ih (course.absorb effect))

/-- Using the reporter changes the reporter, and may rouse the watch. -/
theorem exists_rouses_use (course : Course) (act : Reporter → Reporter × List Reporter.Effect) :
    ∃ watch roused, Rouses course.member.watch watch roused ∧
      (course.use act).member =
        { course.member with reporter := (act course.member.reporter).1, watch := watch } ∧
      (course.use act).turns = course.turns ++ roused ∧
      delivered (course.use act).effects =
        delivered course.effects ++ Reporter.delivered (act course.member.reporter).2 := by
  obtain ⟨⟨watch, roused, rouses, member_eq, turns_eq⟩, delivered_eq⟩ := reports_absorbAll
    (course.modify fun member => { member with reporter := (act course.member.reporter).1 })
    (act course.member.reporter).2
  exact ⟨watch, roused, rouses, member_eq, turns_eq, delivered_eq⟩

theorem exists_rouses_use_finish
    (course : Course)
    (act : Reporter → Reporter × List Reporter.Effect) :
    ∃ watch roused, Rouses course.member.watch watch roused ∧
      ((course.use act).use (·.finish)).member =
        { course.member with
          reporter := (act course.member.reporter).1.finish.1, watch := watch } ∧
      ((course.use act).use (·.finish)).turns = course.turns ++ roused ∧
      delivered ((course.use act).use (·.finish)).effects =
        delivered course.effects ++ Reporter.delivered (act course.member.reporter).2 := by
  obtain ⟨first, early, begun, member_eq, turns_eq, delivered_eq⟩ := exists_rouses_use course act
  obtain ⟨second, late, ended, last_eq, lastTurns_eq, lastDelivered_eq⟩ :=
    exists_rouses_use (course.use act) (·.finish)
  have quiet : ∀ reporter : Reporter, Reporter.delivered reporter.finish.2 = [] := by
    intro reporter
    unfold Reporter.finish
    split <;> rfl
  simp only [member_eq] at ended last_eq
  rw [quiet, List.append_nil] at lastDelivered_eq
  refine ⟨second, early ++ late, begun.trans ended, last_eq, ?_, lastDelivered_eq.trans delivered_eq⟩
  rw [lastTurns_eq, turns_eq, List.append_assoc]

/-- Unless the watch waits, using the reporter changes the reporter only. -/
theorem use_eq
    {course : Course}
    (deaf : course.member.watch ≠ .waiting)
    (act : Reporter → Reporter × List Reporter.Effect) :
    (course.use act).member = { course.member with reporter := (act course.member.reporter).1 } ∧
      (course.use act).turns = course.turns ∧
      delivered (course.use act).effects =
        delivered course.effects ++ Reporter.delivered (act course.member.reporter).2 := by
  obtain ⟨watch, roused, rouses, member_eq, turns_eq, delivered_eq⟩ := exists_rouses_use course act
  cases rouses with
  | still watch_eq roused_eq =>
    subst watch_eq roused_eq
    exact ⟨member_eq, turns_eq.trans (List.append_nil _), delivered_eq⟩
  | roused waiting watch_eq roused_eq => exact absurd waiting deaf

theorem use_finish_eq
    {course : Course}
    (deaf : course.member.watch ≠ .waiting)
    (act : Reporter → Reporter × List Reporter.Effect)
    (ending? : Option Ending) :
    let performance :=
      ((⟨course.member.reporter, [], ending?⟩ : Performance).use act).use (·.finish)
    let last := (course.use act).use (·.finish)
    last.member = { course.member with reporter := performance.reporter } ∧
      last.turns = course.turns ∧
      delivered last.effects =
        delivered course.effects ++ Reporter.delivered performance.effects := by
  intro performance last
  obtain ⟨member_eq, turns_eq, delivered_eq⟩ := use_eq deaf act
  have still : (course.use act).member.watch ≠ .waiting := by
    rw [member_eq]
    exact deaf
  obtain ⟨last_eq, lastTurns_eq, lastDelivered_eq⟩ := use_eq still (·.finish)
  rw [member_eq] at last_eq lastDelivered_eq
  refine ⟨last_eq, lastTurns_eq.trans turns_eq, lastDelivered_eq.trans ?_⟩
  rw [delivered_eq, List.append_assoc]
  simp only [performance, Performance.use, Reporter.delivered, List.nil_append,
    List.filterMap_append]

/-- Settling a member reports how its script ended. -/
theorem settle_eq (course : Course) (now : Rat) (ending : Ending) :
    let performance := ((Performance.start course.member.reporter).stop ending).settle now
    (course.settle now ending).member =
        { course.member with
          supervision := .ended, watch := .ended, reporter := performance.reporter } ∧
      (course.settle now ending).turns = course.turns ∧
      delivered (course.settle now ending).effects =
        delivered course.effects ++ Reporter.delivered performance.effects := by
  intro performance
  let finished := course.modify fun member => { member with supervision := .ended, watch := .ended }
  have deaf : finished.member.watch ≠ .waiting := Watch.noConfusion
  cases ending with
  | completed => exact use_eq deaf (·.finish)
  | failed failure =>
    exact use_finish_eq deaf (·.fail now failure none) (some (.failed failure))
  | cancelled => exact use_finish_eq deaf _ (some .cancelled)

end Course

/-- The turn that a task is to take next, once it has come to rest or to its end. -/
def turnsBehind (member : Member) : Task → List Effect
  | .rested _ _ => [.soon .task]
  | .resting (.sleep seconds _ _) _ => [.after seconds .wake]
  | .ended _ =>
    if member.isLate then [.soon .late]
    else if member.supervision.isListening then [.soon .notice] else []
  | _ => []

/-- The timer that waits until a member has been idle too long, if that is limited. -/
def idleTurns (left? : Option Rat) : List Effect := left?.toList.map (.after · .idle)

/-- The seconds that are left until a member that is supervised since an instant has been idle too
long, if that is limited. -/
def left? (setting : Setting) (now since : Rat) (member : Member) : Option Rat :=
  idleLeft? setting.timeout? setting.precision now since member.reporter.lastReport?

/-- What a member does in a turn. -/
inductive Acted (setting : Setting) (now : Rat) (member : Member) (turn : Turn) (after : Course) :
    Prop where
  | nothing
      (member_eq : after.member = member)
      (turns_eq : after.turns = [])
      (delivered_eq : delivered after.effects = [])
      (task : turn = .task → member.task.isReady = false)
      (wake : turn = .wake → ∀ step rest, member.task ≠ .resting step rest)
      (supervisor : turn = .supervisor → member.supervision.isReady = false)
      (notice : turn = .idle ∨ turn = .notice → ∀ since, member.supervision ≠ .waiting since)
  | ran
      (steps : List Step)
      (watch : Watch)
      (woken : List Effect)
      (isTask : turn = .task)
      (steps_eq : member.upcomingSteps? = some steps)
      (rouses : Course.Rouses member.watch watch woken)
      (member_eq : after.member = { member.afterStretch
        (Stretch.run setting.document now (.start member.reporter) steps) with watch := watch })
      (turns_eq : after.turns = woken ++ member.turnsBehind
        (Stretch.run setting.document now (.start member.reporter) steps).task)
      (delivered_eq : delivered after.effects = Reporter.delivered
        (Stretch.run setting.document now (.start member.reporter) steps).effects)
  | awoke
      (step : Step)
      (rest : List Step)
      (isWake : turn = .wake)
      (task_eq : member.task = .resting step rest)
      (member_eq : after.member = { member with task := .rested step rest })
      (turns_eq : after.turns = [.soon .task])
      (delivered_eq : delivered after.effects = [])
  | settled
      (ending : Ending)
      (isSupervisor : turn = .supervisor)
      (ready : member.supervision.isReady = true)
      (task_eq : member.task = .ended ending)
      (member_eq : after.member = { member with
        supervision := .ended
        watch := .ended
        reporter := (((Performance.start member.reporter).stop ending).settle now).reporter })
      (turns_eq : after.turns = [] ∨ after.turns = [.cancel .idle])
      (delivered_eq : delivered after.effects = Reporter.delivered
        (((Performance.start member.reporter).stop ending).settle now).effects)
  | supervised
      (isSupervisor : turn = .supervisor)
      (fresh : member.supervision = .fresh)
      (goesOn : member.task.ending? = none)
      (member_eq : after.member = { member with watch := .fresh, supervision := .waiting now })
      (turns_eq : after.turns =
        [.soon .watch, .cancel .idle] ++ idleTurns (member.left? setting now now))
      (delivered_eq : delivered after.effects = [])
  | awaited
      (since : Rat)
      (isSupervisor : turn = .supervisor)
      (woken : member.supervision = .woken since)
      (goesOn : member.task.ending? = none)
      (running : member.reporter.isFinished = false)
      (timely : member.left? setting now since ≠ some 0)
      (member_eq : after.member = { member with supervision := .waiting since })
      (turns_eq : after.turns = [.cancel .idle] ++ idleTurns (member.left? setting now since))
      (delivered_eq : delivered after.effects = [])
  | abandoned
      (since : Rat)
      (isSupervisor : turn = .supervisor)
      (woken : member.supervision = .woken since)
      (goesOn : member.task.ending? = none)
      (finished : member.reporter.isFinished = true)
      (member_eq : after.member =
        { member with supervision := .ended, isLate := true, watch := .ended })
      (turns_eq : after.turns = [.cancel .idle])
      (delivered_eq : delivered after.effects = [])
  | expired
      (since : Rat)
      (watch : Watch)
      (roused : List Effect)
      (isSupervisor : turn = .supervisor)
      (woken : member.supervision = .woken since)
      (goesOn : member.task.ending? = none)
      (running : member.reporter.isFinished = false)
      (tardy : member.left? setting now since = some 0)
      (rouses : Course.Rouses member.watch watch roused)
      (member_eq : after.member = { (Course.start member).cancelTask.member with
        reporter :=
          (member.reporter.report now .error (idleMessage setting.timeout?) none).1.finish.1
        supervision := .ended
        isLate := true
        watch := .ended })
      (turns_eq : after.turns = (Course.start member).cancelTask.turns ++ roused ++ [.cancel .idle])
      (delivered_eq : delivered after.effects = Reporter.delivered
        (member.reporter.report now .error (idleMessage setting.timeout?) none).2)
  | noticed
      (since : Rat)
      (isNotice : turn = .idle ∨ turn = .notice)
      (waiting : member.supervision = .waiting since)
      (member_eq : after.member = { member with supervision := .woken since })
      (turns_eq : after.turns = [.cancel .idle, .soon .supervisor])
      (delivered_eq : delivered after.effects = [])
  | watched
      (isWatch : turn = .watch)
      (ready : member.watch = .fresh ∧ member.reporter.isFinished = true ∨ member.watch = .woken)
      (member_eq : after.member = { member with watch := .ended })
      (turns_eq : after.turns = [.soon .notice])
      (delivered_eq : delivered after.effects = [])
  | armed
      (isWatch : turn = .watch)
      (fresh : member.watch = .fresh)
      (member_eq : after.member = { member with watch := .waiting })
      (turns_eq : after.turns = [])
      (delivered_eq : delivered after.effects = [])

/-- What concerns the turns of a member delivers nothing. -/
theorem Effect.delivered_of_isTurn {effect : Effect} (turn : effect.isTurn = true) :
    Member.delivered [effect] = [] := by
  cases effect with
  | soon own => rfl
  | after seconds own => rfl
  | cancel own => rfl
  | _ => contradiction

theorem acted_rest
    {setting : Setting}
    {member : Member}
    {steps : List Step}
    {now : Rat}
    (steps_eq : member.upcomingSteps? = some steps) :
    Acted setting now member .task
      (member.rest (Stretch.run setting.document now (.start member.reporter) steps)) := by
  generalize ran : Stretch.run setting.document now (.start member.reporter) steps = stretch
  obtain ⟨⟨watch, woken, rouses, member_eq, turns_eq⟩, delivered_eq⟩ :=
    Course.reports_absorbAll (Course.start (member.afterStretch stretch)) stretch.effects
  have closing : ∀ (after : Course) (behind : List Effect),
      after.member = { member.afterStretch stretch with watch := watch } →
      after.turns = woken ++ behind → behind = member.turnsBehind stretch.task →
      delivered after.effects = Reporter.delivered stretch.effects →
        Acted setting now member .task after := by
    intro after behind last_eq lastTurns_eq behind_eq lastDelivered_eq
    rw [behind_eq] at lastTurns_eq
    subst ran
    exact .ran steps watch woken rfl steps_eq rouses last_eq lastTurns_eq lastDelivered_eq
  have quiet : ∀ behind, behind = [] → behind = member.turnsBehind stretch.task →
      Acted setting now member .task
        ((Course.start (member.afterStretch stretch)).absorbAll stretch.effects) := by
    rintro _ rfl behind_eq
    refine closing _ [] member_eq ?_ behind_eq delivered_eq
    rw [turns_eq, List.append_nil]
    rfl
  have emitting : ∀ effect : Effect, effect.isTurn = true →
      [effect] = member.turnsBehind stretch.task →
        Acted setting now member .task
          (((Course.start (member.afterStretch stretch)).absorbAll stretch.effects).emit effect) := by
    intro effect turn behind_eq
    refine closing _ [effect] member_eq ?_ behind_eq ?_
    · simp only [Course.turns, Course.effects_emit, List.filter_append] at turns_eq ⊢
      rw [turns_eq]
      simp [turn]
    · have none := Effect.delivered_of_isTurn turn
      simp only [Member.delivered, Course.effects_emit, List.filterMap_append] at none delivered_eq ⊢
      rw [none, delivered_eq]
      exact List.append_nil _
  simp only [rest]
  cases task : stretch.task with
  | rested step rest => exact emitting _ rfl (by rw [task]; rfl)
  | resting step rest =>
    cases step with
    | sleep seconds onCancel swallows => exact emitting _ rfl (by rw [task]; rfl)
    | _ => exact quiet _ rfl (by rw [task]; rfl)
  | ended ending =>
    dsimp only
    split
    · next late =>
      apply emitting _ rfl
      rw [task]
      exact (if_pos late).symm
    · next timely =>
      split
      · next listening =>
        apply emitting _ rfl
        rw [task]
        exact ((if_neg timely).trans (if_pos listening)).symm
      · next deaf =>
        apply quiet _ rfl
        rw [task]
        exact ((if_neg timely).trans (if_neg deaf)).symm
  | _ => exact quiet _ rfl (by rw [task]; rfl)

theorem Task.eq_ended_of_ending? {task : Task} {ending : Ending} (known : task.ending? = some ending) :
    task = .ended ending := by
  unfold Task.ending? at known
  split at known
  · rw [Option.some.inj known]
  · contradiction

theorem Course.cancelTask_eq (course : Course) :
    course.cancelTask.member.reporter = course.member.reporter ∧
      course.cancelTask.member.watch = course.member.watch ∧
      delivered course.cancelTask.effects = delivered course.effects := by
  unfold cancelTask
  split <;> simp [Member.delivered]

theorem acted_expire
    {setting : Setting}
    {member : Member}
    {now since : Rat}
    (woken : member.supervision = .woken since)
    (goesOn : member.task.ending? = none)
    (running : member.reporter.isFinished = false)
    (tardy : member.left? setting now since = some 0) :
    Acted setting now member .supervisor ((Course.start member).expire setting now) := by
  obtain ⟨reporter_eq, watch_eq, silent⟩ := (Course.start member).cancelTask_eq
  obtain ⟨watch, roused, rouses, member_eq, turns_eq, delivered_eq⟩ :=
    (Course.start member).cancelTask.exists_rouses_use_finish
      (·.report now .error (idleMessage setting.timeout?) none)
  rw [watch_eq] at rouses
  rw [reporter_eq] at member_eq delivered_eq
  rw [silent] at delivered_eq
  refine .expired since watch roused rfl woken goesOn running tardy rouses ?_ ?_ ?_
  · simp only [Course.expire, Course.abandon, Course.member_emit, Course.member_modify, member_eq,
      Course.member_start]
  · simp only [Course.turns] at turns_eq
    simp only [Course.turns, Course.expire, Course.abandon, Course.effects_emit,
      Course.effects_modify, List.filter_append, turns_eq]
    rfl
  · simp only [Member.delivered] at delivered_eq
    simp only [Member.delivered, Course.expire, Course.abandon, Course.effects_emit,
      Course.effects_modify, List.filterMap_append, delivered_eq]
    exact List.append_nil _

theorem acted_supervise (setting : Setting) (now : Rat) (member : Member) :
    Acted setting now member .supervisor (member.supervise setting now) := by
  have waits : ∀ (before : Course) (since : Rat) (left? : Option Rat),
      (before.await since left?).member = { before.member with supervision := .waiting since } ∧
        (before.await since left?).turns = before.turns ++ [.cancel .idle] ++ idleTurns left? ∧
        delivered (before.await since left?).effects = delivered before.effects := by
    intro before since left?
    cases left? <;>
      simp [Course.await, Course.turns, Effect.isTurn, idleTurns, Member.delivered]
  simp only [supervise]
  cases supervision : member.supervision with
  | fresh =>
    cases task : member.task.ending? with
    | none =>
      obtain ⟨member_eq, turns_eq, delivered_eq⟩ := waits
        (((Course.start member).modify fun member => { member with watch := .fresh }).emit
          (.soon .watch)) now (member.left? setting now now)
      exact .supervised rfl supervision task member_eq turns_eq delivered_eq
    | some ending =>
      obtain ⟨member_eq, turns_eq, delivered_eq⟩ :=
        Course.settle_eq (Course.start member) now ending
      exact .settled ending rfl (by rw [supervision]; rfl) (Task.eq_ended_of_ending? task) member_eq
        (.inl turns_eq) delivered_eq
  | woken since =>
    cases task : member.task.ending? with
    | none =>
      dsimp only
      split
      · next finished => exact .abandoned since rfl supervision task finished rfl rfl rfl
      · next running =>
        rw [Bool.not_eq_true] at running
        split
        · next tardy => exact acted_expire supervision task running tardy
        · next timely =>
          obtain ⟨member_eq, turns_eq, delivered_eq⟩ :=
            waits (Course.start member) since (member.left? setting now since)
          exact .awaited since rfl supervision task running timely member_eq turns_eq delivered_eq
    | some ending =>
      obtain ⟨member_eq, turns_eq, delivered_eq⟩ :=
        Course.settle_eq ((Course.start member).emit (.cancel .idle)) now ending
      exact .settled ending rfl (by rw [supervision]; rfl) (Task.eq_ended_of_ending? task) member_eq
        (.inr turns_eq) delivered_eq
  | _ =>
    exact .nothing rfl rfl rfl (by simp) (by simp) (by simp [supervision, Supervision.isReady])
      (by simp)

theorem acted_watchReporter {setting : Setting} {member : Member} (now : Rat) :
    Acted setting now member .watch member.watchReporter := by
  simp only [watchReporter]
  split
  · next left =>
    refine .watched rfl ?_ rfl rfl rfl
    simp only [Bool.or_eq_true, Bool.and_eq_true, decide_eq_true_eq] at left
    exact left
  · split
    · next fresh => exact .armed rfl fresh rfl rfl rfl
    · exact .nothing rfl rfl rfl (by simp) (by simp) (by simp) (by simp)

/-- Whatever the turn, a member acts. -/
theorem acted (setting : Setting) (now : Rat) (member : Member) (turn : Turn) :
    Acted setting now member turn (member.take setting now turn) := by
  cases turn with
  | task =>
    simp only [take, runTask]
    cases steps : member.upcomingSteps? with
    | some steps => exact acted_rest steps
    | none =>
      refine .nothing rfl rfl rfl (fun _ => ?_) (by simp) (by simp) (by simp)
      unfold upcomingSteps? at steps
      split at steps <;> simp_all [Task.isReady]
  | wake =>
    simp only [take, wakeTask]
    cases task : member.task with
    | resting step rest => exact .awoke step rest rfl task rfl rfl rfl
    | _ => exact .nothing rfl rfl rfl (by simp) (by simp [task]) (by simp) (by simp)
  | supervisor => exact acted_supervise setting now member
  | idle =>
    simp only [take, wakeSupervisor]
    cases supervision : member.supervision with
    | waiting since => exact .noticed since (.inl rfl) supervision rfl rfl rfl
    | _ => exact .nothing rfl rfl rfl (by simp) (by simp) (by simp) (by simp [supervision])
  | notice =>
    simp only [take, wakeSupervisor]
    cases supervision : member.supervision with
    | waiting since => exact .noticed since (.inr rfl) supervision rfl rfl rfl
    | _ => exact .nothing rfl rfl rfl (by simp) (by simp) (by simp) (by simp [supervision])
  | watch => exact acted_watchReporter now
  | late =>
    simp only [take, noteLate]
    split
    · exact .nothing rfl rfl rfl (by simp) (by simp) (by simp) (by simp)
    · exact .nothing rfl rfl rfl (by simp) (by simp) (by simp) (by simp)

end Member
end Linting
end MarkupLint
