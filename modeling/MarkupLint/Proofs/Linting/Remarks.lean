import MarkupLint.Proofs.Linting.Blame

/-!
# What the linting remarks and ignores

The only warnings that a linting logs are its remarks about instances: each says that a task has
failed that the supervisor had left to itself.  Other failures, the linting reports, and the reporter
of the instance ignores the reports that come when it is done.  Remarks are made in the turn in which
a member looks at the end of its task, and reports are ignored in a turn of the supervisor.
-/

namespace MarkupLint
namespace Linting

/-- The remark that an effect adds to the log. -/
def Effect.remark? : Effect → Option LogRecord
  | log record => if record.isRemark then some record else none
  | invoked _ record => if record.isRemark then some record else none
  | _ => none

/-- The remarks that effects add to the log, in order. -/
def remarks (effects : List Effect) : List LogRecord := effects.filterMap Effect.remark?

namespace Progress

theorem remarks_emit (progress : Progress) (effect : Effect) :
    remarks (progress.emit effect).effects = remarks progress.effects ++ effect.remark?.toList := by
  rw [remarks, emit, List.filterMap_append]
  cases known : effect.remark? <;> simp [remarks, known]

/-- What is no warning is no remark. -/
theorem remarks_log
    {level : LogLevel}
    (harmless : level ≠ .warning)
    (progress : Progress)
    (message : String) :
    remarks (progress.log level message).effects = remarks progress.effects := by
  rw [log, remarks_emit]
  simp [Effect.remark?, record, LogRecord.isRemark, harmless]

theorem remarks_called (progress : Progress) (labels : List String) :
    remarks (progress.called labels).effects = remarks progress.effects := by
  rw [effects_called, remarks, List.filterMap_append]
  simp [remarks, List.filterMap_map, Function.comp_def, Effect.remark?]

theorem remarks_countDone (progress : Progress) (index : Nat) :
    remarks (progress.countDone index).effects = remarks progress.effects := by
  simp only [countDone]
  split
  · rfl
  · split
    · rw [remarks_emit]
      simp only [modify]
      rw [remarks_log (by simp)]
      simp [Effect.remark?]
    · rw [remarks_log (by simp)]
      rfl

theorem remarks_absorb (index : Nat) (progress : Progress) (effect : Member.Effect) :
    remarks (absorb index progress effect).effects =
      remarks progress.effects ++ Member.remarks [effect] := by
  cases effect with
  | finished =>
    rw [absorb, remarks_countDone]
    exact (List.append_nil _).symm
  | delivered diagnostic => exact (List.append_nil _).symm
  | log record =>
    rw [absorb, remarks_emit]
    simp only [Effect.remark?, Member.remarks, Member.Effect.remark?, List.filterMap_cons,
      List.filterMap_nil]
    split <;> rfl
  | _ => rw [absorb, remarks_emit]; rfl

/-- What a linting takes over from a member adds the remarks of the member. -/
theorem remarks_follow (progress : Progress) (index : Nat) (course : Member.Course) :
    remarks (progress.follow index course).effects =
      remarks progress.effects ++ Member.remarks course.effects := by
  have folded : ∀ (effects : List Member.Effect) (before : Progress),
      remarks (effects.foldl (absorb index) before).effects =
        remarks before.effects ++ Member.remarks effects := by
    intro effects
    induction effects with
    | nil => exact fun before => (List.append_nil _).symm
    | cons effect rest ih =>
      intro before
      rw [List.foldl_cons, ih, remarks_absorb, List.append_assoc, ← Member.remarks_append,
        List.singleton_append]
  exact folded course.effects (progress.setMember index course.member)

theorem remarks_invoke (progress : Progress) (index : Nat) (now : Rat) :
    remarks (progress.invoke index now).1.effects = remarks progress.effects := by
  simp only [invoke]
  split
  · rfl
  · next member known =>
    rw [remarks_follow, (Member.discreet_invoke _ now member).remarks_eq, remarks_emit]
    simp [Effect.remark?, record, LogRecord.isRemark]

theorem remarks_finish (progress : Progress) :
    remarks progress.finish.effects = remarks progress.effects := by
  have closed : ∀ (before : Progress) (outcome : Outcome),
      remarks (before.close outcome).effects = remarks before.effects := by
    intro before outcome
    rw [close, remarks_emit]
    exact List.append_nil _
  simp only [finish]
  split <;>
    rw [closed, remarks_called] <;>
    exact remarks_log (by simp) _ _

theorem remarks_begin (progress : Progress) (now : Rat) :
    remarks (progress.begin now).effects = remarks progress.effects := by
  have invoked : remarks (progress.invokeEvery now).1.effects = remarks progress.effects :=
    @invokeAll_induction (fun later => remarks later.effects = remarks progress.effects) now
      (fun later index same => (remarks_invoke later index now).trans same) progress.enter rfl _
  cases progress.begun now with
  | stopped failure stops same =>
    rw [same, close, remarks_emit]
    exact (List.append_nil _).trans invoked
  | waiting goesOn some same =>
    rw [same]
    exact invoked
  | finished goesOn none same =>
    rw [same, remarks_finish]
    exact invoked

end Progress

/-- The warning that the instance with a key has failed when it was done. -/
def lateRecord (name : String) (key : String × Int) (failure : Failure) : LogRecord :=
  Progress.record .warning (s!"Rule '{key.1}' (#{key.2}) failed on {name} " ++
    s!"after it was done: {failure.display}")

namespace Member

/-- The remarks about a task that came too late, when it has ended. -/
def lateRemarks (name : String) (member : Member) : List LogRecord :=
  match member.task with
  | .ended (.failed failure) => [lateRecord name member.key failure]
  | _ => []

/-- A member makes its remarks when it looks at the end of a late task. -/
theorem remarks_take (setting : Setting) (now : Rat) (member : Member) (turn : Turn) :
    remarks (member.take setting now turn).effects =
      if turn = .late then member.lateRemarks setting.name else [] := by
  split
  · next late =>
    subst late
    simp only [take, noteLate, lateRemarks]
    split <;> simp_all [remarks, Effect.remark?, LogRecord.isRemark, lateRecord, Progress.record,
      key]
  · next timely => exact (discreet_take setting now member timely).remarks_eq

end Member

/-- Remarks, each with the index of the member that it is about. -/
abbrev Remarks := List (Nat × LogRecord)

namespace Remarks

/-- The remarks about the member with an index, in order. -/
def of (remarks : Remarks) (index : Nat) : List LogRecord :=
  remarks.filterMap fun remark => if remark.1 = index then some remark.2 else none

theorem of_append (first second : Remarks) (index : Nat) :
    of (first ++ second) index = first.of index ++ second.of index :=
  List.filterMap_append

theorem of_nil (index : Nat) : of [] index = [] := rfl

theorem of_map (index other : Nat) (records : List LogRecord) :
    of (records.map (index, ·)) other = if index = other then records else [] := by
  simp only [of, List.filterMap_map, Function.comp_def]
  split
  · exact List.filterMap_some
  · simp

end Remarks

/-- The remarks that a turn adds to the log. -/
def turnRemarks (linting : Linting) (now : Rat) : Turn → Remarks
  | .run => []
  | .member index turn =>
    match linting.members[index]? with
    | some member =>
      (Member.remarks (member.take linting.toSetting now turn).effects).map (index, ·)
    | none => []

/-- All remarks of a turn are about members. -/
theorem remarks_take (linting : Linting) (now : Rat) (turn : Turn) :
    remarks (linting.take now turn).effects = (linting.turnRemarks now turn).map (·.2) := by
  cases taken linting now turn with
  | nothing idle nobody same =>
    have silent : linting.turnRemarks now turn = [] := by
      cases turn with
      | run => rfl
      | member index own => simp only [turnRemarks, nobody index own rfl]
    rw [same, silent]
    rfl
  | begin isRun scheduled same =>
    rw [same, isRun, Progress.remarks_begin]
    rfl
  | finish isRun settled same =>
    rw [same, isRun, Progress.remarks_finish]
    rfl
  | member index own member isMember known same =>
    rw [same, isMember, Progress.remarks_follow]
    simp [turnRemarks, known, Progress.start, remarks]

namespace Session

/-- The log of a session, from its beginning on. -/
def log (session : Session) : List LogRecord :=
  session.answers.reverse.flatMap (·.logs) ++ session.logs

/-- The remarks in the log of a session, in order. -/
def remarked (session : Session) : List LogRecord := session.log.filter (·.isRemark)

theorem remarked_absorb (session : Session) (effect : Effect) :
    (session.absorb effect).remarked = session.remarked ++ effect.remark?.toList := by
  have noted : ∀ record : LogRecord,
      ({ session with logs := session.logs ++ [record] } : Session).remarked =
        session.remarked ++ (if record.isRemark then some record else none).toList := by
    intro record
    simp only [remarked, log, ← List.append_assoc, List.filter_append]
    cases known : record.isRemark <;> simp [known]
  cases effect with
  | log record => exact noted record
  | invoked index record => exact noted record
  | ended =>
    simp only [absorb]
    split <;> exact (List.append_nil _).symm
  | _ => exact (List.append_nil _).symm

theorem remarked_follow (session : Session) (progress : Progress) :
    (session.follow progress).remarked = session.remarked ++ remarks progress.effects := by
  have folded : ∀ (effects : List Effect) (before : Session),
      (effects.foldl absorb before).remarked = before.remarked ++ remarks effects := by
    intro effects
    induction effects with
    | nil => exact fun before => (List.append_nil _).symm
    | cons effect rest ih =>
      intro before
      rw [List.foldl_cons, ih, remarked_absorb, List.append_assoc]
      congr 1
      simp only [remarks, List.filterMap_cons]
      cases effect.remark? <;> rfl
  exact folded progress.effects { session with linting := progress.linting }

/-- An answer takes over the log. -/
theorem remarked_answer (session : Session) (reply : Reply) :
    (session.answer reply).remarked = session.remarked := by
  simp [remarked, log, answer]

theorem remarked_request (session : Session) (request : Request) :
    (session.request request).remarked = session.remarked := by
  cases request with
  | subscribe milestone observer =>
    rw [Session.request, remarked_answer, remarked_follow, Linting.subscribe,
      Progress.remarks_called]
    exact List.append_nil _
  | misdirected word => exact remarked_answer _ _
  | start =>
    have silent : remarks session.linting.start.1.effects = [] := by
      simp only [Linting.start]
      split
      · rfl
      · rw [Progress.remarks_called]
        rfl
    rw [Session.request, remarked_answer, remarked_follow, silent, List.append_nil]
  | wait =>
    simp only [Session.request]
    split
    · exact remarked_answer _ _
    · rfl
  | advance seconds => rfl

theorem remarked_makeRequests (session : Session) (requests : List Request) :
    (session.makeRequests requests).remarked = session.remarked := by
  induction requests generalizing session with
  | nil => rfl
  | cons next rest ih =>
    simp only [Session.makeRequests]
    split
    · rw [ih, remarked_request]
    · exact remarked_request session next

/-- Going on with the caller adds no remarks. -/
theorem remarked_resume (session : Session) : session.resume.remarked = session.remarked := by
  have caught : session.catchUp.remarked = session.remarked := by
    unfold catchUp
    split
    · rfl
    · exact remarked_answer _ _
    · split
      · exact remarked_answer _ _
      · rfl
  simp only [Session.resume]
  split
  · rw [remarked_makeRequests, caught]
  · exact caught

/-- The remarks that the next turn adds to the log, if there is one. -/
def nextRemarks (session : Session) : Remarks :=
  match session.schedule.next? with
  | some (.linting turn, schedule) => session.linting.turnRemarks schedule.now turn
  | _ => []

/-- The remarks that at most the given number of turns add to the log. -/
def remarks : Nat → Session → Remarks
  | 0, _ => []
  | turns + 1, session =>
    session.nextRemarks ++
      match session.step? with
      | none => []
      | some later => remarks turns later

theorem remarked_step
    {session later : Session}
    (stepped : session.step? = some later) :
    later.remarked = session.remarked ++ session.nextRemarks.map (·.2) := by
  obtain ⟨⟨turn, schedule⟩, next, rfl⟩ := Option.map_eq_some_iff.mp stepped
  simp only [nextRemarks, next]
  cases turn with
  | linting turn =>
    rw [Session.take, remarked_follow, remarks_take]
    rfl
  | caller =>
    rw [Session.take, remarked_resume]
    exact (List.append_nil _).symm
  | wakeCaller => exact (List.append_nil _).symm

/-- All remarks in the log of a session are about members. -/
theorem remarked_goOn (session : Session) (turns : Nat) :
    (session.goOn turns).remarked = session.remarked ++ (session.remarks turns).map (·.2) := by
  induction turns generalizing session with
  | zero => exact (List.append_nil _).symm
  | succ turns ih =>
    simp only [Session.goOn, remarks]
    cases stepped : session.step? with
    | none =>
      have stuck : session.schedule.next? = none := Option.map_eq_none_iff.mp stepped
      simp [nextRemarks, stuck]
    | some later =>
      dsimp only
      rw [ih, remarked_step stepped, List.append_assoc, List.map_append]

theorem nextRemarks_of_isExhausted {session : Session} (exhausted : session.IsExhausted) :
    session.nextRemarks = [] := by
  have stuck : session.schedule.next? = none := Option.map_eq_none_iff.mp exhausted
  simp only [nextRemarks, stuck]

theorem remarks_of_isExhausted
    {session : Session}
    (exhausted : session.IsExhausted)
    (turns : Nat) :
    session.remarks turns = [] := by
  have stuck : session.step? = none := exhausted
  cases turns with
  | zero => rfl
  | succ turns => simp only [remarks, stuck, nextRemarks_of_isExhausted exhausted, List.append_nil]

theorem remarks_add (session : Session) (turns more : Nat) :
    session.remarks (turns + more) = session.remarks turns ++ (session.goOn turns).remarks more := by
  induction turns generalizing session with
  | zero => rw [Nat.zero_add, goOn, remarks, List.nil_append]
  | succ turns ih =>
    rw [Nat.succ_add, remarks, remarks, goOn, List.append_assoc]
    cases stepped : session.step? with
    | some later => exact congrArg _ (ih later)
    | none => simp only [remarks_of_isExhausted stepped, List.append_nil]

end Session

open Incident

namespace Incident

/-- The record of a report of the linting that is dropped. -/
def ignored? : Incident → Option LogRecord
  | linting (.dropped record) => some record
  | _ => none

/-- The records of the reports of the linting that are dropped, in order. -/
def ignored (incidents : List Incident) : List LogRecord := incidents.filterMap ignored?

theorem ignored_append (first second : List Incident) :
    ignored (first ++ second) = ignored first ++ ignored second :=
  List.filterMap_append

@[simp] theorem ignored_script (own : List Reporter.Effect) : ignored (own.map script) = [] := by
  simp [ignored, ignored?]

/-- The linting ignores nothing when only the script uses the reporter. -/
theorem ignored_ofUses_self (own : List Reporter.Effect) (mishap? : Option Mishap) :
    ignored (ofUses own own mishap?) = [] := by
  have silent : ignored (mishap?.toList.map wentWrong) = [] := by simp [ignored, ignored?]
  rw [ofUses, ignored_append, ignored_append, ignored_script, silent, List.drop_length]
  rfl

/-- What the linting ignores of a turn in which the script is not run. -/
theorem ignored_ofUses_nil (all : List Reporter.Effect) (mishap? : Option Mishap) :
    ignored (ofUses [] all mishap?) = ignored (all.map linting) := by
  have silent : ignored (mishap?.toList.map wentWrong) = [] := by simp [ignored, ignored?]
  rw [ofUses, ignored_append, ignored_append, silent]
  rfl

end Incident

namespace Member

/-- Only the supervisor lets the linting use the reporter. -/
theorem uses_take
    {turn : Turn}
    (other : turn ≠ .supervisor)
    (setting : Setting)
    (now : Rat)
    (member : Member) :
    uses (member.take setting now turn).effects = member.ownUses setting now turn := by
  cases turn with
  | task =>
    simp only [take, runTask, ownUses, stretch?]
    cases member.upcomingSteps? with
    | none => rfl
    | some steps => exact (uses_rest (used_run setting.document now member.reporter steps)).1
  | wake =>
    simp only [take, wakeTask]
    split <;> rfl
  | supervisor => contradiction
  | idle =>
    simp only [take, wakeSupervisor]
    split <;> rfl
  | watch =>
    simp only [take, watchReporter]
    split
    · rfl
    · split <;> rfl
  | notice =>
    simp only [take, wakeSupervisor]
    split <;> rfl
  | late =>
    simp only [take, noteLate]
    split
    · simp [uses_cons, Effect.use?, ownUses, stretch?]
    · rfl

/-- Outside the turns of the supervisor, the linting ignores nothing. -/
theorem ignored_incidents
    {turn : Turn}
    (other : turn ≠ .supervisor)
    (setting : Setting)
    (now : Rat)
    (member : Member) :
    ignored (member.incidents setting now turn) = [] := by
  rw [incidents, uses_take other, ignored_ofUses_self]

theorem Course.uses_cancelTask (course : Course) :
    uses course.cancelTask.effects = uses course.effects := by
  unfold cancelTask
  split <;> simp [uses_append, uses_cons, Effect.use?]

theorem Course.uses_await (course : Course) (since : Rat) (idleLeft? : Option Rat) :
    uses (course.await since idleLeft?).effects = uses course.effects := by
  unfold await
  cases idleLeft? <;> simp [uses_append, uses_cons, Effect.use?]

/-- Letting the reporter be done behind a report uses the reporter for both. -/
theorem Course.uses_use_finish
    (course : Course)
    (now : Rat)
    (message : String) :
    uses ((course.use (·.report now .error message none)).use (·.finish)).effects =
      uses course.effects ++ (course.member.reporter.report now .error message none).2 ++
        (course.member.reporter.report now .error message none).1.finish.2 := by
  have reported := @uses_use course (·.report now .error message none) (.report _ _ _ _ _)
  have finished := @uses_use (course.use (·.report now .error message none)) (·.finish) (.finish _)
  rw [finished.1, reported.1, reported.2]

/-- As long as the task goes on, no report of the linting is ignored. -/
theorem ignored_supervisor
    {member : Member}
    (goesOn : member.task.ending? = none ∨ member.supervision.isReady = false)
    (setting : Setting)
    (now : Rat) :
    ignored (member.incidents setting now .supervisor) = [] := by
  have silent : ∀ effects : List Effect, uses effects = [] →
      ignored ((uses effects).map Incident.linting) = [] := by
    intro effects none
    rw [none]
    rfl
  rw [incidents_of_idle rfl, ignored_ofUses_nil]
  simp only [take, supervise]
  cases supervision : member.supervision with
  | fresh =>
    simp only [goesOn.resolve_right (by simp [supervision, Supervision.isReady])]
    exact silent _ (Course.uses_await _ _ _)
  | woken since =>
    simp only [goesOn.resolve_right (by simp [supervision, Supervision.isReady])]
    split
    · exact silent _ rfl
    · next running =>
      split
      · rw [Course.expire, Course.abandon, Course.effects_emit, Course.effects_modify, uses_append,
          Course.uses_use_finish, Course.uses_cancelTask, (Course.start member).cancelTask_eq.1]
        simp [Reporter.report, Reporter.finish, running, uses_cons, Effect.use?, ignored, ignored?]
      · exact silent _ (Course.uses_await _ _ _)
  | _ => rfl

/-- When the task has failed, the supervisor has its report ignored if the reporter is done, and lets
the reporter be done otherwise. -/
theorem incidents_of_failed
    {member : Member}
    {failure : Failure}
    (ready : member.supervision.isReady = true)
    (failed : member.task = .ended (.failed failure))
    (setting : Setting)
    (now : Rat) :
    ignored (member.incidents setting now .supervisor) =
        [Reporter.droppedRecord member.reporter.rule failure.report] ∨
      .linting .finished ∈ member.incidents setting now .supervisor := by
  have settled : ∀ course : Course, course.member = member → uses course.effects = [] →
      uses (course.settle now (.failed failure)).effects =
        (member.reporter.report now .error failure.report none).2 ++
          (member.reporter.report now .error failure.report none).1.finish.2 := by
    intro course same unused
    have closed := Course.uses_use_finish
      (course.modify fun member => { member with supervision := .ended, watch := .ended }) now
      failure.report
    rw [Course.effects_modify, Course.member_modify, same, unused, List.nil_append] at closed
    exact closed
  have uses_eq : uses (member.take setting now .supervisor).effects =
      (member.reporter.report now .error failure.report none).2 ++
        (member.reporter.report now .error failure.report none).1.finish.2 := by
    simp only [take, supervise]
    cases supervision : member.supervision with
    | fresh =>
      simp only [failed, Task.ending?]
      exact settled _ rfl rfl
    | woken since =>
      simp only [failed, Task.ending?]
      exact settled _ rfl rfl
    | _ => simp [supervision, Supervision.isReady] at ready
  rw [incidents_of_idle rfl, ignored_ofUses_nil, uses_eq]
  cases finished : member.reporter.isFinished with
  | true =>
    refine .inl ?_
    simp [Reporter.report, Reporter.finish, finished, ignored, ignored?]
  | false =>
    refine .inr ?_
    simp [Reporter.report, Reporter.finish, finished, ofUses]

/-- Beginning with what is awaited, the linting does not use the reporter. -/
theorem ignored_invocationIncidents
    {setting : Setting}
    {now : Rat}
    {member : Member}
    {steps : List Step}
    (goesOn : (Action.performAll setting.document now (.start member.reporter)
      member.script.immediate).ending? = none)
    (awaits : member.script.awaited? = some steps) :
    ignored (member.invocationIncidents setting now) = [] := by
  have used := member.used_immediate setting now
  rw [invocationIncidents]
  simp only [invoke]
  generalize Action.performAll setting.document now (.start member.reporter) member.script.immediate =
    performed at used goesOn
  simp only [goesOn, awaits, Option.bind_none, Course.proceed, Course.launch, Course.effects_emit,
    Course.effects_modify, uses_append,
    (@Course.uses_use (.start member) (fun _ => (performed.reporter, performed.effects)) used).1]
  simp only [uses_cons, Effect.use?, Course.effects_start, uses_nil, Option.toList_none,
    List.append_nil, List.nil_append]
  exact ignored_ofUses_self _ _

end Member

end Linting
end MarkupLint
