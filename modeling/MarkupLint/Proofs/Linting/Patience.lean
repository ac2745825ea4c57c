import MarkupLint.Proofs.Linting.Acting

/-!
# Turns of members that may be idle

A member that may be idle as long as it likes is never cancelled.  Each of its turns runs a stretch
of its steps, wakes its task, moves its supervisor or its watch, or does nothing.
-/

namespace MarkupLint
namespace Linting
namespace Member

/-- What a turn does of a member that may be idle as long as it likes. -/
inductive Moved (setting : Setting) (now : Rat) (member : Member) (turn : Turn) (after : Course) :
    Prop where
  | nothing
      (member_eq : after.member = member)
      (turns_eq : after.turns = [])
      (delivered_eq : delivered after.effects = [])
      (task : turn = .task → member.task.isReady = false)
      (wake : turn = .wake → member.task.isSleeping = false)
      (supervisor : turn = .supervisor → member.supervision.isReady = false)
      (notice : turn = .notice → ∀ since, member.supervision ≠ .waiting since)
  | ran
      (steps : List Step)
      (watch : Watch)
      (woken : List Effect)
      (isTask : turn = .task)
      (task_eq : member.task = .fresh steps ∨ ∃ step, member.task = .rested step steps)
      (rouses : Course.Rouses member.watch watch woken)
      (member_eq : after.member = { member.afterStretch
        (Stretch.run setting.document now (.start member.reporter) steps) with watch := watch })
      (turns_eq : after.turns = woken ++ member.turnsBehind
        (Stretch.run setting.document now (.start member.reporter) steps).task)
      (delivered_eq : delivered after.effects = Reporter.delivered
        (Stretch.run setting.document now (.start member.reporter) steps).effects)
  | awoke
      (step : Step)
      (rest : List Step)
      (isWake : turn = .wake)
      (task_eq : member.task = .resting step rest)
      (member_eq : after.member = { member with task := .rested step rest })
      (turns_eq : after.turns = [.soon .task])
      (delivered_eq : delivered after.effects = [])
  | settled
      (ending : Ending)
      (isSupervisor : turn = .supervisor)
      (ready : member.supervision.isReady = true)
      (task_eq : member.task = .ended ending)
      (member_eq : after.member = { member with
        supervision := .ended
        watch := .ended
        reporter := (((Performance.start member.reporter).stop ending).settle now).reporter })
      (turns_eq : after.turns = [] ∨ after.turns = [.cancel .idle])
      (delivered_eq : delivered after.effects = Reporter.delivered
        (((Performance.start member.reporter).stop ending).settle now).effects)
  | supervised
      (isSupervisor : turn = .supervisor)
      (fresh : member.supervision = .fresh)
      (goesOn : member.task.ending? = none)
      (member_eq : after.member = { member with watch := .fresh, supervision := .waiting now })
      (turns_eq : after.turns = [.soon .watch, .cancel .idle])
      (delivered_eq : delivered after.effects = [])
  | awaited
      (since : Rat)
      (isSupervisor : turn = .supervisor)
      (woken : member.supervision = .woken since)
      (goesOn : member.task.ending? = none)
      (member_eq : after.member = { member with supervision := .waiting since })
      (turns_eq : after.turns = [.cancel .idle])
      (delivered_eq : delivered after.effects = [])
  | abandoned
      (since : Rat)
      (isSupervisor : turn = .supervisor)
      (woken : member.supervision = .woken since)
      (finished : member.reporter.isFinished = true)
      (member_eq : after.member =
        { member with supervision := .ended, isLate := true, watch := .ended })
      (turns_eq : after.turns = [.cancel .idle])
      (delivered_eq : delivered after.effects = [])
  | noticed
      (since : Rat)
      (isNotice : turn = .idle ∨ turn = .notice)
      (waiting : member.supervision = .waiting since)
      (member_eq : after.member = { member with supervision := .woken since })
      (turns_eq : after.turns = [.cancel .idle, .soon .supervisor])
      (delivered_eq : delivered after.effects = [])
  | watched
      (isWatch : turn = .watch)
      (ready : member.watch = .fresh ∨ member.watch = .woken)
      (member_eq : after.member = { member with watch := .ended })
      (turns_eq : after.turns = [.soon .notice])
      (delivered_eq : delivered after.effects = [])
  | armed
      (isWatch : turn = .watch)
      (fresh : member.watch = .fresh)
      (member_eq : after.member = { member with watch := .waiting })
      (turns_eq : after.turns = [])
      (delivered_eq : delivered after.effects = [])

theorem left?_of_unbounded
    {setting : Setting}
    (unbounded : setting.timeout? = none)
    (now since : Rat)
    (member : Member) :
    member.left? setting now since = none := by
  rw [left?, unbounded]
  rfl

theorem task_of_upcomingSteps?
    {member : Member}
    {steps : List Step}
    (calm : member.isCancelling = false)
    (known : member.upcomingSteps? = some steps) :
    member.task = .fresh steps ∨ ∃ step, member.task = .rested step steps := by
  unfold upcomingSteps? at known
  split at known
  · next others task =>
    rw [calm] at known
    cases known
    exact .inl task
  · next step rest task =>
    rw [calm] at known
    cases known
    exact .inr ⟨step, task⟩
  · contradiction

theorem moved
    {setting : Setting}
    {member : Member}
    (unbounded : setting.timeout? = none)
    (calm : member.isCancelling = false)
    (now : Rat)
    (turn : Turn) :
    Moved setting now member turn (member.take setting now turn) := by
  cases acted setting now member turn with
  | nothing member_eq turns_eq delivered_eq task wake supervisor notice =>
    refine .nothing member_eq turns_eq delivered_eq task (fun isWake => ?_) supervisor
      fun isNotice => notice (.inr isNotice)
    cases known : member.task with
    | resting step rest => exact absurd known (wake isWake step rest)
    | _ => rfl
  | ran steps watch woken isTask steps_eq rouses member_eq turns_eq delivered_eq =>
    exact .ran steps watch woken isTask (task_of_upcomingSteps? calm steps_eq) rouses member_eq
      turns_eq delivered_eq
  | awoke step rest isWake task_eq member_eq turns_eq delivered_eq =>
    exact .awoke step rest isWake task_eq member_eq turns_eq delivered_eq
  | settled ending isSupervisor ready task_eq member_eq turns_eq delivered_eq =>
    exact .settled ending isSupervisor ready task_eq member_eq turns_eq delivered_eq
  | supervised isSupervisor fresh goesOn member_eq turns_eq delivered_eq =>
    rw [left?_of_unbounded unbounded] at turns_eq
    exact .supervised isSupervisor fresh goesOn member_eq turns_eq delivered_eq
  | awaited since isSupervisor woken goesOn running timely member_eq turns_eq delivered_eq =>
    rw [left?_of_unbounded unbounded] at turns_eq
    exact .awaited since isSupervisor woken goesOn member_eq turns_eq delivered_eq
  | abandoned since isSupervisor woken goesOn finished member_eq turns_eq delivered_eq =>
    exact .abandoned since isSupervisor woken finished member_eq turns_eq delivered_eq
  | expired since watch roused isSupervisor woken goesOn running tardy =>
    rw [left?_of_unbounded unbounded] at tardy
    contradiction
  | noticed since isNotice waiting member_eq turns_eq delivered_eq =>
    exact .noticed since isNotice waiting member_eq turns_eq delivered_eq
  | watched isWatch ready member_eq turns_eq delivered_eq =>
    exact .watched isWatch (ready.imp_left And.left) member_eq turns_eq delivered_eq
  | armed isWatch fresh member_eq turns_eq delivered_eq =>
    exact .armed isWatch fresh member_eq turns_eq delivered_eq

end Member
end Linting
end MarkupLint
