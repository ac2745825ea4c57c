import MarkupLint.Proofs.Linting.Remarks

/-!
# How the linting keeps up with a task

A supervisor sees the end of its task, or it ends before the task does and leaves it to itself.  In
the latter case, the member has one turn more when the task has ended, in which it looks at the end.
So each failure is either reported to the reporter of the instance or remarked, and never both.
-/

namespace MarkupLint
namespace Linting

open Incident

/-- How far the linting has come with a member whose task may end too late: what it has remarked and
ignored, with the number of turns that are on the schedule for looking at the end of the task. -/
inductive Standing
    (name : String)
    (member : Member)
    (pending : Nat)
    (remarks : List LogRecord)
    (incidents : List Incident) :
    Prop where
  /-- Nothing is awaited. -/
  | absent
      (unsupervised : member.supervision = .absent)
      (unawaited : member.task = .absent)
      (timely : member.isLate = false)
      (pending_eq : pending = 0)
      (remarks_eq : remarks = [])
  /-- The supervisor waits for the end of the task. -/
  | supervised
      (attends : member.supervision ≠ .absent ∧ member.supervision ≠ .ended)
      (timely : member.isLate = false)
      (pending_eq : pending = 0)
      (remarks_eq : remarks = [])
      (ignored_eq : ignored incidents = [])
  /-- The supervisor has seen the end of the task. -/
  | settled
      (settled : member.supervision = .ended)
      (timely : member.isLate = false)
      (ended : member.task.ending?.isSome = true)
      (pending_eq : pending = 0)
      (remarks_eq : remarks = [])
      (ignored_eq : ∀ failure, member.task = .ended (.failed failure) →
        ignored incidents = [Reporter.droppedRecord member.key.1 failure.report] ∨
          .linting .finished ∈ incidents)
  /-- The task goes on without the supervisor. -/
  | left
      (settled : member.supervision = .ended)
      (late : member.isLate = true)
      (goesOn : member.task.ending? = none)
      (pending_eq : pending = 0)
      (remarks_eq : remarks = [])
      (ignored_eq : ignored incidents = [])
  /-- The task has ended without the supervisor. -/
  | due
      (settled : member.supervision = .ended)
      (late : member.isLate = true)
      (ended : member.task.ending?.isSome = true)
      (pending_eq : pending = 1)
      (remarks_eq : remarks = [])
      (ignored_eq : ignored incidents = [])
  /-- The linting has looked at the end of a task that ended without the supervisor. -/
  | remarked
      (settled : member.supervision = .ended)
      (late : member.isLate = true)
      (ended : member.task.ending?.isSome = true)
      (pending_eq : pending = 0)
      (remarks_eq : remarks = member.lateRemarks name)
      (ignored_eq : ignored incidents = [])

namespace Standing

variable {name : String} {member after : Member} {pending later : Nat} {remarks : List LogRecord}
  {incidents more : List Incident}

/-- As long as neither the supervisor nor the task moves, the linting does not come further. -/
theorem stays
    (standing : Standing name member pending remarks incidents)
    (same : after.supervision = member.supervision ∧ after.isLate = member.isLate ∧
      after.task = member.task ∧ after.key = member.key)
    (unignored : ignored more = []) :
    Standing name after pending remarks (incidents ++ more) := by
  obtain ⟨supervision_eq, isLate_eq, task_eq, key_eq⟩ := same
  have ignored_eq : ignored (incidents ++ more) = ignored incidents := by
    rw [ignored_append, unignored, List.append_nil]
  cases standing with
  | absent unsupervised unawaited timely pending_eq remarks_eq =>
    exact .absent (supervision_eq.trans unsupervised) (task_eq.trans unawaited)
      (isLate_eq.trans timely) pending_eq remarks_eq
  | supervised attends timely pending_eq remarks_eq unnoted =>
    exact .supervised (supervision_eq ▸ attends) (isLate_eq.trans timely) pending_eq remarks_eq
      (ignored_eq.trans unnoted)
  | settled settled timely ended pending_eq remarks_eq noted =>
    refine .settled (supervision_eq.trans settled) (isLate_eq.trans timely) (task_eq ▸ ended)
      pending_eq remarks_eq fun failure failed => ?_
    rw [ignored_eq, key_eq]
    exact (noted failure (task_eq ▸ failed)).imp_right (List.mem_append_left _)
  | left settled late goesOn pending_eq remarks_eq unnoted =>
    exact .left (supervision_eq.trans settled) (isLate_eq.trans late) (task_eq ▸ goesOn) pending_eq
      remarks_eq (ignored_eq.trans unnoted)
  | due settled late ended pending_eq remarks_eq unnoted =>
    exact .due (supervision_eq.trans settled) (isLate_eq.trans late) (task_eq ▸ ended) pending_eq
      remarks_eq (ignored_eq.trans unnoted)
  | remarked settled late ended pending_eq remarks_eq unnoted =>
    refine .remarked (supervision_eq.trans settled) (isLate_eq.trans late) (task_eq ▸ ended)
      pending_eq ?_ (ignored_eq.trans unnoted)
    rw [remarks_eq, Member.lateRemarks, Member.lateRemarks, task_eq, key_eq]

/-- The linting looks at the end of a task only once, and remarks it. -/
theorem looks
    (standing : Standing name member pending remarks incidents)
    (some : 0 < pending) :
    Standing name member (pending - 1) (remarks ++ member.lateRemarks name) incidents := by
  cases standing with
  | due settled late ended pending_eq remarks_eq unnoted =>
    refine .remarked settled late ended (by omega) ?_ unnoted
    rw [remarks_eq, List.nil_append]
  | absent _ _ _ pending_eq => omega
  | supervised _ _ pending_eq => omega
  | settled _ _ _ pending_eq => omega
  | left _ _ _ pending_eq => omega
  | remarked _ _ _ pending_eq => omega

/-- As long as neither the supervisor nor the task moves, only looking at the end of the task
matters. -/
theorem rests
    {turn : Member.Turn}
    (standing : Standing name member pending remarks incidents)
    (taken : turn = .late → 0 < pending)
    (counted : later + (if turn = .late then 1 else 0) = pending)
    (same : after.supervision = member.supervision ∧ after.isLate = member.isLate ∧
      after.task = member.task ∧ after.key = member.key)
    (unignored : ignored more = []) :
    Standing name after later (remarks ++ if turn = .late then member.lateRemarks name else [])
      (incidents ++ more) := by
  split
  · next looking =>
    rw [if_pos looking] at counted
    obtain rfl : later = pending - 1 := by omega
    exact (standing.looks (taken looking)).stays same unignored
  · next other =>
    rw [if_neg other, Nat.add_zero] at counted
    rw [List.append_nil, counted]
    exact standing.stays same unignored

/-- A supervisor that has a turn, or waits, has not seen the end of the task. -/
theorem of_attends
    (standing : Standing name member pending remarks incidents)
    (attends : member.supervision ≠ .absent ∧ member.supervision ≠ .ended) :
    member.isLate = false ∧ pending = 0 ∧ remarks = [] ∧ ignored incidents = [] := by
  cases standing with
  | absent unsupervised => exact absurd unsupervised attends.1
  | supervised _ timely pending_eq remarks_eq ignored_eq =>
    exact ⟨timely, pending_eq, remarks_eq, ignored_eq⟩
  | settled settled => exact absurd settled attends.2
  | left settled => exact absurd settled attends.2
  | due settled => exact absurd settled attends.2
  | remarked settled => exact absurd settled attends.2

/-- A supervisor that waits goes on waiting. -/
theorem waits
    (standing : Standing name member pending remarks incidents)
    (attends : member.supervision ≠ .absent ∧ member.supervision ≠ .ended)
    (still : after.supervision ≠ .absent ∧ after.supervision ≠ .ended)
    (isLate_eq : after.isLate = member.isLate)
    (counted : later = pending)
    (unignored : ignored more = []) :
    Standing name after later remarks (incidents ++ more) := by
  obtain ⟨timely, pending_eq, remarks_eq, ignored_eq⟩ := standing.of_attends attends
  refine .supervised still (isLate_eq.trans timely) (counted.trans pending_eq) remarks_eq ?_
  rw [ignored_append, ignored_eq, unignored, List.append_nil]

/-- A supervisor that waits may see the end of the task. -/
theorem sees
    (standing : Standing name member pending remarks incidents)
    (attends : member.supervision ≠ .absent ∧ member.supervision ≠ .ended)
    (settled : after.supervision = .ended)
    (isLate_eq : after.isLate = member.isLate)
    (ended : after.task.ending?.isSome = true)
    (counted : later = pending)
    (noted : ∀ failure, after.task = .ended (.failed failure) →
      ignored more = [Reporter.droppedRecord after.key.1 failure.report] ∨
        .linting .finished ∈ more) :
    Standing name after later remarks (incidents ++ more) := by
  obtain ⟨timely, pending_eq, remarks_eq, ignored_eq⟩ := standing.of_attends attends
  refine .settled settled (isLate_eq.trans timely) ended (counted.trans pending_eq) remarks_eq
    fun failure failed => ?_
  rw [ignored_append, ignored_eq, List.nil_append]
  exact (noted failure failed).imp_right (List.mem_append_right _)

/-- A supervisor that waits may leave the task alone. -/
theorem leaves
    (standing : Standing name member pending remarks incidents)
    (attends : member.supervision ≠ .absent ∧ member.supervision ≠ .ended)
    (settled : after.supervision = .ended)
    (late : after.isLate = true)
    (goesOn : after.task.ending? = none)
    (counted : later = pending)
    (unignored : ignored more = []) :
    Standing name after later remarks (incidents ++ more) := by
  obtain ⟨-, pending_eq, remarks_eq, ignored_eq⟩ := standing.of_attends attends
  refine .left settled late goesOn (counted.trans pending_eq) remarks_eq ?_
  rw [ignored_append, ignored_eq, unignored, List.append_nil]

/-- A task that goes on brings a turn for looking at its end when it ends without the supervisor. -/
theorem proceeds
    (standing : Standing name member pending remarks incidents)
    (awaited : member.task ≠ .absent)
    (goesOn : member.task.ending? = none)
    (counted : later = pending +
      if member.isLate = true ∧ after.task.ending?.isSome = true then 1 else 0)
    (same : after.supervision = member.supervision ∧ after.isLate = member.isLate)
    (unignored : ignored more = []) :
    Standing name after later remarks (incidents ++ more) := by
  have ignored_eq : ignored (incidents ++ more) = ignored incidents := by
    rw [ignored_append, unignored, List.append_nil]
  obtain ⟨supervision_eq, isLate_eq⟩ := same
  have going : member.task.ending?.isSome ≠ true := by simp [goesOn]
  cases standing with
  | absent _ unawaited => exact absurd unawaited awaited
  | supervised attends timely pending_eq remarks_eq unnoted =>
    refine .supervised (supervision_eq ▸ attends) (isLate_eq.trans timely) ?_ remarks_eq
      (ignored_eq.trans unnoted)
    simpa [timely, pending_eq] using counted
  | settled _ _ ended => exact absurd ended going
  | left settled late _ pending_eq remarks_eq unnoted =>
    rw [pending_eq] at counted
    cases ending : after.task.ending? with
    | none =>
      refine .left (supervision_eq.trans settled) (isLate_eq.trans late) ending ?_ remarks_eq
        (ignored_eq.trans unnoted)
      simpa [ending] using counted
    | some _ =>
      refine .due (supervision_eq.trans settled) (isLate_eq.trans late) (by simp [ending]) ?_
        remarks_eq (ignored_eq.trans unnoted)
      simpa [late, ending] using counted
  | due _ _ ended => exact absurd ended going
  | remarked _ _ ended => exact absurd ended going

/-- When a task has failed too late, there is a turn for looking at it, or the linting has remarked it. -/
theorem of_late
    {failure : Failure}
    (standing : Standing name member pending remarks incidents)
    (failed : member.task = .ended (.failed failure))
    (late : member.isLate = true) :
    pending = 1 ∧ remarks = [] ∨
      remarks = [lateRecord name member.key failure] ∧ ignored incidents = [] := by
  cases standing with
  | absent _ _ timely => simp [late] at timely
  | supervised _ timely => simp [late] at timely
  | settled _ timely => simp [late] at timely
  | left _ _ goesOn => simp [failed, Task.ending?] at goesOn
  | due _ _ _ pending_eq remarks_eq => exact .inl ⟨pending_eq, remarks_eq⟩
  | remarked _ _ _ _ remarks_eq ignored_eq =>
    refine .inr ⟨?_, ignored_eq⟩
    rw [remarks_eq, Member.lateRemarks, failed]

/-- When the supervisor has seen the failure of a task, it has had its report ignored, or has let the
reporter be done. -/
theorem of_settled
    {failure : Failure}
    (standing : Standing name member pending remarks incidents)
    (failed : member.task = .ended (.failed failure))
    (settled : member.supervision = .ended)
    (timely : member.isLate = false) :
    remarks = [] ∧ (ignored incidents = [Reporter.droppedRecord member.key.1 failure.report] ∨
      .linting .finished ∈ incidents) := by
  cases standing with
  | absent unsupervised => simp [settled] at unsupervised
  | supervised attends => exact absurd settled attends.2
  | settled _ _ _ _ remarks_eq noted => exact ⟨remarks_eq, noted failure failed⟩
  | left _ late => simp [timely] at late
  | due _ late => simp [timely] at late
  | remarked _ late => simp [timely] at late

/-- A task that goes on when its supervisor has ended is left to itself. -/
theorem isLate_of_left
    (standing : Standing name member pending remarks incidents)
    (settled : member.supervision = .ended)
    (goesOn : member.task.ending? = none) :
    member.isLate = true := by
  cases standing with
  | absent unsupervised => simp [settled] at unsupervised
  | supervised attends => exact absurd settled attends.2
  | settled _ _ ended => simp [goesOn] at ended
  | left _ late => exact late
  | due _ late => exact late
  | remarked _ late => exact late

/-- There is at most one turn for looking at the end of the task. -/
theorem pending_le (standing : Standing name member pending remarks incidents) : pending ≤ 1 := by
  cases standing <;> omega

end Standing

namespace Member

theorem countP_turnsBehind (member : Member) (task : Task) :
    (member.turnsBehind task).countP (·.brings .late) =
      if member.isLate = true ∧ task.ending?.isSome = true then 1 else 0 := by
  unfold turnsBehind
  split
  · simp [Effect.brings, Task.ending?]
  · simp [Effect.brings, Task.ending?]
  · split
    · next late => simp [Effect.brings, late, Task.ending?]
    · next timely => split <;> simp [Effect.brings, timely]
  · next others =>
    have going : task.ending? = none := by
      cases task with
      | ended ending => exact absurd rfl (others ending)
      | _ => rfl
    simp [going]

/-- Cancelling a task does not end it. -/
theorem Course.ending?_cancelTask
    {course : Course}
    (goesOn : course.member.task.ending? = none) :
    course.cancelTask.member.task.ending? = none := by
  unfold cancelTask
  split <;> simp_all [Task.ending?]

/-- Cancelling a task demands no turn for looking at its end. -/
theorem Course.countP_cancelTask (member : Member) :
    (start member).cancelTask.turns.countP (·.brings .late) = 0 := by
  unfold cancelTask
  split <;> simp [turns, Effect.isTurn, Effect.brings]

theorem countP_idleTurns (left? : Option Rat) :
    (idleTurns left?).countP (·.brings .late) = 0 := by
  cases left? <;> simp [idleTurns, Effect.brings]

theorem Course.Rouses.countP_late
    {before after : Watch}
    {roused : List Effect}
    (rouses : Rouses before after roused) :
    roused.countP (·.brings .late) = 0 := by
  cases rouses with
  | still watch_eq turns_eq => simp [turns_eq]
  | roused waiting watch_eq turns_eq => simp [turns_eq, Effect.brings]

end Member

/-- What a member does in a turn, the linting keeps up with. -/
theorem Standing.take
    {setting : Setting}
    {member : Member}
    {pending later : Nat}
    {remarks : List LogRecord}
    {incidents : List Incident}
    {now : Rat}
    {turn : Member.Turn}
    (standing : Standing setting.name member pending remarks incidents)
    (taken : turn = .late → 0 < pending)
    (counted : later + (if turn = .late then 1 else 0) =
      pending + (member.take setting now turn).turns.countP (·.brings .late)) :
    Standing setting.name (member.take setting now turn).member later
      (remarks ++ Member.remarks (member.take setting now turn).effects)
      (incidents ++ member.incidents setting now turn) := by
  have key_eq := (member.conduct_take setting now turn).key_eq
  have unsupervised := fun other : turn ≠ .supervisor => member.ignored_incidents other setting now
  rw [member.remarks_take]
  -- The supervisor moves in its own turn or when it is told to, the task when it runs or is woken.
  -- In all other turns, at most the turn for looking at the end of the task is taken.
  cases Member.acted setting now member turn with
  | nothing member_eq turns_eq delivered_eq task wake supervisor notice =>
    refine standing.rests taken (by simpa [turns_eq] using counted) (by simp [member_eq]) ?_
    by_cases isSupervisor : turn = .supervisor
    · subst isSupervisor
      exact Member.ignored_supervisor (.inr (supervisor rfl)) setting now
    · exact unsupervised isSupervisor
  | ran steps watch woken isTask steps_eq rouses member_eq turns_eq =>
    subst isTask
    rw [if_neg (by simp), List.append_nil]
    have awaited : member.task ≠ .absent := by
      intro none
      simp [Member.upcomingSteps?, none] at steps_eq
    have goesOn : member.task.ending? = none := by
      by_contra ended
      rw [Member.upcomingSteps?_of_ended (Option.isSome_iff_ne_none.mpr ended)] at steps_eq
      contradiction
    refine standing.proceeds awaited goesOn ?_ (by simp [member_eq, Member.afterStretch])
      (unsupervised (by simp))
    rw [turns_eq, List.countP_append, rouses.countP_late, Member.countP_turnsBehind] at counted
    simpa [member_eq, Member.afterStretch] using counted
  | awoke step rest isWake task_eq member_eq turns_eq =>
    subst isWake
    rw [if_neg (by simp), List.append_nil]
    refine standing.proceeds (by simp [task_eq]) (by simp [task_eq, Task.ending?]) ?_
      (by simp [member_eq]) (unsupervised (by simp))
    simpa [turns_eq, member_eq, Task.ending?, Member.Effect.brings] using counted
  | settled ending isSupervisor ready task_eq member_eq turns_eq =>
    subst isSupervisor
    rw [if_neg (by simp), List.append_nil]
    have attends : member.supervision ≠ .absent ∧ member.supervision ≠ .ended := by
      constructor <;> rintro same <;> simp [same, Supervision.isReady] at ready
    refine standing.sees attends (by rw [member_eq]) (by rw [member_eq])
      (by simp [member_eq, task_eq, Task.ending?]) ?_ fun failure failed => ?_
    · rcases turns_eq with turns_eq | turns_eq <;>
        simpa [turns_eq, Member.Effect.brings] using counted
    · have known : member.task = .ended (.failed failure) := by simpa [member_eq] using failed
      rw [key_eq]
      exact Member.incidents_of_failed ready known setting now
  | supervised isSupervisor fresh goesOn member_eq turns_eq =>
    subst isSupervisor
    rw [if_neg (by simp), List.append_nil]
    refine standing.waits (by simp [fresh]) (by simp [member_eq]) (by rw [member_eq]) ?_
      (Member.ignored_supervisor (.inl goesOn) setting now)
    rw [turns_eq, List.countP_append, Member.countP_idleTurns] at counted
    simpa [Member.Effect.brings] using counted
  | awaited since isSupervisor woken goesOn running timely member_eq turns_eq =>
    subst isSupervisor
    rw [if_neg (by simp), List.append_nil]
    refine standing.waits (by simp [woken]) (by simp [member_eq]) (by rw [member_eq]) ?_
      (Member.ignored_supervisor (.inl goesOn) setting now)
    rw [turns_eq, List.countP_append, Member.countP_idleTurns] at counted
    simpa [Member.Effect.brings] using counted
  | abandoned since isSupervisor woken goesOn finished member_eq turns_eq =>
    subst isSupervisor
    rw [if_neg (by simp), List.append_nil]
    refine standing.leaves (by simp [woken]) (by rw [member_eq]) (by rw [member_eq])
      (by rw [member_eq]; exact goesOn) ?_ (Member.ignored_supervisor (.inl goesOn) setting now)
    simpa [turns_eq, Member.Effect.brings] using counted
  | expired since watch roused isSupervisor woken goesOn running tardy rouses member_eq turns_eq =>
    subst isSupervisor
    rw [if_neg (by simp), List.append_nil]
    refine standing.leaves (by simp [woken]) (by rw [member_eq]) (by rw [member_eq])
      (by rw [member_eq]; exact Member.Course.ending?_cancelTask goesOn) ?_
      (Member.ignored_supervisor (.inl goesOn) setting now)
    rw [turns_eq, List.countP_append, List.countP_append, rouses.countP_late,
      Member.Course.countP_cancelTask] at counted
    simpa [Member.Effect.brings] using counted
  | noticed since isNotice waiting member_eq turns_eq =>
    have others : turn ≠ .late ∧ turn ≠ .supervisor := by
      rcases isNotice with rfl | rfl <;> simp
    rw [if_neg others.1, List.append_nil]
    refine standing.waits (by simp [waiting]) (by simp [member_eq]) (by rw [member_eq]) ?_
      (unsupervised others.2)
    simpa [turns_eq, others.1, Member.Effect.brings] using counted
  | watched isWatch ready member_eq turns_eq =>
    subst isWatch
    exact standing.rests taken (by simpa [turns_eq, Member.Effect.brings] using counted)
      (by simp [member_eq, Member.key]) (unsupervised (by simp))
  | armed isWatch fresh member_eq turns_eq =>
    subst isWatch
    exact standing.rests taken (by simpa [turns_eq] using counted)
      (by simp [member_eq, Member.key]) (unsupervised (by simp))

namespace Member

/-- Whether an effect neither takes back the turn for looking at the end of the task nor delays it. -/
def Effect.keepsLate : Effect → Bool
  | after _ .late => false
  | cancel .late => false
  | _ => true

theorem keepsLate_turnsBehind (member : Member) (task : Task) :
    (member.turnsBehind task).all Effect.keepsLate = true := by
  unfold turnsBehind
  split
  · rfl
  · rfl
  · split
    · rfl
    · split <;> rfl
  · rfl

theorem keepsLate_idleTurns (left? : Option Rat) : (idleTurns left?).all Effect.keepsLate = true := by
  cases left? <;> rfl

theorem Course.keepsLate_cancelTask (member : Member) :
    (start member).cancelTask.turns.all Effect.keepsLate = true := by
  unfold cancelTask
  split <;> rfl

theorem Course.Rouses.keepsLate
    {before after : Watch}
    {roused : List Effect}
    (rouses : Rouses before after roused) :
    roused.all Effect.keepsLate = true := by
  cases rouses with
  | still watch_eq turns_eq => rw [turns_eq]; rfl
  | roused waiting watch_eq turns_eq => rw [turns_eq]; rfl

/-- The turn for looking at the end of the task is never taken back, and comes soon. -/
theorem keepsLate_take (setting : Setting) (now : Rat) (member : Member) (turn : Turn) :
    (member.take setting now turn).turns.all Effect.keepsLate = true := by
  cases acted setting now member turn with
  | nothing member_eq turns_eq => rw [turns_eq]; rfl
  | ran steps watch woken isTask steps_eq rouses member_eq turns_eq =>
    rw [turns_eq, List.all_append, rouses.keepsLate, keepsLate_turnsBehind]
    rfl
  | awoke step rest isWake task_eq member_eq turns_eq => rw [turns_eq]; rfl
  | settled ending isSupervisor ready task_eq member_eq turns_eq =>
    rcases turns_eq with turns_eq | turns_eq <;> rw [turns_eq] <;> rfl
  | supervised isSupervisor fresh goesOn member_eq turns_eq =>
    rw [turns_eq, List.all_append, keepsLate_idleTurns]
    rfl
  | awaited since isSupervisor woken goesOn running timely member_eq turns_eq =>
    rw [turns_eq, List.all_append, keepsLate_idleTurns]
    rfl
  | abandoned since isSupervisor woken goesOn finished member_eq turns_eq => rw [turns_eq]; rfl
  | expired since watch roused isSupervisor woken goesOn running tardy rouses member_eq turns_eq =>
    rw [turns_eq, List.all_append, List.all_append, Course.keepsLate_cancelTask, rouses.keepsLate]
    rfl
  | noticed since isNotice waiting member_eq turns_eq => rw [turns_eq]; rfl
  | watched isWatch ready member_eq turns_eq => rw [turns_eq]; rfl
  | armed isWatch fresh member_eq turns_eq => rw [turns_eq]; rfl

theorem Effect.eq_soon_of_brings
    {effect : Effect}
    (keeps : effect.keepsLate = true)
    (brings : effect.brings .late = true) :
    effect = .soon .late := by
  cases effect with
  | soon turn => simpa [Effect.brings] using brings
  | after seconds turn =>
    obtain rfl : turn = .late := by simpa [Effect.brings] using brings
    contradiction
  | _ => contradiction

/-- A task that goes on behind its supervisor does so from the turn on in which the supervisor ends. -/
theorem isLate_take
    {setting : Setting}
    {now : Rat}
    {member : Member}
    {turn : Turn}
    (late : (member.take setting now turn).member.isLate = true) :
    member.isLate = true ∨ (member.take setting now turn).member.supervision = .ended ∧
      (member.take setting now turn).member.task.ending? = none := by
  cases acted setting now member turn with
  | abandoned since isSupervisor woken goesOn finished member_eq =>
    rw [member_eq]
    exact .inr ⟨rfl, goesOn⟩
  | expired since watch roused isSupervisor woken goesOn running tardy rouses member_eq =>
    rw [member_eq]
    exact .inr ⟨rfl, Course.ending?_cancelTask goesOn⟩
  | nothing member_eq => exact .inl (member_eq ▸ late)
  | ran steps watch woken isTask steps_eq rouses member_eq =>
    rw [member_eq] at late
    exact .inl late
  | awoke step rest isWake task_eq member_eq =>
    rw [member_eq] at late
    exact .inl late
  | settled ending isSupervisor ready task_eq member_eq =>
    rw [member_eq] at late
    exact .inl late
  | supervised isSupervisor fresh goesOn member_eq =>
    rw [member_eq] at late
    exact .inl late
  | awaited since isSupervisor woken goesOn running timely member_eq =>
    rw [member_eq] at late
    exact .inl late
  | noticed since isNotice waiting member_eq =>
    rw [member_eq] at late
    exact .inl late
  | watched isWatch ready member_eq =>
    rw [member_eq] at late
    exact .inl late
  | armed isWatch fresh member_eq =>
    rw [member_eq] at late
    exact .inl late

/-- Only a task that has not begun is left as one, and not in its own turn. -/
theorem fresh_take
    {setting : Setting}
    {now : Rat}
    {member : Member}
    {turn : Turn}
    {steps : List Step}
    (fresh : (member.take setting now turn).member.task = .fresh steps) :
    turn ≠ .task ∧ member.task = .fresh steps := by
  cases acted setting now member turn with
  | nothing member_eq turns_eq delivered_eq task =>
    rw [member_eq] at fresh
    refine ⟨fun isTask => ?_, fresh⟩
    simp [fresh, Task.isReady] at task
    exact task isTask
  | ran upcoming watch woken isTask steps_eq rouses member_eq =>
    have halted := Solo.halted_run setting.document now (.start member.reporter) upcoming
    rw [member_eq] at fresh
    simp only [afterStretch] at fresh
    rw [fresh] at halted
    cases halted
  | awoke step rest isWake task_eq member_eq => simp [member_eq] at fresh
  | settled ending isSupervisor ready task_eq member_eq =>
    exact ⟨by simp [isSupervisor], by simpa [member_eq] using fresh⟩
  | supervised isSupervisor supervision_eq goesOn member_eq =>
    exact ⟨by simp [isSupervisor], by simpa [member_eq] using fresh⟩
  | awaited since isSupervisor woken goesOn running timely member_eq =>
    exact ⟨by simp [isSupervisor], by simpa [member_eq] using fresh⟩
  | abandoned since isSupervisor woken goesOn finished member_eq =>
    exact ⟨by simp [isSupervisor], by simpa [member_eq] using fresh⟩
  | expired since watch roused isSupervisor woken goesOn running tardy rouses member_eq =>
    refine ⟨by simp [isSupervisor], ?_⟩
    rw [member_eq] at fresh
    simp only [Course.cancelTask, Course.member_start] at fresh
    split at fresh <;> simp_all
  | noticed since isNotice waiting member_eq =>
    refine ⟨?_, by simpa [member_eq] using fresh⟩
    rcases isNotice with rfl | rfl <;> simp
  | watched isWatch ready member_eq =>
    exact ⟨by simp [isWatch], by simpa [member_eq] using fresh⟩
  | armed isWatch unwatched member_eq =>
    exact ⟨by simp [isWatch], by simpa [member_eq] using fresh⟩

end Member

namespace Solo

/-- The task of a solo that has not begun has the next turn, before the supervisor. -/
def Opens (solo : Solo) : Prop :=
  ∀ steps, solo.member.task = .fresh steps →
    solo.schedule.ready = [.task, .supervisor] ∧ solo.member.supervision = .fresh

/-- The task of a member that is invoked comes before its supervisor. -/
theorem opens_invoke
    {place : Nat}
    {member : Member}
    (untouched : member.Untouched)
    (setting : Setting)
    (schedule : Schedule SessionTurn) :
    ((Solo.idle place member schedule).follow (member.invoke setting schedule.now).1).Opens := by
  obtain ⟨rule, index, script, rfl⟩ := untouched
  have entered := @Member.entered (.new rule index script) Watch.noConfusion setting schedule.now
  intro steps fresh
  rw [schedule_follow]
  simp only [follow] at fresh ⊢
  cases entered with
  | launched performed steps performed_eq goesOn awaits member_eq turns_eq =>
    rw [turns_eq, member_eq]
    exact ⟨rfl, rfl⟩
  | spent performed performed_eq member_eq =>
    rw [member_eq] at fresh
    contradiction

/-- Whatever turn is taken, the task has begun. -/
theorem Opens.take
    {setting : Setting}
    {solo : Solo}
    {turn : Member.Turn}
    {schedule : Schedule Member.Turn}
    (opens : solo.Opens)
    (popped : solo.schedule.next? = some (turn, schedule)) :
    (({ solo with schedule := schedule } : Solo).take setting turn).Opens := by
  intro steps fresh
  obtain ⟨other, before⟩ := Member.fresh_take fresh
  exact absurd (Schedule.ready_next? popped (opens steps before).1).1 other

/-- How often the turn for looking at the end of the task is on the schedule behind another turn. -/
theorem count_late_take
    {setting : Setting}
    {solo : Solo}
    {turn : Member.Turn}
    {schedule : Schedule Member.Turn}
    (popped : solo.schedule.next? = some (turn, schedule)) :
    (({ solo with schedule := schedule } : Solo).take setting turn).schedule.entries.count .late +
        (if turn = .late then 1 else 0) =
      solo.schedule.entries.count .late +
        (solo.member.take setting schedule.now turn).turns.countP (·.brings .late) := by
  have entries := Schedule.entries_next? popped
  have kept : .cancel .late ∉ (solo.member.take setting schedule.now turn).turns := by
    intro known
    have keeps := List.all_eq_true.mp (solo.member.keepsLate_take setting schedule.now turn) _ known
    contradiction
  rw [Solo.take, schedule_follow, count_entries_foldl_obey kept, entries.count_eq, List.count_cons]
  simp only [beq_iff_eq]
  omega

end Solo

namespace Standing

/-- With a member that has not been invoked, the linting has not come anywhere. -/
theorem idle
    {place : Nat}
    {member : Member}
    (untouched : member.Untouched)
    (name : String)
    (schedule : Schedule SessionTurn) :
    Standing name member ((Solo.idle place member schedule).schedule.entries.count .late) [] [] := by
  obtain ⟨rule, index, script, rfl⟩ := untouched
  exact .absent rfl rfl rfl rfl rfl

/-- With a member that is invoked, the linting begins to keep up. -/
theorem invoke
    {place : Nat}
    {member : Member}
    (untouched : member.Untouched)
    (setting : Setting)
    (schedule : Schedule SessionTurn) :
    let solo := (Solo.idle place member schedule).follow (member.invoke setting schedule.now).1
    Standing setting.name solo.member (solo.schedule.entries.count .late) []
        (member.invocationIncidents setting schedule.now) ∧
      solo.schedule.entries.count .late = 0 ∧ solo.member.isLate = false := by
  obtain ⟨rule, index, script, rfl⟩ := untouched
  intro solo
  have entered := @Member.entered (.new rule index script) Watch.noConfusion setting schedule.now
  have member_eq : solo.member = ((Member.new rule index script).invoke setting
      schedule.now).1.member := rfl
  have count : solo.schedule.entries.count .late = 0 := by
    rw [Solo.schedule_follow]
    cases entered with
    | launched performed steps performed_eq goesOn awaits member_eq turns_eq =>
      rw [turns_eq]
      rfl
    | spent performed performed_eq member_eq turns_eq =>
      rw [turns_eq]
      rfl
  rw [count, member_eq]
  cases entered with
  | launched performed steps performed_eq goesOn awaits member_eq =>
    rw [member_eq]
    exact ⟨.supervised (by simp) rfl rfl rfl
      (Member.ignored_invocationIncidents (performed_eq ▸ goesOn) awaits), rfl, rfl⟩
  | spent performed performed_eq member_eq =>
    rw [member_eq]
    exact ⟨.absent rfl rfl rfl rfl rfl, rfl, rfl⟩

end Standing
end Linting
end MarkupLint
