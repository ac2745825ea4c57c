import MarkupLint.Proofs.Linting.Exhaustion
import MarkupLint.Proofs.Linting.Lapse

/-!
# The haste of supervisors

A supervisor that wakes before the deadline of its instance waits again, and that takes more than the
work that is left of it.  But it wakes that early only if the instance has reported since it began to
wait, and there is work enough in the steps of the instance to make up for it.
-/

namespace MarkupLint
namespace Linting

/-- The instant at which a supervisor began, if it waits or is to go on. -/
def Supervision.since? : Supervision → Option Rat
  | waiting since => some since
  | woken since => some since
  | _ => none

/-- The instant at which a supervised member has been idle too long. -/
def Member.deadline? (seconds : Rat) (member : Member) : Option Rat :=
  member.supervision.since?.map fun since =>
    max since (member.reporter.lastReport?.getD since) + seconds

/-- What an effect of a turn does with a schedule, unless it has the supervisor wait. -/
def Member.Effect.IsTame : Member.Effect → Prop
  | .soon turn => turn ≠ .idle
  | .after seconds turn => 0 < seconds ∧ turn ≠ .idle
  | _ => True

theorem Member.isTame_turnsBehind
    {task : Task}
    (member : Member)
    (halted : Solo.Halted task) :
    ∀ effect ∈ member.turnsBehind task, effect.IsTame := by
  cases halted with
  | asleep seconds onCancel swallows rest positive =>
    simp [turnsBehind, Effect.IsTame, positive]
  | slept seconds onCancel swallows rest => simp [turnsBehind, Effect.IsTame]
  | hanging onCancel swallows rest => simp [turnsBehind]
  | ended ending =>
    simp only [turnsBehind]
    split
    · simp [Effect.IsTame]
    · split <;> simp [Effect.IsTame]

theorem Member.Course.Rouses.isTame
    {before after : Watch}
    {turns : List Effect}
    (rouses : Rouses before after turns) :
    ∀ effect ∈ turns, effect.IsTame := by
  cases rouses with
  | still watch_eq turns_eq => simp [turns_eq]
  | roused waiting watch_eq turns_eq => simp [turns_eq, Effect.IsTame]

theorem Member.Course.isTame_cancelTask (member : Member) :
    ∀ effect ∈ (start member).cancelTask.turns, effect.IsTame := by
  unfold cancelTask
  split <;> simp [turns, Effect.isTurn, Effect.IsTame, start, emit, modify]

namespace Solo

/-- A schedule whose timers lie ahead and on which a supervisor is hardly ever to be woken twice. -/
structure Tame (schedule : Schedule Member.Turn) : Prop where
  isAhead : schedule.IsAhead
  exact_eq : schedule.precision = .exact
  ready : schedule.ready.count .idle ≤ 1
  timers : (schedule.timers.map (·.2)).count .idle ≤ 1

namespace Tame

variable {schedule later : Schedule Member.Turn} {turn : Member.Turn} {seconds deadline : Rat}

theorem next? (tame : Tame schedule) (popped : schedule.next? = some (turn, later)) : Tame later where
  isAhead := tame.isAhead.next? popped
  exact_eq := (Schedule.precision_of_next? popped).trans tame.exact_eq
  ready := by
    cases tame.isAhead.passed popped with
    | ready ready_eq now_eq timers_eq =>
      refine le_trans ?_ tame.ready
      rw [ready_eq]
      exact List.count_le_count_cons
    | due due idle passes timers_eq ready_eq instant_eq ahead =>
      refine le_trans ?_ tame.timers
      rw [timers_eq, List.map_append, ready_eq, List.count_append]
      exact List.count_le_count_cons.trans (Nat.le_add_right _ _)
  timers := by
    cases tame.isAhead.passed popped with
    | ready ready_eq now_eq timers_eq =>
      rw [timers_eq]
      exact tame.timers
    | due due idle passes timers_eq ready_eq instant_eq ahead =>
      refine le_trans ?_ tame.timers
      rw [timers_eq, List.map_append, List.count_append]
      exact Nat.le_add_left _ _

theorem cancel (tame : Tame schedule) (turn : Member.Turn) : Tame (schedule.cancel turn) where
  isAhead := tame.isAhead.cancel turn
  exact_eq := tame.exact_eq
  ready := tame.ready
  timers := ((List.filter_sublist.map _).count_le _).trans tame.timers

theorem obey
    {effect : Member.Effect}
    (tame : Tame schedule)
    (own : effect.IsTame) :
    Tame (obey schedule effect) := by
  cases effect with
  | soon turn =>
    have other : turn ≠ .idle := own
    refine ⟨tame.isAhead.soon turn, tame.exact_eq, ?_, tame.timers⟩
    rw [Solo.obey, Schedule.ready_soon, List.count_append, List.count_singleton,
      if_neg (by simpa using other)]
    exact tame.ready
  | after pause turn =>
    refine ⟨tame.isAhead.after tame.exact_eq own.1 turn, tame.exact_eq, tame.ready, ?_⟩
    rw [Solo.obey, Schedule.after, ((Schedule.insertTimer_perm _ _ _ _).map _).count_eq, List.map_cons,
      List.count_cons_of_ne own.2]
    exact tame.timers
  | cancel turn => exact tame.cancel turn
  | _ => exact tame

theorem foldl_obey
    {effects : List Member.Effect}
    (tame : Tame schedule)
    (own : ∀ effect ∈ effects, effect.IsTame) :
    Tame (effects.foldl Solo.obey schedule) :=
  foldl_obey_induction (fun effect known _ held => held.obey (own effect known)) tame

/-- A supervisor that waits again cancels what it waited for. -/
theorem rearm (tame : Tame schedule) (positive : 0 < seconds) :
    Tame ((schedule.cancel .idle).after seconds .idle) where
  isAhead := (tame.isAhead.cancel .idle).after tame.exact_eq positive .idle
  exact_eq := tame.exact_eq
  ready := tame.ready
  timers := by
    have none : (((schedule.cancel .idle).timers).map (·.2)).count .idle = 0 := by
      rw [List.count_eq_zero, List.mem_map]
      rintro ⟨timer, known, same⟩
      exact of_decide_eq_true (List.mem_filter.mp known).2 same
    rw [Schedule.after, ((Schedule.insertTimer_perm _ _ _ _).map _).count_eq, List.map_cons,
      List.count_cons_self, none]

theorem countBefore_le (tame : Tame schedule) (deadline : Rat) :
    schedule.countBefore .idle deadline ≤ 2 :=
  (schedule.countBefore_le .idle deadline).trans (Nat.add_le_add tame.ready tame.timers)

theorem countBefore_obey_le
    {effect : Member.Effect}
    (tame : Tame schedule)
    (own : effect.IsTame) :
    (Solo.obey schedule effect).countBefore .idle deadline ≤ schedule.countBefore .idle deadline := by
  cases effect with
  | soon turn => exact (Schedule.countBefore_soon own).le
  | after pause turn =>
    exact (Schedule.countBefore_after tame.exact_eq fun same => absurd same own.2).le
  | cancel turn => exact Schedule.countBefore_cancel_le
  | _ => exact le_refl _

/-- Nothing but a supervisor that waits puts its turn on the schedule. -/
theorem countBefore_foldl_obey_le
    {effects : List Member.Effect}
    (tame : Tame schedule)
    (own : ∀ effect ∈ effects, effect.IsTame) :
    (effects.foldl Solo.obey schedule).countBefore .idle deadline ≤
      schedule.countBefore .idle deadline :=
  (@foldl_obey_induction
    (fun later => Tame later ∧ later.countBefore .idle deadline ≤ schedule.countBefore .idle deadline)
    schedule effects
    (fun effect known _ held => ⟨held.1.obey (own effect known),
      (held.1.countBefore_obey_le (own effect known)).trans held.2⟩) ⟨tame, le_refl _⟩).2

end Tame

/-- How much work it may take until the supervisor waits for its deadline, in excess of that which is
left: it may be woken too early, and then it is to wait again. -/
def haste (seconds : Rat) (solo : Solo) : Nat :=
  match solo.member.deadline? seconds with
  | none => 0
  | some deadline =>
    2 * solo.schedule.countBefore .idle deadline +
      if solo.member.supervision.isReady ∧ solo.schedule.now < deadline then 2 else 0

section

variable {setting : Setting} {seconds : Rat} {solo : Solo} {turn : Member.Turn}
  {schedule : Schedule Member.Turn} {course : Member.Course}

theorem haste_le (tame : Tame solo.schedule) : solo.haste seconds ≤ 6 := by
  unfold haste
  split
  · exact Nat.zero_le _
  · next deadline known =>
    have count := tame.countBefore_le deadline
    split <;> omega

/-- Haste does not grow while time passes. -/
theorem haste_popped_le
    (tame : Tame solo.schedule)
    (popped : solo.schedule.next? = some (turn, schedule)) :
    ({ solo with schedule := schedule } : Solo).haste seconds ≤ solo.haste seconds := by
  have now_le := Schedule.now_le_of_next? popped
  simp only [haste]
  split
  · exact le_refl _
  · next deadline known =>
    have count := @Schedule.countBefore_next? _ _ _ .idle _ deadline _ tame.isAhead popped
    have early : (if solo.member.supervision.isReady ∧ schedule.now < deadline then 2 else 0) ≤
        if solo.member.supervision.isReady ∧ solo.schedule.now < deadline then 2 else 0 := by
      split
      · next early => rw [if_pos ⟨early.1, now_le.trans_lt early.2⟩]
      · exact Nat.zero_le _
    omega

/-- Haste does not grow in a turn that leaves the deadline as it is. -/
theorem haste_follow_le
    (tame : Tame solo.schedule)
    (own : ∀ effect ∈ course.turns, effect.IsTame)
    (deadline_eq : course.member.deadline? seconds = solo.member.deadline? seconds)
    (ready : course.member.supervision.isReady = true → solo.member.supervision.isReady = true) :
    (solo.follow course).haste seconds ≤ solo.haste seconds := by
  have schedule_eq := schedule_follow solo course
  have member_eq : (solo.follow course).member = course.member := rfl
  simp only [haste, member_eq, schedule_eq, deadline_eq, now_foldl_obey]
  split
  · exact le_refl _
  · next deadline known =>
    have count := @Tame.countBefore_foldl_obey_le _ deadline _ tame own
    have early :
        (if course.member.supervision.isReady ∧ solo.schedule.now < deadline then 2 else 0) ≤
          if solo.member.supervision.isReady ∧ solo.schedule.now < deadline then 2 else 0 := by
      split
      · next early => rw [if_pos ⟨ready early.1, early.2⟩]
      · exact Nat.zero_le _
    omega

theorem haste_follow_of_ended (ended : course.member.supervision = .ended) :
    (solo.follow course).haste seconds = 0 := by
  have none : (solo.follow course).member.deadline? seconds = none := by
    simp only [Solo.follow, Member.deadline?, ended]
    rfl
  simp only [haste, none]

/-- A supervisor that waits for its deadline brings no haste. -/
theorem haste_follow_rearm
    {effects : List Member.Effect}
    {left : Rat}
    (tame : Tame solo.schedule)
    (own : ∀ effect ∈ effects, effect.IsTame)
    (positive : 0 < left)
    (turns_eq : course.turns = effects ++ [.cancel .idle] ++ Member.idleTurns (some left))
    (deadline_eq : course.member.deadline? seconds = some (solo.schedule.now + left))
    (waits : course.member.supervision.isReady = false) :
    Tame (course.turns.foldl obey solo.schedule) ∧
      (solo.follow course).haste seconds ≤
        2 * solo.schedule.countBefore .idle (solo.schedule.now + left) := by
  have before := tame.foldl_obey own
  have count := @Tame.countBefore_foldl_obey_le _ (solo.schedule.now + left) _ tame own
  have now_eq := now_foldl_obey solo.schedule effects
  have schedule_eq : course.turns.foldl obey solo.schedule =
      ((effects.foldl obey solo.schedule).cancel .idle).after left .idle := by
    rw [turns_eq, List.append_assoc, List.foldl_append]
    rfl
  refine ⟨schedule_eq ▸ before.rearm positive, ?_⟩
  have member_eq : (solo.follow course).member = course.member := rfl
  have later : (((effects.foldl obey solo.schedule).cancel .idle).after left .idle).countBefore .idle
      (solo.schedule.now + left) ≤ solo.schedule.countBefore .idle (solo.schedule.now + left) := by
    rw [Schedule.countBefore_after (before.cancel .idle).exact_eq fun _ => by
      rw [← now_eq]
      exact le_refl _]
    exact Schedule.countBefore_cancel_le.trans count
  simp only [haste, member_eq, deadline_eq, schedule_follow, schedule_eq, waits]
  simpa using later

/-- A turn that keeps a tame schedule tame, and takes some of the work and the haste that are left. -/
structure Tapers
    (seconds : Rat)
    (solo : Solo)
    (turn : Member.Turn)
    (schedule : Schedule Member.Turn)
    (course : Member.Course) : Prop where
  tame : Tame (course.turns.foldl obey schedule)
  less : course.work + course.member.work +
      (({ solo with schedule := schedule } : Solo).follow course).haste seconds <
    turn.work + solo.member.work + solo.haste seconds

namespace Tame

/-- A turn that the deadline does not depend on adds no haste. -/
theorem tapers_of_steady
    (tame : Tame solo.schedule)
    (popped : solo.schedule.next? = some (turn, schedule))
    (acted : Member.Acted setting schedule.now solo.member turn course)
    (own : ∀ effect ∈ course.turns, effect.IsTame)
    (supervision_eq : course.member.supervision = solo.member.supervision)
    (reporter_eq : course.member.reporter = solo.member.reporter) :
    Tapers seconds solo turn schedule course := by
  have still := tame.next? popped
  have passed := @haste_popped_le seconds _ _ _ tame popped
  have follows := @haste_follow_le seconds { solo with schedule := schedule } course still own
    (by rw [Member.deadline?, Member.deadline?, supervision_eq, reporter_eq])
    (by rw [supervision_eq]; exact id)
  have less := acted.work_lt (by
    intro since ready waiting
    rw [← supervision_eq, waiting] at ready
    contradiction)
  exact ⟨still.foldl_obey own, by omega⟩

/-- A turn in which the supervisor ends leaves no haste. -/
theorem tapers_of_ended
    (tame : Tame solo.schedule)
    (popped : solo.schedule.next? = some (turn, schedule))
    (acted : Member.Acted setting schedule.now solo.member turn course)
    (own : ∀ effect ∈ course.turns, effect.IsTame)
    (ended : course.member.supervision = .ended) :
    Tapers seconds solo turn schedule course := by
  have less := acted.work_lt (by
    intro since _ waiting
    rw [ended] at waiting
    contradiction)
  refine ⟨(tame.next? popped).foldl_obey own, ?_⟩
  rw [haste_follow_of_ended ended]
  omega

/-- A stretch of steps may put the deadline off, and takes more work than the haste that this may
bring. -/
theorem tapers_of_ran
    {steps : List Step}
    {watch : Watch}
    {woken : List Member.Effect}
    (tame : Tame solo.schedule)
    (popped : solo.schedule.next? = some (turn, schedule))
    (steps_eq : solo.member.upcomingSteps? = some steps)
    (rouses : Member.Course.Rouses solo.member.watch watch woken)
    (member_eq : course.member = { solo.member.afterStretch
      (Stretch.run setting.document schedule.now (.start solo.member.reporter) steps) with
        watch := watch })
    (turns_eq : course.turns = woken ++ solo.member.turnsBehind
      (Stretch.run setting.document schedule.now (.start solo.member.reporter) steps).task) :
    Tapers seconds solo turn schedule course := by
  have halted := halted_run setting.document schedule.now (.start solo.member.reporter) steps
  have own : ∀ effect ∈ course.turns, effect.IsTame := by
    rw [turns_eq]
    exact List.forall_mem_append.mpr ⟨rouses.isTame, solo.member.isTame_turnsBehind halted⟩
  have after := (tame.next? popped).foldl_obey own
  have haste : (({ solo with schedule := schedule } : Solo).follow course).haste seconds ≤ 6 :=
    haste_le (by rw [schedule_follow]; exact after)
  have stretched := Member.work_afterStretch steps_eq rouses setting.document schedule.now
  have positive := turn.work_pos
  refine ⟨after, ?_⟩
  rw [Member.Course.work, turns_eq, member_eq]
  omega

/-- A supervisor that is woken by a turn of its own has been waiting for an earlier deadline, or the
turn is that of a watch. -/
theorem tapers_of_noticed
    {since : Rat}
    (tame : Tame solo.schedule)
    (popped : solo.schedule.next? = some (turn, schedule))
    (isNotice : turn = .idle ∨ turn = .notice)
    (waiting : solo.member.supervision = .waiting since)
    (member_eq : course.member = { solo.member with supervision := .woken since })
    (turns_eq : course.turns = [.cancel .idle, .soon .supervisor]) :
    Tapers seconds solo turn schedule course := by
  have still := tame.next? popped
  have own : ∀ effect ∈ course.turns, effect.IsTame := by simp [turns_eq, Member.Effect.IsTame]
  have known : solo.member.deadline? seconds =
      some (max since (solo.member.reporter.lastReport?.getD since) + seconds) := by
    rw [Member.deadline?, waiting]
    rfl
  have same : course.member.deadline? seconds = solo.member.deadline? seconds := by
    rw [known, Member.deadline?, member_eq]
    rfl
  generalize max since (solo.member.reporter.lastReport?.getD since) + seconds = deadline at known
  have count := @Tame.countBefore_foldl_obey_le _ deadline _ still own
  have taken := @Schedule.countBefore_next? _ _ _ .idle _ deadline _ tame.isAhead popped
  have before : solo.haste seconds = 2 * solo.schedule.countBefore .idle deadline := by
    simp [haste, known, waiting, Supervision.isReady]
  have later : (({ solo with schedule := schedule } : Solo).follow course).haste seconds =
      2 * (course.turns.foldl Solo.obey schedule).countBefore .idle deadline +
        if schedule.now < deadline then 2 else 0 := by
    have member_same : (({ solo with schedule := schedule } : Solo).follow course).member =
        course.member := rfl
    have ready : course.member.supervision.isReady = true := by
      rw [member_eq]
      rfl
    simp only [haste, member_same, same, known, schedule_follow, now_foldl_obey, ready, true_and]
  have brought : course.work = 1 := by
    rw [Member.Course.work, turns_eq]
    rfl
  refine ⟨still.foldl_obey own, ?_⟩
  rw [brought, later, before, member_eq]
  simp only [Member.work, waiting, Supervision.work]
  rcases isNotice with rfl | rfl
  · simp only [true_and] at taken
    simp only [Member.Turn.work]
    split at taken <;> split <;> first | omega | contradiction
  · simp only [Member.Turn.work]
    split <;> omega

/-- A supervisor that sets its timer to a deadline ahead needs no haste for it. -/
theorem rearm_follow
    {effects : List Member.Effect}
    {since : Rat}
    (bounded : setting.IsBounded seconds)
    (tame : Tame schedule)
    (own : ∀ effect ∈ effects, effect.IsTame)
    (early : schedule.now < max since (solo.member.reporter.lastReport?.getD since) + seconds)
    (turns_eq : course.turns = effects ++ [.cancel .idle] ++
      Member.idleTurns (solo.member.left? setting schedule.now since))
    (supervision_eq : course.member.supervision = .waiting since)
    (reporter_eq : course.member.reporter = solo.member.reporter) :
    Tame (course.turns.foldl Solo.obey schedule) ∧
      course.work = (effects.map Member.Effect.work).sum + 3 ∧
      (({ solo with schedule := schedule } : Solo).follow course).haste seconds ≤
        2 * schedule.countBefore .idle
          (max since (solo.member.reporter.lastReport?.getD since) + seconds) := by
  have left_eq := Member.left?_of_isBounded bounded schedule.now since solo.member
  have deadline_eq : course.member.deadline? seconds =
      some (max since (solo.member.reporter.lastReport?.getD since) + seconds) := by
    rw [Member.deadline?, supervision_eq, reporter_eq]
    rfl
  generalize max since (solo.member.reporter.lastReport?.getD since) + seconds =
    deadline at left_eq deadline_eq early ⊢
  rw [max_eq_right (sub_nonneg.mpr early.le)] at left_eq
  rw [left_eq] at turns_eq
  obtain ⟨after, haste⟩ := @haste_follow_rearm seconds { solo with schedule := schedule } course
    effects (deadline - schedule.now) tame own (sub_pos.mpr early) turns_eq
    (by rw [add_sub_cancel, deadline_eq])
    (by rw [supervision_eq]; rfl)
  simp only [add_sub_cancel] at haste
  refine ⟨after, ?_, haste⟩
  rw [Member.Course.work, turns_eq, List.map_append, List.map_append, List.sum_append,
    List.sum_append]
  rfl

/-- Every turn takes some of the work and the haste that are left. -/
theorem take
    (bounded : setting.IsBounded seconds)
    (tame : Tame solo.schedule)
    (popped : solo.schedule.next? = some (turn, schedule)) :
    Tapers seconds solo turn schedule (solo.member.take setting schedule.now turn) := by
  have acted := Member.acted setting schedule.now solo.member turn
  generalize solo.member.take setting schedule.now turn = course at acted
  have still := tame.next? popped
  have passed := @haste_popped_le seconds _ _ _ tame popped
  have positive := turn.work_pos
  have steady := @tapers_of_steady _ seconds _ _ _ _ tame popped acted
  have ended := @tapers_of_ended _ seconds _ _ _ _ tame popped acted
  cases acted with
  | nothing member_eq turns_eq delivered_eq task wake supervisor notice =>
    exact steady (by simp [turns_eq]) (by rw [member_eq]) (by rw [member_eq])
  | ran steps watch woken isTask steps_eq rouses member_eq turns_eq delivered_eq =>
    exact tame.tapers_of_ran popped steps_eq rouses member_eq turns_eq
  | awoke step rest isWake task_eq member_eq turns_eq delivered_eq =>
    exact steady (by simp [turns_eq, Member.Effect.IsTame]) (by rw [member_eq]) (by rw [member_eq])
  | settled ending isSupervisor ready task_eq member_eq turns_eq delivered_eq =>
    exact ended (by rcases turns_eq with turns_eq | turns_eq <;> simp [turns_eq, Member.Effect.IsTame])
      (by rw [member_eq])
  | supervised isSupervisor fresh goesOn member_eq turns_eq delivered_eq =>
    have early : schedule.now <
        max schedule.now (solo.member.reporter.lastReport?.getD schedule.now) + seconds :=
      lt_add_of_le_of_pos (le_max_left _ _) bounded.positive
    obtain ⟨after, brought, haste⟩ := @rearm_follow _ _ solo _ course [.soon .watch] _ bounded still
      (by simp [Member.Effect.IsTame]) early turns_eq (by rw [member_eq]) (by rw [member_eq])
    have count := still.countBefore_le
      (max schedule.now (solo.member.reporter.lastReport?.getD schedule.now) + seconds)
    have watched : ([Member.Effect.soon .watch].map Member.Effect.work).sum = 1 := rfl
    refine ⟨after, ?_⟩
    simp only [brought, watched, member_eq, Member.work, fresh, Supervision.work, Watch.work]
    omega
  | awaited since isSupervisor woken goesOn running timely member_eq turns_eq delivered_eq =>
    have early : schedule.now < max since (solo.member.reporter.lastReport?.getD since) + seconds := by
      refine not_le.mp fun late => timely ?_
      rw [Member.left?_of_isBounded bounded, max_eq_left (sub_nonpos.mpr late)]
    obtain ⟨after, brought, haste⟩ := @rearm_follow _ _ solo _ course [] _ bounded still (by simp)
      early turns_eq (by rw [member_eq]) (by rw [member_eq])
    -- That it has been woken too early is what its waiting again comes at the expense of.
    have before : ({ solo with schedule := schedule } : Solo).haste seconds =
        2 * schedule.countBefore .idle
          (max since (solo.member.reporter.lastReport?.getD since) + seconds) + 2 := by
      have known : solo.member.deadline? seconds =
          some (max since (solo.member.reporter.lastReport?.getD since) + seconds) := by
        rw [Member.deadline?, woken]
        rfl
      have ready : solo.member.supervision.isReady = true := by
        rw [woken]
        rfl
      simp only [Solo.haste, known, ready, early, and_self, if_true]
    have none : (([] : List Member.Effect).map Member.Effect.work).sum = 0 := rfl
    refine ⟨after, ?_⟩
    simp only [brought, none, member_eq, Member.work, woken, Supervision.work]
    omega
  | abandoned since isSupervisor woken goesOn finished member_eq turns_eq delivered_eq =>
    exact ended (by simp [turns_eq, Member.Effect.IsTame]) (by rw [member_eq])
  | expired since watch roused isSupervisor woken goesOn running tardy rouses member_eq turns_eq
      delivered_eq =>
    refine ended ?_ (by rw [member_eq])
    rw [turns_eq]
    refine List.forall_mem_append.mpr ⟨List.forall_mem_append.mpr
      ⟨Member.Course.isTame_cancelTask solo.member, rouses.isTame⟩, ?_⟩
    simp [Member.Effect.IsTame]
  | noticed since isNotice waiting member_eq turns_eq delivered_eq =>
    exact tame.tapers_of_noticed popped isNotice waiting member_eq turns_eq
  | watched isWatch ready member_eq turns_eq delivered_eq =>
    exact steady (by simp [turns_eq, Member.Effect.IsTame]) (by rw [member_eq]) (by rw [member_eq])
  | armed isWatch fresh member_eq turns_eq delivered_eq =>
    exact steady (by simp [turns_eq]) (by rw [member_eq]) (by rw [member_eq])

end Tame

end
end Solo
end Linting
end MarkupLint
