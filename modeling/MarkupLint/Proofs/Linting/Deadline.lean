import MarkupLint.Proofs.Linting.Lapse

/-!
# Deadlines

Each turn of a member that goes along the timeline of its task goes on along it, until the member is
done or its deadline is there.
-/

namespace MarkupLint
namespace Linting

/-- A task that has come to rest goes along its timeline from there. -/
theorem Poised.rest
    {seconds last wake : Rat}
    {member after : Member}
    {schedule : Schedule Member.Turn}
    {stretch : Stretch}
    (positive : 0 < seconds)
    (poised : Poised seconds last wake member schedule)
    (awake : .wake ∉ schedule.entries)
    (halted : Solo.Halted stretch.task)
    (stamped :
      stretch.reporter.IsStamped member.reporter.lastReport? schedule.now stretch.effects)
    (running : stretch.reporter.isFinished = false)
    (reporter_eq : after.reporter = stretch.reporter)
    (task_eq : after.task = stretch.task)
    (supervision_eq : after.supervision = member.supervision) :
    Poised seconds (Timeline.latest last schedule.now (Reporter.delivered stretch.effects))
      (stretch.task.wakeInstant schedule.now) after
      ((member.turnsBehind stretch.task).foldl Solo.obey schedule) := by
  obtain ⟨isAhead, exact_eq, timers, -, past, timely, ⟨since, counts, last_eq⟩, -⟩ := poised
  have counted : max since (after.reporter.lastReport?.getD since) =
      Timeline.latest last schedule.now (Reporter.delivered stretch.effects) := by
    rw [reporter_eq, stamped, Timeline.latest]
    split
    · exact last_eq
    · exact max_eq_right counts.le
  have past := @Timeline.latest_le _ _ (Reporter.delivered stretch.effects) past
  have timely :=
    @Timeline.le_latest_add _ _ _ (Reporter.delivered stretch.effects) positive timely
  rw [← supervision_eq] at counts
  rw [← reporter_eq] at running
  -- Only a sleep sets a timer; whatever else follows is ready at once.
  have still : after.task.isSleeping = false →
      Poised seconds (Timeline.latest last schedule.now (Reporter.delivered stretch.effects))
        (stretch.task.wakeInstant schedule.now) after schedule := fun stays =>
    ⟨isAhead, exact_eq, timers, running, past, timely, ⟨since, counts, counted⟩,
      fun sleeps => absurd (sleeps.symm.trans stays) (by simp)⟩
  rw [task_eq] at still
  generalize stretch.task = task at halted still task_eq
  cases halted with
  | asleep pause onCancel swallows rest takes =>
    refine ⟨isAhead.after exact_eq takes _, exact_eq, ?_, running, past, timely,
      ⟨since, counts, counted⟩, fun _ => .of_after awake exact_eq pause⟩
    intro timer known
    rcases List.mem_cons.mp ((Schedule.insertTimer_perm _ _ _ _).mem_iff.mp known) with rfl | old
    · exact .inl rfl
    · exact timers timer old
  | slept pause onCancel swallows rest =>
    exact (still rfl).foldl_obey (by simp [Member.turnsBehind, Member.Effect.IsAside])
  | hanging onCancel swallows rest => exact still rfl
  | ended ending =>
    refine (still rfl).foldl_obey fun effect known => ?_
    simp only [Member.turnsBehind] at known
    split at known
    · rw [List.mem_singleton.mp known]
      exact Member.Turn.noConfusion
    · split at known
      · rw [List.mem_singleton.mp known]
        exact Member.Turn.noConfusion
      · contradiction

namespace Solo

variable {setting : Setting} {seconds last wake : Rat} {key : String × Int}
  {reports : List Diagnostic} {lapse? : Option Rat} {solo next : Solo} {turn : Member.Turn}
  {schedule : Schedule Member.Turn} {course : Member.Course}

theorem comesBy_foldl_obey
    {effects : List Member.Effect}
    {instant : Rat}
    (kept : .cancel turn ∉ effects)
    (comes : schedule.ComesBy turn instant) :
    (effects.foldl obey schedule).ComesBy turn instant := by
  refine @foldl_obey_induction (·.ComesBy turn instant) schedule effects ?_ comes
  intro effect known schedule comes
  cases effect with
  | soon own => exact comes.soon own
  | after pause own => exact comes.after pause own
  | cancel own =>
    refine comes.cancel ?_
    rintro rfl
    exact kept known
  | _ => exact comes

namespace Going

/-- The turn of the sleep is on the schedule just if the task sleeps and it has not been taken. -/
theorem wake_mem_entries_iff
    (going : solo.Going seconds last wake)
    (popped : solo.schedule.next? = some (turn, schedule))
    (other : turn ≠ .wake) :
    .wake ∈ schedule.entries ↔ solo.member.task.isSleeping = true := by
  have count := (Schedule.entries_next? popped).count_eq .wake
  rw [going.sound.wake, List.count_cons_of_ne other] at count
  rw [← List.count_pos_iff, ← count]
  split
  · next sleeps => exact iff_of_true Nat.one_pos sleeps
  · next awake => exact iff_of_false (Nat.lt_irrefl 0) awake

/-- The steps that a task goes on with lie ahead. -/
theorem future_of_upcomingSteps?
    {steps : List Step}
    (going : solo.Going seconds last wake)
    (popped : solo.schedule.next? = some (turn, schedule))
    (steps_eq : solo.member.upcomingSteps? = some steps)
    (document : Document) :
    solo.member.task.isSleeping = false ∧ solo.member.task.ending? = none ∧
      solo.future document wake =
        Step.timeline document schedule.now (.start solo.member.reporter) steps := by
  rw [← going.timeline_eq popped]
  rcases Member.task_of_upcomingSteps? going.sound.calm steps_eq with same | ⟨step, same⟩ <;>
    rw [same] <;> exact ⟨rfl, rfl, rfl⟩

/-- Rousing the watch wakes nobody else. -/
theorem rouse
    {watch : Watch}
    {woken : List Member.Effect}
    (going : solo.Going seconds last wake)
    (popped : solo.schedule.next? = some (turn, schedule))
    (other : turn ≠ .wake)
    (awake : solo.member.task.isSleeping = false)
    (rouses : Member.Course.Rouses solo.member.watch watch woken) :
    Poised seconds last wake solo.member (woken.foldl obey schedule) ∧
      .wake ∉ (woken.foldl obey schedule).entries ∧ .cancel .idle ∉ woken := by
  have poised := going.popped popped
  have waits := (going.wake_mem_entries_iff popped other).not.mpr (by simp [awake])
  cases rouses with
  | still watch_eq turns_eq =>
    rw [turns_eq]
    exact ⟨poised, waits, List.not_mem_nil⟩
  | roused waiting watch_eq turns_eq =>
    rw [turns_eq]
    refine ⟨@Poised.obey _ _ _ _ _ (.soon .watch) poised Member.Turn.noConfusion, ?_, by simp⟩
    rw [List.foldl_cons, List.foldl_nil, obey, (Schedule.entries_soon _ _).mem_iff, List.mem_cons,
      not_or]
    exact ⟨Member.Turn.noConfusion, waits⟩

/-- A turn in which the task runs goes on along its timeline. -/
theorem ran
    {steps : List Step}
    {watch : Watch}
    {woken : List Member.Effect}
    (positive : 0 < seconds)
    (going : solo.Going seconds last wake)
    (clear : (solo.future setting.document wake).IsClear seconds last)
    (popped : solo.schedule.next? = some (.task, schedule))
    (sound : (({ solo with schedule := schedule } : Solo).follow course).Sound)
    (steps_eq : solo.member.upcomingSteps? = some steps)
    (rouses : Member.Course.Rouses solo.member.watch watch woken)
    (key_eq : course.member.key = key)
    (member_eq : course.member = { solo.member.afterStretch
      (Stretch.run setting.document schedule.now (.start solo.member.reporter) steps) with
        watch := watch })
    (turns_eq : course.turns = woken ++ solo.member.turnsBehind
      (Stretch.run setting.document schedule.now (.start solo.member.reporter) steps).task)
    (delivered_eq : Member.delivered course.effects = Reporter.delivered
      (Stretch.run setting.document schedule.now (.start solo.member.reporter) steps).effects) :
    (({ solo with schedule := schedule } : Solo).follow course).Destined setting seconds key
      (solo.diagnostics ++ (solo.future setting.document wake).heard seconds last)
      ((solo.future setting.document wake).lapse? seconds last) := by
  have poised := going.popped popped
  obtain ⟨awake, resting, future_eq⟩ :=
    going.future_of_upcomingSteps? popped steps_eq setting.document
  rw [Stretch.timeline_eq setting.document schedule.now _ rfl steps] at future_eq
  have stamped : (Stretch.run setting.document schedule.now (.start solo.member.reporter)
      steps).reporter.IsStamped solo.member.reporter.lastReport? schedule.now _ :=
    @Stretch.isStamped_run setting.document schedule.now _ (.start solo.member.reporter) rfl steps
  have halted := halted_run setting.document schedule.now (.start solo.member.reporter) steps
  generalize Stretch.run setting.document schedule.now (.start solo.member.reporter) steps = stretch
    at stamped halted future_eq member_eq turns_eq delivered_eq
  have task_eq : course.member.task = stretch.task := congrArg Member.task member_eq
  have reporter_eq : course.member.reporter = stretch.reporter :=
    congrArg Member.reporter member_eq
  have supervision_eq : course.member.supervision = solo.member.supervision :=
    (congrArg Member.supervision member_eq).trans rfl
  cases finished : stretch.reporter.isFinished with
  | true =>
    rw [if_pos finished] at future_eq
    exact .complete (.of_done positive poised future_eq delivered_eq (reporter_eq ▸ finished))
  | false =>
    rw [if_neg (by simp [finished])] at future_eq
    obtain ⟨woke, unknown, kept⟩ := going.rouse popped (by simp) awake rouses
    have now_eq := now_foldl_obey schedule woken
    have schedule_eq : (({ solo with schedule := schedule } : Solo).follow course).schedule =
        (solo.member.turnsBehind stretch.task).foldl obey (woken.foldl obey schedule) := by
      rw [schedule_follow, turns_eq, List.foldl_append]
    have rested := woke.rest positive unknown halted (now_eq ▸ stamped) finished reporter_eq task_eq
      supervision_eq
    rw [now_eq, ← schedule_eq] at rested
    have later_eq : (({ solo with schedule := schedule } : Solo).follow course).future
        setting.document (stretch.task.wakeInstant schedule.now) =
          stretch.task.timeline setting.document schedule.now
            (stretch.task.wakeInstant schedule.now) stretch.reporter := by
      rw [future, schedule_eq, now_foldl_obey, now_eq, ← task_eq, ← reporter_eq]
      rfl
    rw [future_eq] at clear
    have cleared := Timeline.isClear_behind clear
    rw [← later_eq] at future_eq cleared
    refine .going _ _ ⟨sound, rested, ?_⟩ key_eq cleared.2 ?_ ?_
    · intro since waiting goesOn
      have comes := (going.armed since (supervision_eq.symm.trans waiting) resting).next?
        going.poised.isAhead popped (by simp)
      rw [schedule_follow, turns_eq]
      refine (comesBy_foldl_obey ?_ comes).mono
        (add_le_add_left (Timeline.le_latest poised.past) seconds)
      rw [List.mem_append, not_or]
      exact ⟨kept, solo.member.kept_turnsBehind _ _⟩
    · rw [future_eq, Timeline.heard_behind positive poised.timely, ← List.append_assoc]
      simp only [Solo.follow, delivered_eq]
    · rw [future_eq, Timeline.lapse?_behind positive poised.timely]

theorem since_of_woken
    {since : Rat}
    (going : solo.Going seconds last wake)
    (popped : solo.schedule.next? = some (turn, schedule))
    (woken : solo.member.supervision = .woken since) :
    solo.member.supervision.Since schedule.now since := by
  obtain ⟨other, counts, -⟩ := (going.popped popped).since
  rw [woken] at counts ⊢
  cases counts with
  | woken past => exact .woken past

/-- A task is woken at its instant only. -/
theorem now_eq_of_wake
    (going : solo.Going seconds last wake)
    (popped : solo.schedule.next? = some (.wake, schedule)) :
    solo.member.task.isSleeping = true ∧ schedule.now = wake := by
  have sleeps : solo.member.task.isSleeping = true := by
    have count := (Schedule.entries_next? popped).count_eq .wake
    rw [going.sound.wake, List.count_cons_self] at count
    split at count
    · next sleeps => exact sleeps
    · contradiction
  exact ⟨sleeps, ((going.poised.wakes sleeps).next? going.poised.isAhead popped).1 rfl⟩

/-- Nothing that lies ahead is past. -/
theorem isFrom_future
    (going : solo.Going seconds last wake)
    (popped : solo.schedule.next? = some (turn, schedule))
    (document : Document) :
    (solo.future document wake).IsFrom schedule.now := by
  have poised := going.popped popped
  have wakes : solo.member.task.isSleeping = true → schedule.now ≤ wake := by
    intro sleeps
    by_cases isWake : turn = .wake
    · subst isWake
      exact (going.now_eq_of_wake popped).2.le
    · exact (poised.wakes sleeps).now_le poised.isAhead
        ((going.wake_mem_entries_iff popped isWake).mpr sleeps)
  rw [← going.timeline_eq popped document]
  cases task : solo.member.task with
  | absent => trivial
  | fresh steps => exact Step.isFrom_timeline _ steps
  | resting step rest =>
    cases step with
    | sleep pause onCancel swallows =>
      exact (Step.isFrom_timeline _ rest).mono (wakes (by rw [task]; rfl))
    | _ => trivial
  | rested step rest => exact Step.isFrom_timeline _ rest
  | ended ending => exact Timeline.isFrom_ofPerformance _ _

/-- As long as a member goes along its timeline, something is to happen, and not behind its
deadline. -/
theorem next?_ne_none
    {deadline? : Option Rat}
    (going : solo.Going seconds last wake)
    (document : Document)
    (lapse?_eq : (solo.future document wake).lapse? seconds last = deadline?) :
    solo.schedule.entries ≠ [] ∧ ∀ deadline ∈ deadline?, solo.schedule.advance.now ≤ deadline := by
  have busy : solo.schedule.entries ≠ [] := by
    by_cases ready : ∃ turn, turn ∈ solo.schedule.ready
    · obtain ⟨turn, known⟩ := ready
      exact List.ne_nil_of_mem (List.mem_append_left _ known)
    · -- Without a turn that is ready, the supervisor waits for a task that rests, and has a timer.
      obtain ⟨since, counts, -⟩ := going.poised.since
      have rests : solo.member.supervision.isReady = false ∧ solo.member.task.ending? = none := by
        constructor
        · by_contra attends
          exact ready (going.exists_mem_ready (.inr (.inl (by simpa using attends))))
        · by_contra ended
          exact ready (going.exists_mem_ready (.inr (.inr ended)))
      generalize supervision : solo.member.supervision = supervision at counts rests
      cases counts with
      | fresh => exact absurd rests.1 (by simp [Supervision.isReady])
      | woken past => exact absurd rests.1 (by simp [Supervision.isReady])
      | waiting past =>
        rcases going.armed since supervision rests.2 with known | ⟨timer, known, -⟩
        · exact absurd ⟨_, known⟩ ready
        · exact List.ne_nil_of_mem
            (List.mem_append_right _ (List.mem_map_of_mem known))
  refine ⟨busy, fun deadline known => ?_⟩
  cases popped : solo.schedule.next? with
  | none => exact absurd ((Schedule.next?_eq_none_iff _).mp popped) busy
  | some next =>
    have poised := going.popped popped
    rw [Schedule.advance_of_next? popped]
    exact poised.timely.trans (Timeline.le_of_lapse?
      ((going.isFrom_future popped document).mono poised.past) (lapse?_eq.trans known))

/-- When the seconds have passed, the error is the last that is delivered. -/
theorem expired
    {since : Rat}
    (bounded : setting.IsBounded seconds)
    (going : solo.Going seconds last wake)
    (clear : (solo.future setting.document wake).IsClear seconds last)
    (popped : solo.schedule.next? = some (.supervisor, schedule))
    (woken : solo.member.supervision = .woken since)
    (tardy : solo.member.left? setting schedule.now since = some 0)
    (reporter_eq : course.member.reporter =
      (solo.member.reporter.report schedule.now .error (idleMessage setting.timeout?)
        none).1.finish.1)
    (delivered_eq : Member.delivered course.effects = Reporter.delivered
      (solo.member.reporter.report schedule.now .error (idleMessage setting.timeout?) none).2) :
    (({ solo with schedule := schedule } : Solo).follow course).Over setting solo.member.key
      (solo.diagnostics ++ (solo.future setting.document wake).heard seconds last)
      ((solo.future setting.document wake).lapse? seconds last) := by
  have due : schedule.now = last + seconds := by
    rw [((going.popped popped).left?_eq bounded (going.since_of_woken popped woken)).2] at tardy
    exact (sub_eq_zero.mp (Option.some.inj tardy)).symm
  obtain ⟨lapsed, unheard⟩ := Timeline.lapse?_of_eq
    (going.isFrom_future popped setting.document) clear due
  have running := going.poised.running
  rw [lapsed, unheard]
  refine ⟨?_, ?_, ?_⟩
  · simp only [Solo.follow, reporter_eq, Reporter.isFinished_finish]
  · simp only [Solo.follow, delivered_eq, Reporter.report, running, List.append_nil]
    rfl
  · intro deadline known
    rw [← Option.some.inj known, schedule_follow, now_foldl_obey]

/-- A turn that leaves the task and the reporter as they are goes on along the timeline. -/
theorem beside
    (going : solo.Going seconds last wake)
    (clear : (solo.future setting.document wake).IsClear seconds last)
    (popped : solo.schedule.next? = some (turn, schedule))
    (sound : (({ solo with schedule := schedule } : Solo).follow course).Sound)
    (reporter_eq : course.member.reporter = solo.member.reporter)
    (task_eq : course.member.task = solo.member.task)
    (counts : ∀ since, solo.member.supervision.Since schedule.now since →
      course.member.supervision.Since schedule.now since)
    (aside : ∀ effect ∈ course.turns, effect.IsAside)
    (delivered_eq : Member.delivered course.effects = [])
    (armed : ∀ since, course.member.supervision = .waiting since →
      solo.member.task.ending? = none →
        (course.turns.foldl obey schedule).ComesBy .idle (last + seconds)) :
    (({ solo with schedule := schedule } : Solo).follow course).Destined setting seconds
      solo.member.key
      (solo.diagnostics ++ (solo.future setting.document wake).heard seconds last)
      ((solo.future setting.document wake).lapse? seconds last) := by
  have poised := (going.popped popped).congr reporter_eq counts (by rw [task_eq]; exact id)
  refine .aside poised sound aside ?_ ?_ delivered_eq clear ?_
  · rw [Member.key, Member.key, reporter_eq]
  · rw [task_eq, reporter_eq]
    exact going.timeline_eq popped setting.document
  · rw [task_eq]
    exact armed

/-- A supervisor that begins to wait before the deadline waits for it, and the timeline goes on. -/
theorem attends
    {since : Rat}
    {before : List Member.Effect}
    (bounded : setting.IsBounded seconds)
    (going : solo.Going seconds last wake)
    (clear : (solo.future setting.document wake).IsClear seconds last)
    (popped : solo.schedule.next? = some (turn, schedule))
    (sound : (({ solo with schedule := schedule } : Solo).follow course).Sound)
    (counts : solo.member.supervision.Since schedule.now since)
    (early : schedule.now < last + seconds)
    (reporter_eq : course.member.reporter = solo.member.reporter)
    (task_eq : course.member.task = solo.member.task)
    (supervision_eq : course.member.supervision = .waiting since)
    (turns_eq : course.turns =
      before ++ Member.idleTurns (solo.member.left? setting schedule.now since))
    (aside : ∀ effect ∈ before, effect.IsAside)
    (delivered_eq : Member.delivered course.effects = []) :
    (({ solo with schedule := schedule } : Solo).follow course).Destined setting seconds
      solo.member.key
      (solo.diagnostics ++ (solo.future setting.document wake).heard seconds last)
      ((solo.future setting.document wake).lapse? seconds last) := by
  have poised := going.popped popped
  rw [(poised.left?_eq bounded counts).2] at turns_eq
  refine going.beside clear popped sound reporter_eq task_eq ?_ ?_ delivered_eq ?_
  · intro other otherCounts
    rw [supervision_eq, ← counts.unique otherCounts]
    exact .waiting counts.le
  · rw [turns_eq, List.forall_mem_append]
    exact ⟨aside, by simp [Member.Effect.IsAside, Member.idleTurns, early]⟩
  · rw [turns_eq]
    exact fun _ _ _ => poised.comesBy_idleTurns _

/-- A task that awakes goes on along the timeline. -/
theorem awoke
    {step : Step}
    {rest : List Step}
    (going : solo.Going seconds last wake)
    (clear : (solo.future setting.document wake).IsClear seconds last)
    (popped : solo.schedule.next? = some (.wake, schedule))
    (sound : (({ solo with schedule := schedule } : Solo).follow course).Sound)
    (task_eq : solo.member.task = .resting step rest)
    (member_eq : course.member = { solo.member with task := .rested step rest })
    (turns_eq : course.turns = [.soon .task])
    (delivered_eq : Member.delivered course.effects = []) :
    (({ solo with schedule := schedule } : Solo).follow course).Destined setting seconds
      solo.member.key
      (solo.diagnostics ++ (solo.future setting.document wake).heard seconds last)
      ((solo.future setting.document wake).lapse? seconds last) := by
  obtain ⟨sleeps, now_eq⟩ := going.now_eq_of_wake popped
  have poised := @Poised.congr _ _ _ _ _ course.member (going.popped popped) (by rw [member_eq])
    (by rw [member_eq]; exact fun _ => id) fun _ => sleeps
  refine .aside poised sound ?_ ?_ ?_ delivered_eq clear ?_
  · simp [turns_eq, Member.Effect.IsAside]
  · rw [member_eq]
    rfl
  · rw [← going.timeline_eq popped, member_eq, now_eq, task_eq]
    rw [task_eq] at sleeps
    cases step with
    | sleep pause onCancel swallows => rfl
    | _ => contradiction
  · rw [member_eq]
    intro since waiting _
    refine comesBy_foldl_obey (by simp [turns_eq]) ?_
    exact (going.armed since waiting (by rw [task_eq]; rfl)).next? going.poised.isAhead popped
      (by simp)

/-- A turn of a member that goes along its timeline goes on along it, as far as there is a deadline
at all. -/
theorem step
    (bounded : setting.IsBounded seconds)
    (going : solo.Going seconds last wake)
    (clear : (solo.future setting.document wake).IsClear seconds last)
    (stepped : solo.step? setting = some next) :
    next.Destined setting seconds solo.member.key
      (solo.diagnostics ++ (solo.future setting.document wake).heard seconds last)
      ((solo.future setting.document wake).lapse? seconds last) := by
  obtain ⟨⟨turn, schedule⟩, popped, rfl⟩ := Option.map_eq_some_iff.mp stepped
  have poised := going.popped popped
  have taken := @Sound.take setting solo turn schedule going.sound popped
  have acted := Member.acted setting schedule.now solo.member turn
  have conduct := solo.member.conduct_take setting schedule.now turn
  simp only [Solo.take] at taken ⊢
  generalize solo.member.take setting schedule.now turn = course at acted conduct taken ⊢
  -- Whoever waits for the deadline goes on to do so, unless its turn has come.
  have armed : turn ≠ .idle → .cancel .idle ∉ course.turns → ∀ since,
      solo.member.supervision = .waiting since → solo.member.task.ending? = none →
        (course.turns.foldl obey schedule).ComesBy .idle (last + seconds) :=
    fun other kept since waiting goesOn => comesBy_foldl_obey kept
      ((going.armed since waiting goesOn).next? going.poised.isAhead popped other)
  cases acted with
  | nothing member_eq turns_eq delivered_eq task wake supervisor notice =>
    have sound := taken fun isSupervisor since woken => by
      have ready := supervisor isSupervisor
      rw [woken] at ready
      contradiction
    refine going.beside clear popped sound (by rw [member_eq]) (by rw [member_eq])
      (by rw [member_eq]; exact fun _ => id) (by simp [turns_eq]) delivered_eq ?_
    rw [member_eq]
    intro since waiting
    refine armed ?_ (by simp [turns_eq]) since waiting
    rintro rfl
    exact notice (.inl rfl) since waiting
  | ran steps watch woken isTask steps_eq rouses member_eq turns_eq delivered_eq =>
    subst isTask
    exact going.ran bounded.positive clear popped (taken (by simp)) steps_eq rouses conduct.key_eq
      member_eq turns_eq delivered_eq
  | awoke step rest isWake task_eq member_eq turns_eq delivered_eq =>
    subst isWake
    exact going.awoke clear popped (taken (by simp)) task_eq member_eq turns_eq delivered_eq
  | settled ending isSupervisor ready task_eq member_eq turns_eq delivered_eq =>
    have finished : (((Performance.start solo.member.reporter).stop ending).settle
        schedule.now).reporter.isFinished = true := Performance.isFinished_settle rfl schedule.now
    refine .complete (.of_done bounded.positive poised ?_ delivered_eq ?_)
    · rw [← going.timeline_eq popped, task_eq, Task.timeline, Timeline.ofPerformance,
        if_pos finished]
    · rw [member_eq]
      exact finished
  | supervised isSupervisor fresh goesOn member_eq turns_eq delivered_eq =>
    have sound := taken fun _ since woken => by
      rw [fresh] at woken
      contradiction
    have counts : solo.member.supervision.Since schedule.now schedule.now := fresh ▸ .fresh
    have began := (poised.left?_eq bounded counts).1
    exact going.attends bounded clear popped sound counts (by linarith [bounded.positive])
      (by rw [member_eq]) (by rw [member_eq]) (by rw [member_eq]) turns_eq
      (by simp [Member.Effect.IsAside]) delivered_eq
  | awaited since isSupervisor woken goesOn running timely member_eq turns_eq delivered_eq =>
    have counts := going.since_of_woken (isSupervisor ▸ popped) woken
    have sound := taken fun _ other otherWoken _ _ => by
      rw [woken] at otherWoken
      cases otherWoken
      exact timely
    have early : schedule.now < last + seconds := by
      refine lt_of_le_of_ne poised.timely fun same => timely ?_
      rw [(poised.left?_eq bounded counts).2, ← same, sub_self]
    exact going.attends bounded clear popped sound counts early
      (by rw [member_eq]) (by rw [member_eq]) (by rw [member_eq]) turns_eq
      (by simp [Member.Effect.IsAside]) delivered_eq
  | expired since watch roused isSupervisor woken goesOn running tardy rouses member_eq turns_eq
      delivered_eq =>
    subst isSupervisor
    refine .complete (going.expired bounded clear popped woken tardy ?_ delivered_eq)
    rw [member_eq]
  | abandoned since isSupervisor woken goesOn finished member_eq turns_eq delivered_eq =>
    exact absurd (finished.symm.trans poised.running) (by simp)
  | noticed since isNotice waiting member_eq turns_eq delivered_eq =>
    have sound := taken fun isSupervisor => by
      rcases isNotice with same | same <;> rw [isSupervisor] at same <;> contradiction
    refine going.beside clear popped sound (by rw [member_eq]) (by rw [member_eq]) ?_
      (by simp [turns_eq, Member.Effect.IsAside]) delivered_eq ?_
    · rw [member_eq, waiting]
      intro other counts
      cases counts with
      | waiting past => exact .woken past
    · rw [member_eq]
      simp
  | watched isWatch ready member_eq turns_eq delivered_eq =>
    subst isWatch
    refine going.beside clear popped (taken (by simp)) (by rw [member_eq]) (by rw [member_eq])
      (by rw [member_eq]; exact fun _ => id) (by simp [turns_eq, Member.Effect.IsAside])
      delivered_eq ?_
    rw [member_eq]
    exact armed (by simp) (by simp [turns_eq])
  | armed isWatch fresh member_eq turns_eq delivered_eq =>
    subst isWatch
    refine going.beside clear popped (taken (by simp)) (by rw [member_eq]) (by rw [member_eq])
      (by rw [member_eq]; exact fun _ => id) (by simp [turns_eq]) delivered_eq ?_
    rw [member_eq]
    exact armed (by simp) (by simp [turns_eq])

end Going

/-- Whatever a solo is destined to, it stays so. -/
theorem Destined.step
    (bounded : setting.IsBounded seconds)
    (destined : solo.Destined setting seconds key reports lapse?)
    (stepped : solo.step? setting = some next) :
    next.Destined setting seconds key reports lapse? := by
  cases destined with
  | going last wake going key_eq clear reports_eq lapse?_eq =>
    subst key_eq reports_eq lapse?_eq
    exact going.step bounded clear stepped
  | complete complete =>
    obtain ⟨⟨turn, schedule⟩, popped, rfl⟩ := Option.map_eq_some_iff.mp stepped
    exact .complete (complete.follow (solo.member.conduct_take setting schedule.now turn)
      (Schedule.now_le_of_next? popped))

theorem Destined.reaches
    (bounded : setting.IsBounded seconds)
    (destined : solo.Destined setting seconds key reports lapse?)
    (path : solo.Reaches setting next) :
    next.Destined setting seconds key reports lapse? := by
  induction path with
  | refl => exact destined
  | tail _ stepped ih => exact ih.step bounded stepped

end Solo
end Linting
end MarkupLint
