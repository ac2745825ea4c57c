import MarkupLint.Proofs.Linting.Patience
import MarkupLint.Proofs.Linting.Solo

/-!
# What is expected comes true

The turns of a member that may be idle leave its prospect as it is, but for what they report.  As
long as something is to be expected, there is a turn for it on the schedule; so when nothing can
happen any more, all that was expected has been reported.
-/

namespace MarkupLint

/-- A reporter is done when its script has ended. -/
theorem Performance.isFinished_settle
    {performance : Performance}
    (ended : performance.ending?.isSome = true)
    (now : Rat) :
    (performance.settle now).reporter.isFinished = true := by
  simp only [settle]
  split
  · next none =>
    rw [none] at ended
    contradiction
  · exact Reporter.isFinished_finish _
  · exact Reporter.isFinished_finish _
  · exact Reporter.isFinished_finish _

namespace Linting

theorem Member.kept_turnsBehind (member : Member) (task : Task) (own : Turn) :
    .cancel own ∉ member.turnsBehind task := by
  unfold turnsBehind
  split
  · simp
  · simp
  · split
    · simp
    · split <;> simp
  · simp

/-- Whether an effect puts a turn of the member on the schedule. -/
def Member.Effect.brings (turn : Member.Turn) : Member.Effect → Bool
  | soon own => own = turn
  | after _ own => own = turn
  | _ => false

namespace Solo

theorem schedule_follow (solo : Solo) (course : Member.Course) :
    (solo.follow course).schedule = course.turns.foldl obey solo.schedule :=
  (foldl_obey_filter solo.schedule course.effects).symm

/-- Turns that are not cancelled are on the schedule as often as they are put there. -/
theorem count_entries_foldl_obey
    {effects : List Member.Effect}
    {turn : Member.Turn}
    (kept : .cancel turn ∉ effects)
    (schedule : Schedule Member.Turn) :
    (effects.foldl obey schedule).entries.count turn =
      schedule.entries.count turn + effects.countP (·.brings turn) := by
  induction effects generalizing schedule with
  | nil => rfl
  | cons effect rest ih =>
    rw [List.mem_cons, not_or] at kept
    have once : (obey schedule effect).entries.count turn =
        schedule.entries.count turn + if effect.brings turn then 1 else 0 := by
      cases effect with
      | soon own =>
        simp only [obey, (Schedule.entries_soon _ _).count_eq, List.count_cons,
          Member.Effect.brings, beq_iff_eq, decide_eq_true_eq]
      | after seconds own =>
        simp only [obey, (Schedule.entries_after _ _ _).count_eq, List.count_cons,
          Member.Effect.brings, beq_iff_eq, decide_eq_true_eq]
      | cancel own =>
        have different : turn ≠ own := by
          rintro rfl
          exact kept.1 rfl
        exact Schedule.count_entries_cancel different schedule
      | _ => rfl
    rw [List.foldl_cons, ih kept.2, once, List.countP_cons]
    omega

/-- A solo whose member is not cancelled, and has a turn on the schedule as long as it is to go on. -/
structure Sound (solo : Solo) : Prop where
  calm : solo.member.isCancelling = false
  task : solo.member.task.isReady = true → 0 < solo.schedule.entries.count .task
  wake : solo.schedule.entries.count .wake = if solo.member.task.isSleeping then 1 else 0
  supervisor : solo.member.supervision.isReady = true →
    0 < solo.schedule.entries.count .supervisor
  notice : ∀ since ending, solo.member.supervision = .waiting since →
    solo.member.task = .ended ending → 0 < solo.schedule.entries.count .notice
  late : solo.member.isLate = true → solo.member.supervision = .ended
  finished : solo.member.supervision = .ended → solo.member.reporter.isFinished = true
  absent : solo.member.supervision = .absent → solo.member.task = .absent

/-- What a stretch of steps leaves a task at. -/
inductive Halted : Task → Prop where
  | asleep
      (seconds : Rat)
      (onCancel : List Step)
      (swallows : Bool)
      (rest : List Step)
      (positive : 0 < seconds) :
      Halted (.resting (.sleep seconds onCancel swallows) rest)
  | slept (seconds : Rat) (onCancel : List Step) (swallows : Bool) (rest : List Step) :
    Halted (.rested (.sleep seconds onCancel swallows) rest)
  | hanging (onCancel : List Step) (swallows : Bool) (rest : List Step) :
    Halted (.resting (.hang onCancel swallows) rest)
  | ended (ending : Ending) : Halted (.ended ending)

theorem halted_run (document : Document) (now : Rat) (before : Performance) (steps : List Step) :
    Halted (Stretch.run document now before steps).task := by
  induction steps generalizing before with
  | nil => exact .ended .completed
  | cons step rest ih =>
    cases step with
    | act action =>
      simp only [Stretch.run]
      split
      · exact .ended _
      · exact ih _
    | sleep seconds onCancel swallows =>
      simp only [Stretch.run]
      split
      · exact .slept seconds onCancel swallows rest
      · next takes => exact .asleep seconds onCancel swallows rest (not_le.mp takes)
    | hang onCancel swallows => exact .hanging onCancel swallows rest

/-- How often the turns of a solo are on its schedule behind a turn that demands others.  The watch
and the turns that may be cancelled do not count. -/
def Counted
    (solo : Solo)
    (turn : Member.Turn)
    (turns : List Member.Effect)
    (later : Solo) : Prop :=
  ∀ other, other ≠ .idle ∧ other ≠ .watch →
    later.schedule.entries.count other + (if turn = other then 1 else 0) =
      solo.schedule.entries.count other + turns.countP (·.brings other)

theorem counted_follow
    {solo : Solo}
    {turn : Member.Turn}
    {schedule : Schedule Member.Turn}
    {course : Member.Course}
    {turns : List Member.Effect}
    (popped : solo.schedule.next? = some (turn, schedule))
    (turns_eq : course.turns = turns)
    (kept : ∀ own, .cancel own ∈ turns → own = .idle) :
    Counted solo turn turns (({ solo with schedule := schedule } : Solo).follow course) := by
  subst turns_eq
  intro other busy
  have entries := Schedule.entries_next? popped
  have known : .cancel other ∉ course.turns := fun cancelled => busy.1 (kept other cancelled)
  rw [schedule_follow, count_entries_foldl_obey known, entries.count_eq, List.count_cons]
  simp only [beq_iff_eq]
  omega

namespace Counted

variable {solo later : Solo} {turn other : Member.Turn} {turns : List Member.Effect}

/-- A turn that is on the schedule stays there until it is taken. -/
theorem kept
    (counted : Counted solo turn turns later)
    (busy : other ≠ .idle ∧ other ≠ .watch)
    (differs : turn ≠ other)
    (before : 0 < solo.schedule.entries.count other) :
    0 < later.schedule.entries.count other := by
  have count := counted other busy
  rw [if_neg differs] at count
  omega

/-- A turn that is brought is on the schedule. -/
theorem brought
    (counted : Counted solo turn turns later)
    (busy : other ≠ .idle ∧ other ≠ .watch)
    (before : turn = other → 0 < solo.schedule.entries.count other)
    (brings : 0 < turns.countP (·.brings other)) :
    0 < later.schedule.entries.count other := by
  have count := counted other busy
  split at count
  · next taken =>
    have early := before taken
    omega
  · omega

theorem count_eq
    (counted : Counted solo turn turns later)
    (busy : other ≠ .idle ∧ other ≠ .watch)
    (differs : turn ≠ other) :
    later.schedule.entries.count other =
      solo.schedule.entries.count other + turns.countP (·.brings other) := by
  have count := counted other busy
  rw [if_neg differs] at count
  exact count

/-- What brings the same turns counts the same. -/
theorem congr
    {others : List Member.Effect}
    (counted : Counted solo turn turns later)
    (same : ∀ other, other ≠ .idle ∧ other ≠ .watch →
      turns.countP (·.brings other) = others.countP (·.brings other)) :
    Counted solo turn others later := by
  intro other busy
  rw [← same other busy]
  exact counted other busy

end Counted

/-- A stretch of steps is followed by the turn that goes on behind it. -/
theorem Sound.ran
    {solo later : Solo}
    {stretch : Stretch}
    {watch : Watch}
    (sound : solo.Sound)
    (ready : solo.member.task.isReady = true)
    (halted : Halted stretch.task)
    (finishes : solo.member.reporter.isFinished = true → stretch.reporter.isFinished = true)
    (counted : Counted solo .task (solo.member.turnsBehind stretch.task) later)
    (later_eq : later.member = { solo.member.afterStretch stretch with watch := watch }) :
    later.Sound := by
  have present : solo.member.supervision ≠ .absent := by
    intro none
    rw [sound.absent none] at ready
    contradiction
  have awake : solo.schedule.entries.count .wake = 0 := by
    rw [sound.wake, if_neg]
    revert ready
    cases solo.member.task <;> simp [Task.isReady, Task.isSleeping]
  have wakes : later.schedule.entries.count .wake = _ := counted.count_eq (by simp) (by simp)
  rw [awake, Nat.zero_add] at wakes
  simp only [Member.afterStretch] at later_eq
  generalize stretch.task = halt at *
  constructor <;> rw [later_eq]
  case task =>
    intro again
    apply counted.brought (by simp) fun _ => sound.task ready
    cases halted with
    | slept seconds onCancel swallows rest => exact Nat.one_pos
    | _ => contradiction
  case wake =>
    rw [wakes]
    cases halted with
    | ended ending =>
      simp only [Member.turnsBehind]
      split
      · rfl
      · split <;> rfl
    | _ => rfl
  case supervisor =>
    intro needed
    exact counted.kept (by simp) (by simp) (sound.supervisor needed)
  case notice =>
    rintro since ending waiting rfl
    apply counted.brought (by simp) (by simp)
    have timely : ¬ solo.member.isLate = true := by
      intro isLate
      rw [sound.late isLate] at waiting
      contradiction
    have listening : solo.member.supervision.isListening = true := by
      rw [waiting]
      rfl
    rw [Member.turnsBehind, if_neg timely, if_pos listening]
    exact Nat.one_pos
  case late => exact sound.late
  case finished => exact fun ended => finishes (sound.finished ended)
  case absent => exact fun none => absurd none present

/-- A turn of the supervisor or of the watch leaves the task as it is. -/
theorem Sound.besides
    {solo later : Solo}
    {turn : Member.Turn}
    {turns : List Member.Effect}
    (sound : solo.Sound)
    (counted : Counted solo turn turns later)
    (differs : turn ≠ .task ∧ turn ≠ .wake)
    (asleep : turns.countP (·.brings .wake) = 0)
    (calm_eq : later.member.isCancelling = solo.member.isCancelling)
    (task_eq : later.member.task = solo.member.task)
    (supervisor : later.member.supervision.isReady = true →
      0 < later.schedule.entries.count .supervisor)
    (notice : ∀ since ending, later.member.supervision = .waiting since →
      later.member.task = .ended ending → 0 < later.schedule.entries.count .notice)
    (late : later.member.isLate = true → later.member.supervision = .ended)
    (finished : later.member.supervision = .ended → later.member.reporter.isFinished = true)
    (absent : later.member.supervision = .absent → later.member.task = .absent) :
    later.Sound where
  calm := calm_eq.trans sound.calm
  task := by
    intro ready
    rw [task_eq] at ready
    exact counted.kept (by simp) differs.1 (sound.task ready)
  wake := by
    rw [task_eq, counted.count_eq (by simp) differs.2, asleep]
    exact sound.wake
  supervisor := supervisor
  notice := notice
  late := late
  finished := finished
  absent := absent

/-- A supervisor that goes on to wait need not be told of the end of a task that goes on. -/
theorem Sound.attends
    {solo later : Solo}
    {turns : List Member.Effect}
    {since : Rat}
    {watch : Watch}
    (sound : solo.Sound)
    (counted : Counted solo .supervisor turns later)
    (asleep : turns.countP (·.brings .wake) = 0)
    (early : solo.member.supervision ≠ .ended)
    (goesOn : solo.member.task.ending? = none)
    (later_eq : later.member =
      { solo.member with supervision := .waiting since, watch := watch }) :
    later.Sound := by
  apply sound.besides counted (by simp) asleep <;> rw [later_eq]
  case supervisor => exact nofun
  case notice =>
    intro _ ending _ ended
    rw [ended] at goesOn
    contradiction
  case late => exact fun isLate => absurd (sound.late isLate) early
  case finished => exact nofun
  case absent => exact nofun

/-- The watch leaves all but itself as it is. -/
theorem Sound.watched
    {solo later : Solo}
    {turns : List Member.Effect}
    {watch : Watch}
    (sound : solo.Sound)
    (counted : Counted solo .watch turns later)
    (asleep : turns.countP (·.brings .wake) = 0)
    (later_eq : later.member = { solo.member with watch := watch }) :
    later.Sound := by
  apply sound.besides counted (by simp) asleep <;> rw [later_eq]
  case supervisor => exact fun ready => counted.kept (by simp) (by simp) (sound.supervisor ready)
  case notice =>
    intro since ending waiting ended
    exact counted.kept (by simp) (by simp) (sound.notice since ending waiting ended)
  case late => exact sound.late
  case finished => exact sound.finished
  case absent => exact sound.absent

/-- A turn in which there is nothing to do is none of those that are needed. -/
theorem Sound.rests
    {solo later : Solo}
    {turn : Member.Turn}
    (sound : solo.Sound)
    (counted : Counted solo turn [] later)
    (task : turn = .task → solo.member.task.isReady = false)
    (wake : turn = .wake → solo.member.task.isSleeping = false)
    (supervisor : turn = .supervisor → solo.member.supervision.isReady = false)
    (notice : turn = .notice → ∀ since, solo.member.supervision ≠ .waiting since)
    (later_eq : later.member = solo.member) :
    later.Sound := by
  constructor <;> rw [later_eq]
  case calm => exact sound.calm
  case task =>
    intro ready
    apply counted.kept (by simp) _ (sound.task ready)
    rintro rfl
    simp [task rfl] at ready
  case wake =>
    have count := counted .wake (by simp)
    rw [sound.wake] at count
    split at count
    · next isWake =>
      rw [wake isWake] at count
      contradiction
    · exact count
  case supervisor =>
    intro ready
    apply counted.kept (by simp) _ (sound.supervisor ready)
    rintro rfl
    simp [supervisor rfl] at ready
  case notice =>
    intro since ending waiting ended
    apply counted.kept (by simp) _ (sound.notice since ending waiting ended)
    rintro rfl
    exact notice rfl since waiting
  case late => exact sound.late
  case finished => exact sound.finished
  case absent => exact sound.absent

/-- A task that awakes has its turn. -/
theorem Sound.awoke
    {solo later : Solo}
    {step : Step}
    {rest : List Step}
    (sound : solo.Sound)
    (counted : Counted solo .wake [.soon .task] later)
    (task_eq : solo.member.task = .resting step rest)
    (later_eq : later.member = { solo.member with task := .rested step rest }) :
    later.Sound := by
  constructor <;> rw [later_eq]
  case calm => exact sound.calm
  case task => exact fun _ => counted.brought (by simp) (by simp) Nat.one_pos
  case wake =>
    have taken : later.schedule.entries.count .wake + 1 = _ := counted .wake (by simp)
    have once : (if solo.member.task.isSleeping then 1 else 0) ≤ 1 := by split <;> simp
    rw [sound.wake] at taken
    exact Nat.le_zero.mp (Nat.le_of_succ_le_succ (taken.trans_le once))
  case supervisor =>
    intro ready
    exact counted.kept (by simp) (by simp) (sound.supervisor ready)
  case notice => simp
  case late => exact sound.late
  case finished => exact sound.finished
  case absent =>
    intro none
    have absent := sound.absent none
    rw [task_eq] at absent
    contradiction

/-- A supervisor that ends with the script needs no turn any more. -/
theorem Sound.dismissed
    {solo later : Solo}
    {turns : List Member.Effect}
    (sound : solo.Sound)
    (counted : Counted solo .supervisor turns later)
    (asleep : turns.countP (·.brings .wake) = 0)
    (calm_eq : later.member.isCancelling = solo.member.isCancelling)
    (task_eq : later.member.task = solo.member.task)
    (ended : later.member.supervision = .ended)
    (finished : later.member.reporter.isFinished = true) :
    later.Sound := by
  apply sound.besides counted (by simp) asleep calm_eq task_eq <;> rw [ended]
  case supervisor => exact fun ready => absurd ready Bool.false_ne_true
  case notice => simp
  case late => exact fun _ => rfl
  case finished => exact fun _ => finished
  case absent => simp

/-- A supervisor that is told of something has its turn. -/
theorem Sound.noticed
    {solo later : Solo}
    {turn : Member.Turn}
    {since : Rat}
    (sound : solo.Sound)
    (counted : Counted solo turn [.cancel .idle, .soon .supervisor] later)
    (isNotice : turn = .idle ∨ turn = .notice)
    (waiting : solo.member.supervision = .waiting since)
    (later_eq : later.member = { solo.member with supervision := .woken since }) :
    later.Sound := by
  have differs : turn ≠ .task ∧ turn ≠ .wake ∧ turn ≠ .supervisor := by
    rcases isNotice with rfl | rfl <;> simp
  apply sound.besides counted ⟨differs.1, differs.2.1⟩ rfl <;> rw [later_eq]
  case supervisor =>
    exact fun _ => counted.brought (by simp) (fun taken => absurd taken differs.2.2) Nat.one_pos
  case notice => simp
  case late =>
    intro isLate
    have ended := sound.late isLate
    rw [waiting] at ended
    contradiction
  case finished => simp
  case absent => simp

/-- Rousing the watch brings none of the turns that count. -/
theorem counted_roused
    {solo later : Solo}
    {turn : Member.Turn}
    {task : Task}
    {watch : Watch}
    {woken : List Member.Effect}
    (rouses : Member.Course.Rouses solo.member.watch watch woken)
    (counts : (∀ own, .cancel own ∈ woken ++ solo.member.turnsBehind task → own = .idle) →
      Counted solo turn (woken ++ solo.member.turnsBehind task) later) :
    Counted solo turn (solo.member.turnsBehind task) later := by
  apply (counts _).congr
  · intro other busy
    rcases rouses with ⟨watch_eq, woken_eq⟩ | ⟨waiting, watch_eq, woken_eq⟩
    · rw [woken_eq, List.nil_append]
    · rw [woken_eq, List.countP_append]
      simp [Member.Effect.brings, Ne.symm busy.2]
  · intro own known
    rcases List.mem_append.mp known with early | late
    · rcases rouses with ⟨watch_eq, woken_eq⟩ | ⟨waiting, watch_eq, woken_eq⟩ <;>
        simp [woken_eq] at early
    · exact absurd late (solo.member.kept_turnsBehind _ own)

/-- In each turn in which the member is not found to have been idle for too long, the solo stays
sound. -/
theorem Sound.take
    {setting : Setting}
    {solo : Solo}
    {turn : Member.Turn}
    {schedule : Schedule Member.Turn}
    (sound : solo.Sound)
    (popped : solo.schedule.next? = some (turn, schedule))
    (patient : turn = .supervisor → ∀ since, solo.member.supervision = .woken since →
      solo.member.task.ending? = none → solo.member.reporter.isFinished = false →
        solo.member.left? setting schedule.now since ≠ some 0) :
    (({ solo with schedule := schedule } : Solo).take setting turn).Sound := by
  have acted := Member.acted setting schedule.now solo.member turn
  have conduct := solo.member.conduct_take setting schedule.now turn
  simp only [Solo.take]
  generalize solo.member.take setting schedule.now turn = course at acted conduct
  have counts := fun turns => @counted_follow solo turn schedule course turns popped
  have later_eq : (({ solo with schedule := schedule } : Solo).follow course).member =
      course.member := rfl
  generalize ({ solo with schedule := schedule } : Solo).follow course = later at counts later_eq ⊢
  -- A turn that is needed is on the schedule: it was there before and is not the one that is taken,
  -- or the one that is taken brings it.
  cases acted with
  | nothing member_eq turns_eq delivered_eq task wake supervisor notice =>
    have awake : turn = .wake → solo.member.task.isSleeping = false := by
      intro isWake
      cases task_eq : solo.member.task with
      | resting step rest => exact absurd task_eq (wake isWake step rest)
      | _ => rfl
    exact sound.rests (counts _ turns_eq (by simp)) task awake supervisor
      (fun isNotice => notice (.inr isNotice)) (later_eq.trans member_eq)
  | ran steps watch woken isTask steps_eq rouses member_eq turns_eq delivered_eq =>
    have ready : solo.member.task.isReady = true := by
      rcases Member.task_of_upcomingSteps? sound.calm steps_eq with same | ⟨step, same⟩ <;>
        rw [same] <;> rfl
    have halted := halted_run setting.document schedule.now (.start solo.member.reporter) steps
    have finishes := @conduct.isFinished_of_isFinished
    rw [member_eq] at finishes
    subst isTask
    exact sound.ran ready halted finishes (counted_roused rouses (counts _ turns_eq))
      (later_eq.trans member_eq)
  | awoke step rest isWake task_eq member_eq turns_eq delivered_eq =>
    subst isWake
    exact sound.awoke (counts _ turns_eq (by simp)) task_eq (later_eq.trans member_eq)
  | settled ending isSupervisor ready task_eq member_eq turns_eq delivered_eq =>
    have finished : (((Performance.start solo.member.reporter).stop ending).settle
        schedule.now).reporter.isFinished = true := Performance.isFinished_settle rfl schedule.now
    have counted : Counted solo turn [] later := by
      rcases turns_eq with turns_eq | turns_eq
      · exact counts _ turns_eq (by simp)
      · exact (counts _ turns_eq (by simp)).congr fun other busy => rfl
    rw [member_eq] at later_eq
    subst isSupervisor
    apply sound.dismissed counted rfl <;> rw [later_eq]
    exact finished
  | supervised isSupervisor fresh goesOn member_eq turns_eq delivered_eq =>
    have early : solo.member.supervision ≠ .ended := by
      rw [fresh]
      exact Supervision.noConfusion
    subst isSupervisor
    cases left : solo.member.left? setting schedule.now schedule.now <;> rw [left] at turns_eq <;>
      exact sound.attends (counts _ turns_eq (by simp [Member.idleTurns])) rfl early goesOn
        (later_eq.trans member_eq)
  | awaited since isSupervisor woken goesOn running timely member_eq turns_eq delivered_eq =>
    have early : solo.member.supervision ≠ .ended := by
      rw [woken]
      exact Supervision.noConfusion
    subst isSupervisor
    cases left : solo.member.left? setting schedule.now since <;> rw [left] at turns_eq <;>
      exact sound.attends (counts _ turns_eq (by simp [Member.idleTurns])) rfl early goesOn
        (later_eq.trans member_eq)
  | expired since watch roused isSupervisor woken goesOn running tardy =>
    exact absurd tardy (patient isSupervisor since woken goesOn running)
  | abandoned since isSupervisor woken goesOn finished member_eq turns_eq delivered_eq =>
    rw [member_eq] at later_eq
    subst isSupervisor
    apply sound.dismissed (counts _ turns_eq (by simp)) rfl <;> rw [later_eq]
    exact finished
  | noticed since isNotice waiting member_eq turns_eq delivered_eq =>
    exact sound.noticed (counts _ turns_eq (by simp)) isNotice waiting (later_eq.trans member_eq)
  | watched isWatch ready member_eq turns_eq delivered_eq =>
    subst isWatch
    exact sound.watched (counts _ turns_eq (by simp)) rfl (later_eq.trans member_eq)
  | armed isWatch fresh member_eq turns_eq delivered_eq =>
    subst isWatch
    exact sound.watched (counts _ turns_eq (by simp)) rfl (later_eq.trans member_eq)

theorem Sound.step
    {setting : Setting}
    {solo next : Solo}
    (unbounded : setting.timeout? = none)
    (sound : solo.Sound)
    (stepped : solo.step? setting = some next) :
    next.Sound := by
  obtain ⟨⟨turn, schedule⟩, popped, rfl⟩ := Option.map_eq_some_iff.mp stepped
  refine sound.take popped fun _ since _ _ _ => ?_
  rw [Member.left?_of_unbounded unbounded]
  exact (Option.some_ne_none 0).symm

end Solo
end Linting
end MarkupLint
