import MarkupLint.Proofs.Linting.Expectation
import MarkupLint.Proofs.Linting.Timeline
import MarkupLint.Proofs.Schedule.Passing

/-!
# Lapses

With a bound on idleness, a member goes along the timeline of its task until it is done, or until
more than the bounding seconds have passed since it last reported.  Its supervisor never sleeps
longer than that, so it finds the lapse at the very instant.
-/

namespace MarkupLint
namespace Linting

/-- The seconds that an instance may be idle, in exact time. -/
structure Setting.IsBounded (setting : Setting) (seconds : Rat) : Prop where
  exact_eq : setting.precision = .exact
  bound : ∃ timeout, setting.timeout? = some timeout ∧ timeout.toRat? = some seconds
  positive : 0 < seconds

/-- The report that an instance has been idle too long. -/
def idleError (key : String × Int) (timeout? : Option Binary64) : Diagnostic :=
  ⟨key.1, key.2, .error, idleMessage timeout?, none⟩

/-- A supervisor counts from the instant at which it began. -/
inductive Supervision.Since (now : Rat) : Supervision → Rat → Prop where
  | fresh : Since now .fresh now
  | waiting {since : Rat} (past : since ≤ now) : Since now (.waiting since) since
  | woken {since : Rat} (past : since ≤ now) : Since now (.woken since) since

theorem Supervision.Since.le
    {now since : Rat}
    {supervision : Supervision}
    (counts : supervision.Since now since) :
    since ≤ now := by
  cases counts with
  | fresh => exact le_refl now
  | waiting past => exact past
  | woken past => exact past

theorem Supervision.Since.unique
    {now since other : Rat}
    {supervision : Supervision}
    (counts : supervision.Since now since)
    (otherCounts : supervision.Since now other) :
    since = other := by
  cases counts <;> cases otherCounts <;> rfl

/-- The seconds that are left are those since the last report, or since the supervision began. -/
theorem Member.left?_of_isBounded
    {setting : Setting}
    {seconds : Rat}
    (bounded : setting.IsBounded seconds)
    (now since : Rat)
    (member : Member) :
    member.left? setting now since =
      some (max 0 (max since (member.reporter.lastReport?.getD since) + seconds - now)) := by
  obtain ⟨exact_eq, ⟨timeout, timeout_eq, seconds_eq⟩, -⟩ := bounded
  cases timeout with
  | finite isNegative significand exponent =>
    simp only [left?, idleLeft?, timeout_eq, exact_eq, seconds_eq, Option.getD_some,
      Precision.round_exact, ← max_def]
  | _ => simp [Binary64.toRat?] at seconds_eq

/-- A member that goes along the timeline of its task, with the turns that are left on its
schedule. -/
structure Poised (seconds last wake : Rat) (member : Member) (schedule : Schedule Member.Turn) :
    Prop where
  isAhead : schedule.IsAhead
  exact_eq : schedule.precision = .exact
  timers : ∀ timer ∈ schedule.timers, timer.2 = .wake ∨ timer.2 = .idle
  running : member.reporter.isFinished = false
  past : last ≤ schedule.now
  timely : schedule.now ≤ last + seconds
  since : ∃ since, member.supervision.Since schedule.now since ∧
    max since (member.reporter.lastReport?.getD since) = last
  wakes : member.task.isSleeping = true → schedule.ComesAt .wake wake

/-- What a turn does with the schedule that is of no account for the timeline. -/
def Member.Effect.IsAside : Member.Effect → Prop
  | .soon turn => turn ≠ .wake
  | .after seconds turn => 0 < seconds ∧ turn = .idle
  | _ => True

namespace Poised

variable {seconds last wake : Rat} {member : Member} {schedule : Schedule Member.Turn}

theorem obey
    {effect : Member.Effect}
    (poised : Poised seconds last wake member schedule)
    (aside : effect.IsAside) :
    Poised seconds last wake member (Solo.obey schedule effect) := by
  have now_eq : (Solo.obey schedule effect).now = schedule.now :=
    Solo.now_foldl_obey schedule [effect]
  refine ⟨?_, ?_, ?_, poised.running, now_eq ▸ poised.past, now_eq ▸ poised.timely,
    now_eq ▸ poised.since, ?_⟩
  · cases effect with
    | soon turn => exact poised.isAhead.soon turn
    | after pause turn => exact poised.isAhead.after poised.exact_eq aside.1 turn
    | cancel turn => exact poised.isAhead.cancel turn
    | _ => exact poised.isAhead
  · cases effect <;> exact poised.exact_eq
  · cases effect with
    | after pause turn =>
      intro timer known
      rcases List.mem_cons.mp ((Schedule.insertTimer_perm _ _ _ _).mem_iff.mp known) with rfl | old
      · exact .inr aside.2
      · exact poised.timers timer old
    | cancel turn => exact fun timer known => poised.timers timer (List.mem_filter.mp known).1
    | _ => exact poised.timers
  · intro asleep
    have comes := poised.wakes asleep
    cases effect with
    | soon turn => exact comes.soon aside
    | after pause turn =>
      refine comes.after ?_ pause
      rw [aside.2]
      exact Member.Turn.noConfusion
    | cancel turn => exact comes.cancel turn
    | _ => exact comes

theorem foldl_obey
    {effects : List Member.Effect}
    (poised : Poised seconds last wake member schedule)
    (aside : ∀ effect ∈ effects, effect.IsAside) :
    Poised seconds last wake member (effects.foldl Solo.obey schedule) :=
  Solo.foldl_obey_induction (fun effect known _ held => held.obey (aside effect known)) poised

/-- The seconds that are left are those to the deadline. -/
theorem left?_eq
    {setting : Setting}
    {since : Rat}
    (bounded : setting.IsBounded seconds)
    (poised : Poised seconds last wake member schedule)
    (counts : member.supervision.Since schedule.now since) :
    since ≤ last ∧ member.left? setting schedule.now since = some (last + seconds - schedule.now) := by
  obtain ⟨other, otherCounts, last_eq⟩ := poised.since
  obtain rfl := counts.unique otherCounts
  rw [Member.left?_of_isBounded bounded, last_eq, max_eq_right (sub_nonneg.mpr poised.timely)]
  exact ⟨last_eq ▸ le_max_left _ _, rfl⟩

/-- A supervisor that waits for those seconds is woken by the deadline. -/
theorem comesBy_idleTurns
    (poised : Poised seconds last wake member schedule)
    (effects : List Member.Effect) :
    ((effects ++ Member.idleTurns (some (last + seconds - schedule.now))).foldl Solo.obey
      schedule).ComesBy .idle (last + seconds) := by
  have exact_eq : (effects.foldl Solo.obey schedule).precision = .exact :=
    (Solo.precision_foldl_obey schedule effects).trans poised.exact_eq
  have comes := @Schedule.ComesBy.of_after _ _ exact_eq (last + seconds - schedule.now)
    Member.Turn.idle
  rw [Solo.now_foldl_obey, add_sub_cancel] at comes
  rw [List.foldl_append]
  exact comes

/-- What matters of the member is its reporter, its supervision, and whether it sleeps. -/
theorem congr
    {after : Member}
    (poised : Poised seconds last wake member schedule)
    (reporter_eq : after.reporter = member.reporter)
    (since : ∀ since, member.supervision.Since schedule.now since →
      after.supervision.Since schedule.now since)
    (awake : after.task.isSleeping = true → member.task.isSleeping = true) :
    Poised seconds last wake after schedule :=
  { poised with
    running := reporter_eq ▸ poised.running
    since := by
      rw [reporter_eq]
      exact poised.since.imp fun _ held => held.imp_left (since _)
    wakes := fun asleep => poised.wakes (awake asleep) }

/-- A turn that is neither that of the sleep nor that of the bound is ready if it is on the
schedule. -/
theorem mem_ready
    {turn : Member.Turn}
    (poised : Poised seconds last wake member schedule)
    (waits : 0 < schedule.entries.count turn)
    (other : turn ≠ .wake ∧ turn ≠ .idle) :
    turn ∈ schedule.ready := by
  rcases List.mem_append.mp (List.count_pos_iff.mp waits) with ready | timed
  · exact ready
  · obtain ⟨timer, known, rfl⟩ := List.mem_map.mp timed
    rcases poised.timers timer known with same | same
    · exact absurd same other.1
    · exact absurd same other.2

end Poised

namespace Solo

/-- What lies ahead of a member that is woken at an instant if it sleeps. -/
def future (document : Document) (wake : Rat) (solo : Solo) : Timeline :=
  solo.member.task.timeline document solo.schedule.now wake solo.member.reporter

/-- A solo whose member goes along the timeline of its task, watched by its supervisor. -/
structure Going (seconds last wake : Rat) (solo : Solo) : Prop where
  sound : solo.Sound
  poised : Poised seconds last wake solo.member solo.schedule
  armed : ∀ since, solo.member.supervision = .waiting since → solo.member.task.ending? = none →
    solo.schedule.ComesBy .idle (last + seconds)

namespace Going

variable {seconds last wake : Rat} {solo : Solo} {turn : Member.Turn}
  {schedule : Schedule Member.Turn}

/-- Unless the supervisor waits for a task that rests, a turn is ready. -/
theorem exists_mem_ready
    (going : solo.Going seconds last wake)
    (busy : solo.member.task.isReady = true ∨ solo.member.supervision.isReady = true ∨
      solo.member.task.ending? ≠ none) :
    ∃ turn, turn ∈ solo.schedule.ready := by
  have supervised : solo.member.supervision.isReady = true → ∃ turn, turn ∈ solo.schedule.ready :=
    fun ready => ⟨_, going.poised.mem_ready (going.sound.supervisor ready) (by simp)⟩
  rcases busy with ready | ready | ended
  · exact ⟨_, going.poised.mem_ready (going.sound.task ready) (by simp)⟩
  · exact supervised ready
  · obtain ⟨ending, known⟩ := Option.ne_none_iff_exists'.mp ended
    have task_eq := Member.Task.eq_ended_of_ending? known
    obtain ⟨since, counts, -⟩ := going.poised.since
    generalize same : solo.member.supervision = supervision at counts supervised
    cases counts with
    | fresh => exact supervised rfl
    | woken past => exact supervised rfl
    | waiting past =>
      exact ⟨_, going.poised.mem_ready (going.sound.notice since ending same task_eq) (by simp)⟩

/-- Time does not pass beyond the instant of a lapse. -/
theorem popped
    (going : solo.Going seconds last wake)
    (next : solo.schedule.next? = some (turn, schedule)) :
    Poised seconds last wake solo.member schedule := by
  obtain ⟨sound, poised, armed⟩ := going
  have passed := poised.isAhead.passed next
  have still : (∃ turn, turn ∈ solo.schedule.ready) → schedule.now = solo.schedule.now := by
    rintro ⟨ready, known⟩
    exact passed.now_eq_of_mem_ready known
  have busy := exists_mem_ready ⟨sound, poised, armed⟩
  obtain ⟨since, counts, last_eq⟩ := poised.since
  refine ⟨poised.isAhead.next? next, (Schedule.precision_of_next? next).trans poised.exact_eq,
    fun timer known => poised.timers timer (Schedule.mem_timers_of_next? next known),
    poised.running, poised.past.trans passed.now_le, ?_, ⟨since, ?_, last_eq⟩,
    fun asleep => ((poised.wakes asleep).next? poised.isAhead next).2⟩
  · have timely : schedule.now = solo.schedule.now → schedule.now ≤ last + seconds :=
      fun same => same.trans_le poised.timely
    generalize supervision : solo.member.supervision = supervision at counts
    cases counts with
    | fresh => exact timely (still (busy (.inr (.inl (by rw [supervision]; rfl)))))
    | woken past => exact timely (still (busy (.inr (.inl (by rw [supervision]; rfl)))))
    | waiting past =>
      cases task : solo.member.task.ending? with
      | some ending => exact timely (still (busy (.inr (.inr (by simp [task])))))
      | none => exact (armed since supervision task).now_le poised.isAhead next poised.timely
  · generalize supervision : solo.member.supervision = supervision at counts
    cases counts with
    | fresh =>
      rw [← still (busy (.inr (.inl (by rw [supervision]; rfl))))]
      exact .fresh
    | woken past => exact .woken (past.trans passed.now_le)
    | waiting past => exact .waiting (past.trans passed.now_le)

/-- What lies ahead does not change while time passes. -/
theorem timeline_eq
    (going : solo.Going seconds last wake)
    (next : solo.schedule.next? = some (turn, schedule))
    (document : Document) :
    solo.member.task.timeline document schedule.now wake solo.member.reporter =
      solo.future document wake := by
  have still : (∃ turn, turn ∈ solo.schedule.ready) → schedule.now = solo.schedule.now := by
    rintro ⟨ready, known⟩
    exact (going.poised.isAhead.passed next).now_eq_of_mem_ready known
  have busy := going.exists_mem_ready
  unfold future
  cases task : solo.member.task with
  | absent => rfl
  | fresh steps => rw [still (busy (.inl (by rw [task]; rfl)))]
  | rested step rest => rw [still (busy (.inl (by rw [task]; rfl)))]
  | resting step rest => cases step <;> rfl
  | ended ending => rw [still (busy (.inr (.inr (by simp [task, Task.ending?]))))]

end Going

/-- A solo whose member is done: it has reported what was heard of it, and the error if it lapsed. -/
structure Over
    (setting : Setting)
    (key : String × Int)
    (reports : List Diagnostic)
    (lapse? : Option Rat)
    (solo : Solo) : Prop where
  finished : solo.member.reporter.isFinished = true
  diagnostics_eq : solo.diagnostics =
    reports ++ (lapse?.map fun _ => idleError key setting.timeout?).toList
  past : ∀ deadline ∈ lapse?, deadline ≤ solo.schedule.now

/-- A solo of which certain reports are heard until it is done or until it lapses. -/
inductive Destined
    (setting : Setting)
    (seconds : Rat)
    (key : String × Int)
    (reports : List Diagnostic)
    (lapse? : Option Rat)
    (solo : Solo) : Prop where
  | going
      (last wake : Rat)
      (going : solo.Going seconds last wake)
      (key_eq : solo.member.key = key)
      (clear : (solo.future setting.document wake).IsClear seconds last)
      (reports_eq :
        solo.diagnostics ++ (solo.future setting.document wake).heard seconds last = reports)
      (lapse?_eq : (solo.future setting.document wake).lapse? seconds last = lapse?)
  | complete (complete : solo.Over setting key reports lapse?)

section

variable {setting : Setting} {seconds last wake : Rat} {key : String × Int}
  {reports : List Diagnostic} {lapse? : Option Rat} {solo : Solo} {turn : Member.Turn}
  {schedule : Schedule Member.Turn} {course : Member.Course}

theorem Over.follow
    (complete : solo.Over setting key reports lapse?)
    (conduct : solo.member.Conduct course)
    (ordered : solo.schedule.now ≤ schedule.now) :
    (({ solo with schedule := schedule } : Solo).follow course).Over setting key reports lapse? where
  finished := conduct.isFinished_of_isFinished complete.finished
  diagnostics_eq := by
    simp only [Solo.follow, conduct.delivered_eq_nil complete.finished, List.append_nil]
    exact complete.diagnostics_eq
  past := by
    intro deadline known
    rw [schedule_follow, now_foldl_obey]
    exact (complete.past deadline known).trans ordered

/-- A member that is done with what it does in a turn is heard in full. -/
theorem Over.of_done
    {diagnostics : List Diagnostic}
    (positive : 0 < seconds)
    (poised : Poised seconds last wake solo.member schedule)
    (future_eq : solo.future setting.document wake =
      (Timeline.done schedule.now).behind schedule.now diagnostics)
    (delivered_eq : Member.delivered course.effects = diagnostics)
    (finished : course.member.reporter.isFinished = true) :
    (({ solo with schedule := schedule } : Solo).follow course).Over setting key
      (solo.diagnostics ++ (solo.future setting.document wake).heard seconds last)
      ((solo.future setting.document wake).lapse? seconds last) := by
  have none : (solo.future setting.document wake).lapse? seconds last = none := by
    rw [future_eq, Timeline.lapse?_behind positive poised.timely]
    exact if_neg (Timeline.le_latest_add positive poised.timely).not_gt
  have all : (solo.future setting.document wake).heard seconds last = diagnostics := by
    rw [future_eq, Timeline.heard_behind positive poised.timely]
    exact List.append_nil _
  rw [none, all]
  refine ⟨finished, ?_, by simp⟩
  simp only [Solo.follow, delivered_eq, Option.map_none, Option.toList_none, List.append_nil]

/-- A turn that moves the supervisor or the watch, or wakes the task, delivers nothing and leaves what
lies ahead as it is. -/
theorem Destined.aside
    (poised : Poised seconds last wake course.member schedule)
    (sound : (({ solo with schedule := schedule } : Solo).follow course).Sound)
    (aside : ∀ effect ∈ course.turns, effect.IsAside)
    (key_eq : course.member.key = key)
    (future_eq : course.member.task.timeline setting.document schedule.now wake
      course.member.reporter = solo.future setting.document wake)
    (delivered_eq : Member.delivered course.effects = [])
    (clear : (solo.future setting.document wake).IsClear seconds last)
    (armed : ∀ since, course.member.supervision = .waiting since →
      course.member.task.ending? = none →
        (course.turns.foldl obey schedule).ComesBy .idle (last + seconds)) :
    (({ solo with schedule := schedule } : Solo).follow course).Destined setting seconds key
      (solo.diagnostics ++ (solo.future setting.document wake).heard seconds last)
      ((solo.future setting.document wake).lapse? seconds last) := by
  have schedule_eq : (({ solo with schedule := schedule } : Solo).follow course).schedule =
      course.turns.foldl obey schedule := schedule_follow _ course
  have future_eq : (({ solo with schedule := schedule } : Solo).follow course).future
      setting.document wake = solo.future setting.document wake := by
    rw [← future_eq, future, schedule_eq, now_foldl_obey]
    rfl
  refine .going last wake ⟨sound, ?_, ?_⟩ key_eq ?_ ?_ ?_
  · rw [schedule_eq]
    exact poised.foldl_obey aside
  · rw [schedule_eq]
    exact armed
  · rw [future_eq]
    exact clear
  · rw [future_eq]
    simp only [Solo.follow, delivered_eq, List.append_nil]
  · rw [future_eq]

end
end Solo
end Linting
end MarkupLint
