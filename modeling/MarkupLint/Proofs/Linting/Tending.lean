import MarkupLint.Proofs.Linting.Attendance
import MarkupLint.Proofs.Linting.Retiming

/-!
# The turns that are needed

A member that has ended is settled by its supervisor, and a run whose members are done comes to its
end.  Each of them needs a turn for that, and the turn is ready: what a turn takes away is not needed
any longer, or is made ready again.
-/

namespace MarkupLint
namespace Linting
namespace Member

theorem mem_turns {course : Course} {turn : Turn} :
    .soon turn ∈ course.turns ↔ .soon turn ∈ course.effects := by
  simp [Course.turns, Effect.isTurn]

/-- A member has ended when it is done or its task has ended. -/
def HasEnded (member : Member) : Prop :=
  member.reporter.isFinished = true ∨ member.task.ending?.isSome = true

instance (member : Member) : Decidable member.HasEnded :=
  inferInstanceAs (Decidable (_ ∨ _))

theorem touched_of_supervision
    {member : Member}
    (supervised : member.supervision ≠ .absent) :
    ¬member.Untouched := by
  rintro ⟨rule, index, script, rfl⟩
  exact supervised rfl

theorem HasEnded.touched {member : Member} (ended : member.HasEnded) : ¬member.Untouched := by
  rintro ⟨rule, index, script, rfl⟩
  rcases ended with finished | complete <;> contradiction

theorem upcomingSteps?_of_ended
    {member : Member}
    (ended : member.task.ending?.isSome = true) :
    member.upcomingSteps? = none := by
  cases task : member.task with
  | ended ending => simp only [upcomingSteps?, task]
  | _ =>
    rw [task] at ended
    contradiction

/-- An ended task stays so. -/
theorem ending?_take
    {member : Member}
    (ended : member.task.ending?.isSome = true)
    (setting : Setting)
    (now : Rat)
    (turn : Turn) :
    (member.take setting now turn).member.task = member.task := by
  have going : member.task.ending? ≠ none := Option.isSome_iff_ne_none.mp ended
  cases acted setting now member turn with
  | nothing member_eq => rw [member_eq]
  | ran steps watch woken isTask steps_eq =>
    rw [upcomingSteps?_of_ended ended] at steps_eq
    contradiction
  | awoke step rest isWake task_eq =>
    rw [task_eq] at ended
    contradiction
  | settled ending isSupervisor ready task_eq member_eq => rw [member_eq]
  | supervised isSupervisor fresh goesOn => exact absurd goesOn going
  | awaited since isSupervisor woken goesOn => exact absurd goesOn going
  | abandoned since isSupervisor woken goesOn => exact absurd goesOn going
  | expired since watch roused isSupervisor woken goesOn => exact absurd goesOn going
  | noticed since isNotice waiting member_eq => rw [member_eq]
  | watched isWatch ready member_eq => rw [member_eq]
  | armed isWatch fresh member_eq => rw [member_eq]

/-- A member that has ended stays so. -/
theorem HasEnded.take
    {member : Member}
    (ended : member.HasEnded)
    (setting : Setting)
    (now : Rat)
    (turn : Turn) :
    (member.take setting now turn).member.HasEnded := by
  refine ended.imp (fun finished => ?_) fun ended => ?_
  · exact (member.conduct_take setting now turn).isFinished_of_isFinished finished
  · rw [ending?_take ended]
    exact ended

/-- When the task has ended, the supervisor ends in its next turn. -/
theorem take_of_isReady
    {member : Member}
    (ended : member.task.ending?.isSome = true)
    (ready : member.supervision.isReady = true)
    (setting : Setting)
    (now : Rat)
    (turn : Turn) :
    turn = .supervisor ∧ (member.take setting now turn).member.supervision = .ended ∨
      turn ≠ .supervisor ∧
        (member.take setting now turn).member.supervision = member.supervision := by
  have going : member.task.ending? ≠ none := Option.isSome_iff_ne_none.mp ended
  cases acted setting now member turn with
  | nothing member_eq turns_eq delivered_eq task wake supervisor =>
    refine .inr ⟨fun isSupervisor => ?_, by rw [member_eq]⟩
    rw [supervisor isSupervisor] at ready
    contradiction
  | ran steps watch woken isTask steps_eq =>
    rw [upcomingSteps?_of_ended ended] at steps_eq
    contradiction
  | awoke step rest isWake known =>
    rw [known] at ended
    contradiction
  | settled ending isSupervisor isReady known member_eq =>
    rw [member_eq]
    exact .inl ⟨isSupervisor, rfl⟩
  | supervised isSupervisor fresh goesOn => exact absurd goesOn going
  | awaited since isSupervisor woken goesOn => exact absurd goesOn going
  | abandoned since isSupervisor woken goesOn => exact absurd goesOn going
  | expired since watch roused isSupervisor woken goesOn => exact absurd goesOn going
  | noticed since isNotice waiting =>
    rw [waiting] at ready
    contradiction
  | watched isWatch isReady member_eq => exact .inr ⟨by simp [isWatch], by rw [member_eq]⟩
  | armed isWatch fresh member_eq => exact .inr ⟨by simp [isWatch], by rw [member_eq]⟩

/-- When the task has ended, the supervisor is woken in the turn that tells so, or before. -/
theorem take_of_waiting
    {member : Member}
    {since : Rat}
    (ended : member.task.ending?.isSome = true)
    (waiting : member.supervision = .waiting since)
    (setting : Setting)
    (now : Rat)
    (turn : Turn) :
    (member.take setting now turn).member.supervision = .woken since ∨
      turn ≠ .notice ∧ (member.take setting now turn).member.supervision = .waiting since := by
  have unready : member.supervision.isReady = false := by rw [waiting]; rfl
  cases acted setting now member turn with
  | nothing member_eq turns_eq delivered_eq task wake supervisor notice =>
    rw [member_eq]
    exact .inr ⟨fun isNotice => notice (.inr isNotice) since waiting, waiting⟩
  | ran steps watch woken isTask steps_eq =>
    rw [upcomingSteps?_of_ended ended] at steps_eq
    contradiction
  | awoke step rest isWake known =>
    rw [known] at ended
    contradiction
  | settled ending isSupervisor ready =>
    rw [unready] at ready
    contradiction
  | supervised isSupervisor fresh =>
    rw [waiting] at fresh
    contradiction
  | awaited other isSupervisor woken =>
    rw [waiting] at woken
    contradiction
  | abandoned other isSupervisor woken =>
    rw [waiting] at woken
    contradiction
  | expired other watch roused isSupervisor woken =>
    rw [waiting] at woken
    contradiction
  | noticed other isNotice known member_eq =>
    rw [waiting] at known
    cases known
    rw [member_eq]
    exact .inl rfl
  | watched isWatch ready member_eq =>
    rw [member_eq]
    exact .inr ⟨by simp [isWatch], waiting⟩
  | armed isWatch fresh member_eq =>
    rw [member_eq]
    exact .inr ⟨by simp [isWatch], waiting⟩

/-- A supervisor that is not there or has ended moves no more, and leaves the task to itself or not. -/
theorem take_of_rests
    {member : Member}
    (rests : member.supervision = .absent ∨ member.supervision = .ended)
    (setting : Setting)
    (now : Rat)
    (turn : Turn) :
    (member.take setting now turn).member.supervision = member.supervision ∧
      (member.take setting now turn).member.isLate = member.isLate := by
  have unready : member.supervision.isReady = false := by
    rcases rests with same | same <;> rw [same] <;> rfl
  have unheard : member.supervision.isListening = false := by
    rcases rests with same | same <;> rw [same] <;> rfl
  cases acted setting now member turn with
  | nothing member_eq => rw [member_eq]; exact ⟨rfl, rfl⟩
  | ran steps watch woken isTask steps_eq rouses member_eq => rw [member_eq]; exact ⟨rfl, rfl⟩
  | awoke step rest isWake task_eq member_eq => rw [member_eq]; exact ⟨rfl, rfl⟩
  | settled ending isSupervisor ready => simp [unready] at ready
  | supervised isSupervisor fresh => simp [fresh, Supervision.isReady] at unready
  | awaited since isSupervisor woken => simp [woken, Supervision.isReady] at unready
  | abandoned since isSupervisor woken => simp [woken, Supervision.isReady] at unready
  | expired since watch roused isSupervisor woken => simp [woken, Supervision.isReady] at unready
  | noticed since isNotice waiting => simp [waiting, Supervision.isListening] at unheard
  | watched isWatch ready member_eq => rw [member_eq]; exact ⟨rfl, rfl⟩
  | armed isWatch fresh member_eq => rw [member_eq]; exact ⟨rfl, rfl⟩

/-- The turns that the supervisor of a member needs are ready. -/
structure Supervised (isReady : Turn → Prop) (member : Member) : Prop where
  due : member.supervision.isReady = true → isReady .supervisor
  noticed : ∀ since, member.supervision = .waiting since →
    member.task.ending?.isSome = true → isReady .notice
  ended : member.supervision = .ended → member.reporter.isFinished = true
  late : member.isLate = true → member.supervision = .ended
  absent : member.supervision = .absent → member.task = .absent

namespace Supervised

variable {isReady : Turn → Prop} {member : Member}

theorem mono
    {others : Turn → Prop}
    (supervised : Supervised isReady member)
    (more : ∀ turn, isReady turn → others turn) :
    Supervised others member where
  due ready := more _ (supervised.due ready)
  noticed since waiting ended := more _ (supervised.noticed since waiting ended)
  ended := supervised.ended
  late := supervised.late
  absent := supervised.absent

theorem of_untouched (untouched : member.Untouched) : Supervised isReady member := by
  obtain ⟨rule, index, script, rfl⟩ := untouched
  constructor <;> simp [Member.new, Supervision.isReady]

/-- A supervisor that has ended with its member needs no turn. -/
theorem of_ended
    (ended : member.supervision = .ended)
    (finished : member.reporter.isFinished = true) :
    Supervised isReady member := by
  constructor <;> simp [ended, finished, Supervision.isReady]

/-- A supervisor that waits for a task that goes on needs no turn. -/
theorem of_waiting
    {since : Rat}
    (waiting : member.supervision = .waiting since)
    (goesOn : member.task.ending? = none)
    (timely : member.isLate ≠ true) :
    Supervised isReady member := by
  constructor <;> simp [waiting, goesOn, timely, Supervision.isReady]

/-- The watch is of no account for the supervisor. -/
theorem besideWatch
    {others : Turn → Prop}
    (supervised : Supervised isReady member)
    (watch : Watch)
    (more : ∀ turn, turn ≠ .watch → isReady turn → others turn) :
    Supervised others { member with watch := watch } where
  due ready := more _ (by simp) (supervised.due ready)
  noticed since waiting ended := more _ (by simp) (supervised.noticed since waiting ended)
  ended := supervised.ended
  late := supervised.late
  absent := supervised.absent

/-- A stretch of steps at the end of the task tells the supervisor. -/
theorem ran
    {setting : Setting}
    {now : Rat}
    {after : Course}
    {steps : List Step}
    {watch : Watch}
    {woken : List Effect}
    (supervised : Supervised isReady member)
    (conduct : member.Conduct after)
    (steps_eq : member.upcomingSteps? = some steps)
    (member_eq : after.member = { member.afterStretch
      (Stretch.run setting.document now (.start member.reporter) steps) with watch := watch })
    (turns_eq : after.turns = woken ++ member.turnsBehind
      (Stretch.run setting.document now (.start member.reporter) steps).task) :
    Supervised (fun other => other ≠ .task ∧ isReady other ∨ .soon other ∈ after.effects)
      after.member := by
  have supervision_eq : after.member.supervision = member.supervision := by rw [member_eq]; rfl
  have isLate_eq : after.member.isLate = member.isLate := by rw [member_eq]; rfl
  refine ⟨fun ready => .inl ⟨by simp, ?_⟩, fun since waiting ended => .inr ?_, fun ended => ?_,
    fun late => ?_, fun absent => ?_⟩
  · rw [supervision_eq] at ready
    exact supervised.due ready
  · rw [supervision_eq] at waiting
    have timely : member.isLate ≠ true := by
      intro late
      rw [supervised.late late] at waiting
      contradiction
    obtain ⟨ending, ended⟩ := Option.isSome_iff_exists.mp ended
    have behind := Task.eq_ended_of_ending? ended
    rw [member_eq] at behind
    rw [← mem_turns, turns_eq]
    simp only [afterStretch] at behind
    simp [turnsBehind, behind, timely, waiting, Supervision.isListening]
  · rw [supervision_eq] at ended
    exact conduct.isFinished_of_isFinished (supervised.ended ended)
  · rw [isLate_eq] at late
    exact supervision_eq.trans (supervised.late late)
  · rw [supervision_eq] at absent
    simp only [upcomingSteps?, supervised.absent absent] at steps_eq
    contradiction

/-- In each turn, the member sees to the turns that its supervisor needs. -/
theorem take
    (supervised : Supervised isReady member)
    (setting : Setting)
    (now : Rat)
    (turn : Turn) :
    Supervised
      (fun other => other ≠ turn ∧ isReady other ∨
        .soon other ∈ (member.take setting now turn).effects)
      (member.take setting now turn).member := by
  have conduct := member.conduct_take setting now turn
  have acts := acted setting now member turn
  generalize member.take setting now turn = after at conduct acts
  cases acts with
  | nothing member_eq turns_eq delivered_eq task wake supervisor notice =>
    rw [member_eq]
    refine ⟨fun ready => .inl ⟨?_, supervised.due ready⟩, fun since waiting ended =>
      .inl ⟨?_, supervised.noticed since waiting ended⟩, supervised.ended, supervised.late,
      supervised.absent⟩
    · rintro rfl
      rw [supervisor rfl] at ready
      contradiction
    · rintro rfl
      exact notice (.inr rfl) since waiting
  | ran steps watch woken isTask steps_eq rouses member_eq turns_eq =>
    subst isTask
    exact supervised.ran conduct steps_eq member_eq turns_eq
  | awoke step rest isWake task_eq member_eq turns_eq =>
    subst isWake
    rw [member_eq]
    refine ⟨fun ready => .inl ⟨by simp, supervised.due ready⟩, by simp [Task.ending?], supervised.ended,
      supervised.late, fun absent => ?_⟩
    rw [supervised.absent absent] at task_eq
    contradiction
  | settled ending isSupervisor ready task_eq member_eq =>
    rw [member_eq]
    exact of_ended rfl (Performance.isFinished_settle rfl now)
  | supervised isSupervisor fresh goesOn member_eq =>
    rw [member_eq]
    refine of_waiting rfl goesOn fun late => ?_
    rw [supervised.late late] at fresh
    contradiction
  | awaited since isSupervisor woken goesOn running timely member_eq =>
    rw [member_eq]
    refine of_waiting rfl goesOn fun late => ?_
    rw [supervised.late late] at woken
    contradiction
  | abandoned since isSupervisor woken goesOn finished member_eq =>
    rw [member_eq]
    exact of_ended rfl finished
  | expired since watch roused isSupervisor woken goesOn running tardy rouses member_eq =>
    rw [member_eq]
    exact of_ended rfl (Reporter.isFinished_finish _)
  | noticed since isNotice waiting member_eq turns_eq =>
    refine ⟨fun _ => .inr ?_, ?_, ?_, fun late => ?_, ?_⟩
    · rw [← mem_turns, turns_eq]
      simp
    · simp [member_eq]
    · simp [member_eq]
    · rw [member_eq] at late
      rw [supervised.late late] at waiting
      contradiction
    · simp [member_eq]
  | watched isWatch ready member_eq turns_eq =>
    subst isWatch
    rw [member_eq]
    exact supervised.besideWatch .ended fun other differs known => .inl ⟨differs, known⟩
  | armed isWatch fresh member_eq turns_eq =>
    subst isWatch
    rw [member_eq]
    exact supervised.besideWatch .waiting fun other differs known => .inl ⟨differs, known⟩

/-- A member that is invoked sees to the turns that its supervisor needs. -/
theorem invoke
    (untouched : member.Untouched)
    (setting : Setting)
    (now : Rat) :
    Supervised (fun turn => .soon turn ∈ (member.invoke setting now).1.effects)
      (member.invoke setting now).1.member := by
  obtain ⟨rule, index, script, rfl⟩ := untouched
  have entered := @Member.entered (.new rule index script) Watch.noConfusion setting now
  generalize ((Member.new rule index script).invoke setting now).1 = after at entered
  cases entered with
  | launched performed steps performed_eq goesOn awaits member_eq turns_eq delivered_eq =>
    refine ⟨fun _ => ?_, ?_, ?_, ?_, ?_⟩
    · rw [← mem_turns, turns_eq]
      simp
    all_goals simp [member_eq, Member.new]
  | spent performed performed_eq member_eq turns_eq delivered_eq =>
    constructor <;> simp [member_eq, Member.new, Supervision.isReady]

end Supervised

/-- Having the effects of the reporter wakes the watch if the reporter becomes done. -/
theorem Course.watch_absorbAll (course : Course) (effects : List Reporter.Effect) :
    (course.absorbAll effects).member.watch =
      if .finished ∈ effects ∧ course.member.watch = .waiting then .woken
      else course.member.watch := by
  induction effects generalizing course with
  | nil => simp [absorbAll]
  | cons effect rest ih =>
    have others := ih (course.absorb effect)
    simp only [absorbAll, List.foldl_cons] at others ⊢
    rw [others]
    cases effect with
    | finished =>
      simp only [absorb, wakeWatch]
      split <;> simp_all
    | _ => by_cases later : .finished ∈ rest <;> simp [absorb, later]

/-- Awaited steps wake the watch if they let the reporter be done. -/
theorem watch_rest (member : Member) (stretch : Stretch) :
    (member.rest stretch).member.watch =
      if .finished ∈ stretch.effects ∧ member.watch = .waiting then .woken else member.watch := by
  have absorbed := (Course.start (member.afterStretch stretch)).watch_absorbAll stretch.effects
  simp only [rest]
  split
  · exact absorbed
  · exact absorbed
  · split
    · exact absorbed
    · split <;> exact absorbed
  · exact absorbed

/-- The turns that the watch on the reporter of a member needs are ready, and the supervisor is to be
told that the reporter is done when the watch has ended. -/
structure Alert (isReady : Turn → Prop) (member : Member) : Prop where
  watches : member.watch = .fresh ∨ member.watch = .woken → isReady .watch
  told : ∀ since, member.supervision = .waiting since → member.watch = .ended → isReady .notice
  quiet : member.watch = .waiting → member.reporter.isFinished = false
  spent : member.watch = .woken ∨ member.watch = .ended → member.reporter.isFinished = true
  present : member.supervision.isListening = true → member.watch ≠ .absent

namespace Alert

variable {isReady : Turn → Prop} {member : Member}

theorem mono
    {others : Turn → Prop}
    (alert : Alert isReady member)
    (more : ∀ turn, isReady turn → others turn) :
    Alert others member where
  watches due := more _ (alert.watches due)
  told since waiting ended := more _ (alert.told since waiting ended)
  quiet := alert.quiet
  spent := alert.spent
  present := alert.present

/-- As long as nobody listens, no watch is needed. -/
theorem of_absent
    (unwatched : member.watch = .absent)
    (deaf : member.supervision.isListening = false) :
    Alert isReady member := by
  constructor <;> simp [unwatched, deaf]

theorem of_untouched (untouched : member.Untouched) : Alert isReady member := by
  obtain ⟨rule, index, script, rfl⟩ := untouched
  exact of_absent rfl rfl

/-- In its own turn, the watch ends and lets the supervisor be told, or waits. -/
theorem watchReporter (alert : Alert isReady member) :
    Alert
      (fun other => other ≠ .watch ∧ isReady other ∨ .soon other ∈ member.watchReporter.effects)
      member.watchReporter.member := by
  simp only [Member.watchReporter]
  split
  · next isOver =>
    have finished : member.reporter.isFinished = true := by
      simp only [Bool.or_eq_true, Bool.and_eq_true, decide_eq_true_eq] at isOver
      exact isOver.elim (·.2) fun woken => alert.spent (.inl woken)
    refine ⟨by simp, fun since waiting ended => .inr ?_, by simp, fun _ => finished, by simp⟩
    simp
  · next goesOn =>
    simp only [Bool.or_eq_true, Bool.and_eq_true, decide_eq_true_eq, not_or, not_and,
      Bool.not_eq_true] at goesOn
    split
    · next fresh =>
      exact ⟨by simp, by simp, fun _ => goesOn.1 fresh, by simp, by simp⟩
    · next old =>
      refine ⟨fun due => ?_, fun since waiting ended => .inl ⟨by simp, ?_⟩, alert.quiet, alert.spent,
        alert.present⟩
      · exact absurd due (not_or.mpr ⟨old, goesOn.2⟩)
      · exact alert.told since waiting ended

/-- When a member has ended with its watch, no turn is needed. -/
theorem of_ended
    (unwatched : member.watch = .ended)
    (ended : member.supervision = .ended)
    (finished : member.reporter.isFinished = true) :
    Alert isReady member := by
  constructor <;> simp [unwatched, ended, finished, Supervision.isListening]

/-- A stretch of steps wakes the watch if the reporter becomes done in it. -/
theorem ran
    {setting : Setting}
    {now : Rat}
    {steps : List Step}
    {watch : Watch}
    {woken : List Effect}
    (alert : Alert isReady member)
    (steps_eq : member.upcomingSteps? = some steps)
    (rouses : Course.Rouses member.watch watch woken)
    (member_eq : (member.take setting now .task).member = { member.afterStretch
      (Stretch.run setting.document now (.start member.reporter) steps) with watch := watch })
    (turns_eq : (member.take setting now .task).turns = woken ++ member.turnsBehind
      (Stretch.run setting.document now (.start member.reporter) steps).task) :
    Alert
      (fun other => other ≠ .task ∧ isReady other ∨
        .soon other ∈ (member.take setting now .task).effects)
      (member.take setting now .task).member := by
  obtain ⟨uses, uses_eq, used⟩ :=
    Stretch.exists_effects_run setting.document now (.start member.reporter) steps
  rw [Performance.start, List.nil_append] at uses_eq
  have finishes := used.conduct.isFinished_iff
  have supervision_eq :
      (member.take setting now .task).member.supervision = member.supervision := by
    rw [member_eq]
    rfl
  have reporter_eq : (member.take setting now .task).member.reporter =
      (Stretch.run setting.document now (.start member.reporter) steps).reporter := by
    rw [member_eq]
    rfl
  have watch_eq : (member.take setting now .task).member.watch =
      if .finished ∈ uses ∧ member.watch = .waiting then .woken else member.watch := by
    simp only [Member.take, runTask, steps_eq, watch_rest, Performance.start, uses_eq]
  have moves : (member.take setting now .task).member.watch = watch := by rw [member_eq]
  constructor
  case watches =>
    intro due
    rw [moves] at due
    cases rouses with
    | still same => exact .inl ⟨by simp, alert.watches (same ▸ due)⟩
    | roused waiting same woken_eq =>
      refine .inr (mem_turns.mp ?_)
      rw [turns_eq, woken_eq]
      simp
  case told =>
    intro since waiting ended
    rw [moves] at ended
    rw [supervision_eq] at waiting
    cases rouses with
    | still same => exact .inl ⟨by simp, alert.told since waiting (same ▸ ended)⟩
    | roused early same => simp [same] at ended
  case quiet =>
    intro waiting
    rw [watch_eq] at waiting
    split at waiting
    · contradiction
    · next still =>
      rw [reporter_eq, ← Bool.not_eq_true, finishes, not_or]
      refine ⟨?_, fun finished => still ⟨finished, waiting⟩⟩
      simpa [Performance.start] using alert.quiet waiting
  case spent =>
    intro spent
    rw [reporter_eq, finishes]
    rw [watch_eq] at spent
    split at spent
    · next finished => exact .inr finished.1
    · exact .inl (alert.spent spent)
  case present =>
    intro listening
    rw [supervision_eq] at listening
    rw [moves]
    cases rouses with
    | still same => exact same ▸ alert.present listening
    | roused waiting same => simp [same]

/-- In each turn, the member sees to the turns that the watch needs. -/
theorem take
    (alert : Alert isReady member)
    (setting : Setting)
    (now : Rat)
    (turn : Turn) :
    Alert
      (fun other => other ≠ turn ∧ isReady other ∨
        .soon other ∈ (member.take setting now turn).effects)
      (member.take setting now turn).member := by
  by_cases own : turn = .watch
  · subst own
    exact alert.watchReporter
  have acts := acted setting now member turn
  cases acts with
  | nothing member_eq turns_eq delivered_eq task wake supervisor notice =>
    rw [member_eq]
    refine ⟨fun due => .inl ⟨Ne.symm own, alert.watches due⟩, fun since waiting ended =>
      .inl ⟨?_, alert.told since waiting ended⟩, alert.quiet, alert.spent, alert.present⟩
    rintro rfl
    exact notice (.inr rfl) since waiting
  | ran steps watch woken isTask steps_eq rouses member_eq turns_eq =>
    subst isTask
    exact alert.ran steps_eq rouses member_eq turns_eq
  | awoke step rest isWake task_eq member_eq turns_eq =>
    subst isWake
    rw [member_eq]
    exact ⟨fun due => .inl ⟨by simp, alert.watches due⟩, fun since waiting ended =>
      .inl ⟨by simp, alert.told since waiting ended⟩, alert.quiet, alert.spent, alert.present⟩
  | settled ending isSupervisor ready task_eq member_eq =>
    rw [member_eq]
    exact of_ended rfl rfl (Performance.isFinished_settle rfl now)
  | supervised isSupervisor fresh goesOn member_eq turns_eq =>
    rw [member_eq]
    refine ⟨fun _ => .inr ?_, by simp, by simp, by simp, by simp⟩
    rw [← mem_turns, turns_eq]
    simp
  | awaited since isSupervisor woken goesOn running timely member_eq =>
    subst isSupervisor
    rw [member_eq]
    refine ⟨fun due => .inl ⟨by simp, alert.watches due⟩, fun since waiting ended => ?_, alert.quiet,
      alert.spent, fun _ => alert.present (by rw [woken]; rfl)⟩
    rw [alert.spent (.inr ended)] at running
    contradiction
  | abandoned since isSupervisor woken goesOn finished member_eq =>
    rw [member_eq]
    exact of_ended rfl rfl finished
  | expired since watch roused isSupervisor woken goesOn running tardy rouses member_eq =>
    rw [member_eq]
    exact of_ended rfl rfl (Reporter.isFinished_finish _)
  | noticed since isNotice waiting member_eq turns_eq =>
    rw [member_eq]
    exact ⟨fun due => .inl ⟨Ne.symm own, alert.watches due⟩, by simp, alert.quiet, alert.spent,
      fun _ => alert.present (by rw [waiting]; rfl)⟩
  | watched isWatch => exact absurd isWatch own
  | armed isWatch => exact absurd isWatch own

/-- A member that is invoked has no watch yet. -/
theorem invoke
    (untouched : member.Untouched)
    (setting : Setting)
    (now : Rat) :
    Alert isReady (member.invoke setting now).1.member := by
  obtain ⟨rule, index, script, rfl⟩ := untouched
  have entered := @Member.entered (.new rule index script) Watch.noConfusion setting now
  generalize ((Member.new rule index script).invoke setting now).1 = after at entered
  cases entered with
  | launched performed steps performed_eq goesOn awaits member_eq =>
    rw [member_eq]
    exact of_absent rfl rfl
  | spent performed performed_eq member_eq =>
    rw [member_eq]
    exact of_absent rfl rfl

end Alert

/-- The turns that a member needs are ready. -/
structure Tended (isReady : Turn → Prop) (member : Member) : Prop
    extends Supervised isReady member, Alert isReady member

namespace Tended

variable {isReady : Turn → Prop} {member : Member}

theorem mono
    {others : Turn → Prop}
    (tended : Tended isReady member)
    (more : ∀ turn, isReady turn → others turn) :
    Tended others member :=
  ⟨tended.toSupervised.mono more, tended.toAlert.mono more⟩

theorem of_untouched (untouched : member.Untouched) : Tended isReady member :=
  ⟨.of_untouched untouched, .of_untouched untouched⟩

/-- In each turn, the member sees to the turns that it needs. -/
theorem take
    (tended : Tended isReady member)
    (setting : Setting)
    (now : Rat)
    (turn : Turn) :
    Tended
      (fun other => other ≠ turn ∧ isReady other ∨
        .soon other ∈ (member.take setting now turn).effects)
      (member.take setting now turn).member :=
  ⟨tended.toSupervised.take setting now turn, tended.toAlert.take setting now turn⟩

/-- A member that is invoked sees to the turns that it needs. -/
theorem invoke
    (untouched : member.Untouched)
    (setting : Setting)
    (now : Rat) :
    Tended (fun turn => .soon turn ∈ (member.invoke setting now).1.effects)
      (member.invoke setting now).1.member :=
  ⟨.invoke untouched setting now, .invoke untouched setting now⟩

/-- As long as the supervisor waits for the task, and the reporter is done, a turn is ready. -/
theorem exists_isReady
    (tended : Tended isReady member)
    (finished : member.reporter.isFinished = true)
    (present : member.supervision ≠ .absent)
    (unsettled : member.supervision ≠ .ended) :
    ∃ turn, isReady turn := by
  cases supervision : member.supervision with
  | absent => exact absurd supervision present
  | ended => exact absurd supervision unsettled
  | fresh => exact ⟨_, tended.due (by rw [supervision]; rfl)⟩
  | woken since => exact ⟨_, tended.due (by rw [supervision]; rfl)⟩
  | waiting since =>
    cases watch : member.watch with
    | absent => exact absurd watch (tended.present (by rw [supervision]; rfl))
    | fresh => exact ⟨_, tended.watches (.inl watch)⟩
    | woken => exact ⟨_, tended.watches (.inr watch)⟩
    | ended => exact ⟨_, tended.told since supervision watch⟩
    | waiting =>
      rw [tended.quiet watch] at finished
      contradiction

end Tended
end Member

theorem Effect.eq_soon_of_member?
    {effect : Effect}
    {index : Nat}
    {turn : Member.Turn}
    (known : effect.member? = some (index, .soon turn)) :
    effect = .soon (.member index turn) := by
  unfold Effect.member? at known
  split at known <;> simp_all

/-- Following a member makes the turns ready that the member makes ready. -/
theorem Progress.soon_follow
    {progress : Progress}
    {index : Nat}
    {course : Member.Course} :
    (∀ turn, .soon turn ∈ progress.effects → .soon turn ∈ (progress.follow index course).effects) ∧
      ∀ turn, .soon turn ∈ course.effects →
        .soon (.member index turn) ∈ (progress.follow index course).effects := by
  obtain ⟨extra, effects_eq, own_eq, -, -⟩ := progress.exists_effects_follow index course
  rw [effects_eq]
  refine ⟨fun turn known => List.mem_append_left _ known, fun turn known => ?_⟩
  have passed : (index, .soon turn) ∈ extra.filterMap Effect.member? := by
    rw [own_eq]
    exact List.mem_map_of_mem (List.mem_filter.mpr ⟨known, rfl⟩)
  obtain ⟨effect, held, same⟩ := List.mem_filterMap.mp passed
  rw [Effect.eq_soon_of_member? same] at held
  exact List.mem_append_right _ held

/-- The turns that a linting and its members need are ready. -/
structure Tended (isReady : Turn → Prop) (linting : Linting) : Prop where
  run : linting.phase = .scheduled ∨ linting.phase = .settled → isReady .run
  member : ∀ (index : Nat) (member : Member), linting.members[index]? = some member →
    member.Tended fun turn => isReady (.member index turn)

namespace Tended

variable {isReady : Turn → Prop} {linting : Linting}

theorem mono
    {others : Turn → Prop}
    (tended : Tended isReady linting)
    (more : ∀ turn, isReady turn → others turn) :
    Tended others linting where
  run phase := more _ (tended.run phase)
  member index member known := (tended.member index member known).mono fun _ => more _

/-- A member that is invoked sees to the turns that it needs, and the others have theirs. -/
theorem invoke
    {progress : Progress}
    {index : Nat}
    (tended : ∀ (index : Nat) (member : Member), progress.linting.members[index]? = some member →
      member.Tended fun turn => .soon (.member index turn) ∈ progress.effects)
    (untouched : ∀ member, progress.linting.members[index]? = some member → member.Untouched)
    (now : Rat) :
    ∀ (other : Nat) (member : Member),
      (progress.invoke index now).1.linting.members[other]? = some member →
        member.Tended fun turn => .soon (.member other turn) ∈
          (progress.invoke index now).1.effects := by
  cases progress.invoked index now with
  | nobody unknown same =>
    rw [same]
    exact tended
  | member member record known same =>
    have followed := @Progress.followed_follow (progress.emit (.invoked index record)) index
      member _ known (member.conduct_invoke progress.linting.toSetting now)
    obtain ⟨kept, own⟩ := @Progress.soon_follow (progress.emit (.invoked index record)) index
      (member.invoke progress.linting.toSetting now).1
    intro other another found
    rw [same, followed.members_eq, List.getElem?_set] at found
    rw [same]
    split at found
    · next here =>
      subst here
      split at found
      · cases found
        exact (Member.Tended.invoke (untouched member known) _ _).mono own
      · contradiction
    · exact (tended other another found).mono fun turn early =>
        kept _ (List.mem_append_left _ early)

/-- Members that are invoked one after another see to the turns that they need. -/
theorem invokeAll
    {progress : Progress}
    {indices : List Nat}
    (tended : ∀ (index : Nat) (member : Member), progress.linting.members[index]? = some member →
      member.Tended fun turn => .soon (.member index turn) ∈ progress.effects)
    (once : indices.Nodup)
    (untouched : ∀ index ∈ indices, ∀ member, progress.linting.members[index]? = some member →
      member.Untouched)
    (now : Rat) :
    ∀ (index : Nat) (member : Member),
      (progress.invokeAll now indices).1.linting.members[index]? = some member →
        member.Tended fun turn => .soon (.member index turn) ∈
          (progress.invokeAll now indices).1.effects := by
  induction indices generalizing progress with
  | nil => exact tended
  | cons first rest ih =>
    rw [List.nodup_cons] at once
    have invoked := invoke tended (untouched first List.mem_cons_self) now
    simp only [Progress.invokeAll]
    split
    · refine ih invoked once.2 fun index later member found => ?_
      rw [Entering.members_invoke_of_mem once.1 later] at found
      exact untouched index (List.mem_cons_of_mem _ later) member found
    · exact invoked

/-- When the run begins, the members see to the turns that they need. -/
theorem begin
    (balanced : Balanced linting)
    (scheduled : linting.phase = .scheduled)
    (now : Rat)
    (index : Nat)
    (member : Member)
    (known : ((Progress.start linting).begin now).linting.members[index]? = some member) :
    member.Tended fun turn =>
      .soon (.member index turn) ∈ ((Progress.start linting).begin now).effects := by
  have untouched := balanced.untouched (by rw [scheduled]; rfl)
  have invoked := @invokeAll (Progress.start linting).enter (List.range linting.members.length)
    (fun index member found => .of_untouched (untouched member (List.mem_of_getElem? found)))
    List.nodup_range
    (fun index _ member found => untouched member (List.mem_of_getElem? found)) now
  change ∀ (index : Nat) (member : Member),
    ((Progress.start linting).invokeEvery now).1.linting.members[index]? = some member →
      member.Tended fun turn => .soon (.member index turn) ∈
        ((Progress.start linting).invokeEvery now).1.effects at invoked
  cases (Progress.start linting).begun now with
  | stopped failure stops same =>
    rw [same] at known ⊢
    exact (invoked index member known).mono fun turn early => List.mem_append_left _ early
  | waiting goesOn some same =>
    rw [same] at known ⊢
    exact invoked index member known
  | finished goesOn none same =>
    obtain ⟨extra, effects_eq, -⟩ :=
      Progress.exists_effects_finish ((Progress.start linting).invokeEvery now).1
    rw [same, Progress.linting_finish] at known
    rw [same, effects_eq, List.append_assoc]
    exact (invoked index member known).mono fun turn early => List.mem_append_left _ early

/-- In each turn, a linting and its members see to the turns that they need. -/
theorem take
    (tended : Tended isReady linting)
    (balanced : Balanced linting)
    (now : Rat)
    (turn : Turn) :
    Tended
      (fun other => other ≠ turn ∧ isReady other ∨
        .soon other ∈ (linting.take now turn).effects)
      (linting.take now turn).linting where
  run := by
    have punctual := Punctual.take linting now turn
    rintro (scheduled | settled)
    · obtain ⟨before, different⟩ := punctual.scheduled scheduled
      exact .inl ⟨different.symm, tended.run (.inl before)⟩
    · exact (punctual.settled settled).imp_left fun ⟨before, different⟩ =>
        ⟨different.symm, tended.run (.inr before)⟩
  member := by
    intro index member known
    cases taken linting now turn with
    | nothing idle nobody same =>
      rw [same, Progress.linting_start] at known
      refine (tended.member index member known).mono fun own ready => .inl ⟨?_, ready⟩
      rintro rfl
      rw [nobody index own rfl] at known
      contradiction
    | begin isRun scheduled same =>
      rw [same] at known ⊢
      exact (Tended.begin balanced scheduled now index member known).mono fun own soon => .inr soon
    | finish isRun settled same =>
      rw [same, Progress.linting_finish] at known
      refine (tended.member index member known).mono fun own ready => .inl ⟨?_, ready⟩
      simp [isRun]
    | member other own actor isMember found same =>
      have followed := @Progress.followed_follow (.start linting) other actor _ found
        (actor.conduct_take linting.toSetting now own)
      have passed := (@Progress.soon_follow (.start linting) other
        (actor.take linting.toSetting now own)).2
      subst isMember
      rw [same, followed.members_eq, List.getElem?_set] at known
      rw [same]
      split at known
      · next here =>
        subst here
        split at known
        · cases known
          refine ((tended.member other actor found).take linting.toSetting now own).mono ?_
          rintro next (⟨different, ready⟩ | soon)
          · exact .inl ⟨by simpa using different, ready⟩
          · exact .inr (passed next soon)
        · contradiction
      · next elsewhere =>
        exact (tended.member index member known).mono fun next ready =>
          .inl ⟨by simp [Ne.symm elsewhere], ready⟩

/-- Before a run is started, no turn is needed. -/
theorem of_unstarted
    (balanced : Balanced linting)
    (unstarted : linting.phase = .unstarted) :
    Tended isReady linting where
  run := by simp [unstarted]
  member index member known :=
    .of_untouched (balanced.untouched (by rw [unstarted]; rfl) member (List.mem_of_getElem? known))

end Tended
end Linting
end MarkupLint
