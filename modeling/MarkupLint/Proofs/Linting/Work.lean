import MarkupLint.Proofs.Linting.Configured
import MarkupLint.Proofs.Linting.Retiming
import Mathlib.Algebra.Order.BigOperators.Group.List
import Mathlib.Algebra.Order.Group.Nat
import Mathlib.Algebra.Ring.Nat

/-!
# The work that is left

When instances may be idle as long as they like, every turn takes some of the work that is left of a
linting: the turns that it leads to come at the expense of steps, rests, supervisors and watches that
are behind it.
-/

namespace MarkupLint
namespace Linting

/-- The work of a turn of a member, with that of the turns that it leads to. -/
def Member.Turn.work : Member.Turn → Nat
  | wake => 2
  | idle => 3
  | notice => 5
  | _ => 1

/-- The work that an effect of a turn of a member brings. -/
def Member.Effect.work : Member.Effect → Nat
  | soon turn => turn.work
  | after _ turn => turn.work
  | _ => 0

/-- The work of steps that have not begun: each of them may be followed by a rest, and by what
follows when it is cancelled there. -/
def stepsWork (steps : List Step) : Nat := 12 * (2 + stepsCost steps)

/-- The work that is left of a task. -/
def Task.work (script : Script) : Task → Nat
  | absent => stepsWork (script.awaited?.getD []) + 16
  | fresh steps => stepsWork steps
  | resting step rest => 12 * (1 + stepCost step + stepsCost rest)
  | rested step rest => 12 * (1 + stepCost step + stepsCost rest)
  | ended _ => 0

/-- The work that is left of a supervisor. -/
def Supervision.work : Supervision → Nat
  | fresh => 14
  | woken _ => 1
  | _ => 0

/-- The work that is left of a watch. -/
def Watch.work : Watch → Nat
  | fresh => 6
  | waiting => 6
  | woken => 5
  | _ => 0

namespace Member

/-- The work that is left of a member. -/
def work (member : Member) : Nat :=
  member.task.work member.script + member.supervision.work + member.watch.work

/-- The work that a turn brings. -/
def Course.work (course : Course) : Nat := (course.turns.map Effect.work).sum

theorem Turn.work_pos (turn : Turn) : 0 < turn.work := by cases turn <;> simp [work]

theorem work_turnsBehind (member : Member) (task : Task) :
    ((member.turnsBehind task).map Effect.work).sum ≤ 5 := by
  unfold turnsBehind
  split
  · simp [Effect.work, Turn.work]
  · simp [Effect.work, Turn.work]
  · split
    · simp [Effect.work, Turn.work]
    · split <;> simp [Effect.work, Turn.work]
  · simp

end Member

theorem stepCost_pos (step : Step) : 0 < stepCost step := by
  cases step with
  | act action => exact Nat.one_pos
  | sleep seconds onCancel swallows => exact Nat.add_pos_left (by decide) _
  | hang onCancel swallows => exact Nat.add_pos_left (by decide) _

theorem stepsCost_append (first second : List Step) :
    stepsCost (first ++ second) = stepsCost first + stepsCost second := by
  induction first with
  | nil => exact (Nat.zero_add _).symm
  | cons step rest ih =>
    rw [List.cons_append, stepsCost, stepsCost, ih, Nat.add_assoc]

namespace Member

theorem work_run
    (document : Document)
    (now : Rat)
    (before : Performance)
    (steps : List Step)
    (script : Script) :
    (Stretch.run document now before steps).task.work script ≤ 12 * (1 + stepsCost steps) := by
  induction steps generalizing before with
  | nil => exact Nat.zero_le _
  | cons step rest ih =>
    have joined : stepsCost (step :: rest) = stepCost step + stepsCost rest := by rw [stepsCost]
    cases step with
    | act action =>
      simp only [Stretch.run]
      split
      · exact Nat.zero_le _
      · exact (ih _).trans (by omega)
    | sleep seconds onCancel swallows =>
      simp only [Stretch.run]
      split <;> (simp only [Task.work]; omega)
    | hang onCancel swallows =>
      simp only [Stretch.run, Task.work]
      omega

/-- A task that is cancelled ends. -/
theorem work_run_cancel
    (document : Document)
    (now : Rat)
    (before : Performance)
    (script : Script) :
    (Stretch.run document now before [.act .cancel]).task.work script = 0 := by
  simp only [Stretch.run]
  split <;> rfl

/-- A stretch of steps takes some of the work that is left of a task. -/
theorem work_run_upcomingSteps
    {member : Member}
    {steps : List Step}
    (steps_eq : member.upcomingSteps? = some steps)
    (document : Document)
    (now : Rat)
    (before : Performance) :
    (Stretch.run document now before steps).task.work member.script + 12 ≤
      member.task.work member.script := by
  have ran := work_run document now before steps member.script
  have cancelled := work_run_cancel document now before member.script
  -- Behind a rest come what follows a cancellation, and the steps behind the rest or an end.
  have behind : ∀ (onCancel rest : List Step) (swallows : Bool),
      stepsCost (onCancel ++ if swallows then rest else [.act .cancel]) ≤
        stepsCost onCancel + stepsCost rest + 1 := by
    intro onCancel rest swallows
    rw [stepsCost_append]
    split
    · omega
    · have once : stepsCost [.act .cancel] = 1 := rfl
      omega
  unfold upcomingSteps? at steps_eq
  split at steps_eq
  · next own task =>
    rw [task, Task.work, stepsWork]
    split at steps_eq <;> cases steps_eq <;> omega
  · next step rest task =>
    have positive := stepCost_pos step
    rw [task, Task.work]
    split at steps_eq <;> cases steps_eq
    · cases step with
      | act action =>
        rw [Step.afterCancel, cancelled]
        omega
      | sleep seconds onCancel swallows =>
        have follows := behind onCancel rest swallows
        simp only [Step.afterCancel] at ran ⊢
        simp only [stepCost]
        omega
      | hang onCancel swallows =>
        have follows := behind onCancel rest swallows
        simp only [Step.afterCancel] at ran ⊢
        simp only [stepCost]
        omega
    · omega
  · contradiction

/-- When the watch is roused, its turn comes at the expense of its waiting. -/
theorem Course.Rouses.work_le
    {before after : Watch}
    {turns : List Effect}
    (rouses : Rouses before after turns) :
    (turns.map Effect.work).sum + after.work ≤ before.work := by
  cases rouses with
  | still watch_eq turns_eq => simp [turns_eq, watch_eq]
  | roused waiting watch_eq turns_eq =>
    simp [turns_eq, watch_eq, waiting, Effect.work, Turn.work, Watch.work]

/-- A stretch of steps takes more work than it leads to. -/
theorem work_afterStretch
    {member : Member}
    {steps : List Step}
    {watch : Watch}
    {woken : List Effect}
    (steps_eq : member.upcomingSteps? = some steps)
    (rouses : Course.Rouses member.watch watch woken)
    (document : Document)
    (now : Rat) :
    ((woken ++ member.turnsBehind
          (Stretch.run document now (.start member.reporter) steps).task).map Effect.work).sum +
        ({ member.afterStretch (Stretch.run document now (.start member.reporter) steps) with
          watch := watch } : Member).work + 7 ≤ member.work := by
  have later := work_run_upcomingSteps steps_eq document now (.start member.reporter)
  have behind := member.work_turnsBehind
    (Stretch.run document now (.start member.reporter) steps).task
  have roused := rouses.work_le
  rw [List.map_append, List.sum_append]
  simp only [Member.work, afterStretch]
  omega

/-- A task that is cancelled has a turn ready, at the expense of nothing. -/
theorem Course.work_cancelTask (member : Member) :
    (start member).cancelTask.work ≤ 1 ∧
      (start member).cancelTask.member.script = member.script ∧
      (start member).cancelTask.member.task.work member.script = member.task.work member.script := by
  unfold cancelTask
  split
  · next step rest task =>
    have task_eq : member.task = .resting step rest := task
    refine ⟨le_refl 1, rfl, ?_⟩
    rw [task_eq]
    rfl
  · exact ⟨by simp [Course.work, turns, start, modify], rfl, rfl⟩
  · exact ⟨by simp [Course.work, turns, start, modify], rfl, rfl⟩
  · exact ⟨by simp [Course.work, turns, start], rfl, rfl⟩

/-- A turn takes some of the work that is left, unless the supervisor sets its timer in it. -/
theorem Acted.work_lt
    {setting : Setting}
    {now : Rat}
    {member : Member}
    {turn : Turn}
    {after : Course}
    (acted : Acted setting now member turn after)
    (untimed : ∀ since, member.supervision.isReady = true → after.member.supervision = .waiting since →
      member.left? setting now since = none) :
    after.work + after.member.work < turn.work + member.work := by
  have positive := turn.work_pos
  have brings : ∀ turns, after.turns = turns → after.work = (turns.map Effect.work).sum := by
    rintro _ rfl
    rfl
  cases acted with
  | nothing member_eq turns_eq =>
    have brought : after.work = 0 := brings _ turns_eq
    rw [brought, member_eq]
    omega
  | ran steps watch woken isTask steps_eq rouses member_eq turns_eq delivered_eq =>
    have stretched := work_afterStretch steps_eq rouses setting.document now
    rw [brings _ turns_eq, member_eq]
    omega
  | awoke step rest isWake task_eq member_eq turns_eq delivered_eq =>
    have brought : after.work = 1 := brings _ turns_eq
    simp only [brought, member_eq, isWake, Member.work, task_eq, Task.work, Turn.work]
    omega
  | settled ending isSupervisor ready task_eq member_eq turns_eq delivered_eq =>
    have brought : after.work = 0 := turns_eq.elim (brings _) (brings _)
    simp only [brought, member_eq, Member.work, Supervision.work, Watch.work]
    omega
  | supervised isSupervisor fresh goesOn member_eq turns_eq delivered_eq =>
    rw [untimed now (by rw [fresh]; rfl) (by rw [member_eq])] at turns_eq
    have brought : after.work = 1 := brings _ turns_eq
    simp only [brought, member_eq, Member.work, fresh, Supervision.work, Watch.work]
    omega
  | awaited since isSupervisor woken goesOn running timely member_eq turns_eq delivered_eq =>
    rw [untimed since (by rw [woken]; rfl) (by rw [member_eq])] at turns_eq
    have brought : after.work = 0 := brings _ turns_eq
    simp only [brought, member_eq, Member.work, woken, Supervision.work]
    omega
  | abandoned since isSupervisor woken goesOn finished member_eq turns_eq delivered_eq =>
    have brought : after.work = 0 := brings _ turns_eq
    simp only [brought, member_eq, Member.work, woken, Supervision.work, Watch.work]
    omega
  | expired since watch roused isSupervisor woken goesOn running tardy rouses member_eq turns_eq
      delivered_eq =>
    obtain ⟨cancelled, script_eq, task_eq⟩ := Course.work_cancelTask member
    have brought : after.work = (Course.start member).cancelTask.work +
        (roused.map Effect.work).sum := by
      rw [brings _ turns_eq, List.map_append, List.map_append, List.sum_append, List.sum_append]
      rfl
    have rouse := rouses.work_le
    have none : Watch.ended.work = 0 := rfl
    simp only [brought, member_eq, Member.work, woken, Supervision.work, none, script_eq, task_eq]
    omega
  | noticed since isNotice waiting member_eq turns_eq delivered_eq =>
    have brought : after.work = 1 := brings _ turns_eq
    have taken : 3 ≤ turn.work := by rcases isNotice with rfl | rfl <;> decide
    simp only [brought, member_eq, Member.work, waiting, Supervision.work]
    omega
  | watched isWatch ready member_eq turns_eq delivered_eq =>
    have brought : after.work = 5 := brings _ turns_eq
    have left : 5 ≤ member.watch.work := by
      rcases ready with ready | ready
      · rw [ready.1]
        decide
      · rw [ready]
        decide
    have none : Watch.ended.work = 0 := rfl
    simp only [brought, member_eq, Member.work, none]
    omega
  | armed isWatch fresh member_eq turns_eq delivered_eq =>
    have brought : after.work = 0 := brings _ turns_eq
    simp only [brought, member_eq, Member.work, fresh, Watch.work]
    omega

/-- Being invoked brings no more work than it takes. -/
theorem Entered.work_le
    {setting : Setting}
    {now : Rat}
    {member : Member}
    {after : Course}
    (entered : Entered setting now member after)
    (idle : member.task = .absent) :
    after.work + after.member.work ≤ member.work := by
  cases entered with
  | launched performed steps performed_eq goesOn awaits member_eq turns_eq delivered_eq =>
    have brought : after.work = 2 := by
      rw [Course.work, turns_eq]
      rfl
    simp only [brought, member_eq, Member.work, idle, awaits, Option.getD_some, Task.work,
      Supervision.work]
    omega
  | spent performed performed_eq member_eq turns_eq delivered_eq =>
    simp [Course.work, turns_eq, member_eq, Member.work]

end Member

/-- The work of a turn, with that of the turns that it leads to. -/
def Turn.work : Turn → Nat
  | run => 1
  | member _ own => own.work

/-- The work that an effect brings; when the run ends, the caller may go on. -/
def Effect.work : Effect → Nat
  | soon turn => turn.work
  | after _ turn => turn.work
  | ended => 1
  | _ => 0

/-- The work that is left of a run. -/
def Phase.work : Phase → Nat
  | unstarted => 3
  | scheduled => 2
  | invoking => 2
  | waiting => 2
  | settled => 1
  | ended _ => 0

/-- The work that is left of a linting. -/
def work (linting : Linting) : Nat :=
  linting.phase.work + (linting.members.map Member.work).sum

namespace Progress

/-- The work that is left, with that which a turn has brought so far. -/
def work (progress : Progress) : Nat :=
  (progress.effects.map Effect.work).sum + progress.linting.work

theorem work_start (linting : Linting) : (start linting).work = linting.work := Nat.zero_add _

theorem work_emit (progress : Progress) (effect : Effect) :
    (progress.emit effect).work = progress.work + effect.work := by
  simp only [work, emit, List.map_append, List.sum_append, List.map_cons, List.map_nil,
    List.sum_singleton]
  omega

theorem work_called (progress : Progress) (labels : List String) :
    (progress.called labels).work = progress.work := by
  have silent : ∀ (state : LintState) (size : Nat),
      ((labels.map (Effect.called · state size)).map Effect.work).sum = 0 := by
    intro state size
    induction labels with
    | nil => rfl
    | cons label rest ih => exact (Nat.zero_add _).trans ih
  rw [work, linting_called, effects_called, List.map_append, List.sum_append, silent]
  rfl

theorem work_setMember
    {progress : Progress}
    {index : Nat}
    {member : Member}
    (known : progress.linting.members[index]? = some member)
    (other : Member) :
    (progress.setMember index other).work + member.work = progress.work + other.work := by
  have replaced : ∀ (members : List Member) (index : Nat), members[index]? = some member →
      ((members.set index other).map Member.work).sum + member.work =
        (members.map Member.work).sum + other.work := by
    intro members
    induction members with
    | nil =>
      intro index known
      contradiction
    | cons first rest ih =>
      intro index known
      cases index with
      | zero =>
        cases known
        simp only [List.set_cons_zero, List.map_cons, List.sum_cons]
        omega
      | succ index =>
        have others := ih index known
        simp only [List.set_cons_succ, List.map_cons, List.sum_cons]
        omega
  have sums := replaced _ _ known
  simp only [work, setMember, linting_modify, Linting.work]
  simp only [modify]
  omega

/-- The run is settled, and a turn is made ready for it, at the expense of its waiting. -/
theorem work_countDone (progress : Progress) (index : Nat) :
    (progress.countDone index).work ≤ progress.work := by
  simp only [countDone]
  split
  · exact Nat.le_refl _
  · split
    · next last =>
      have waiting : progress.linting.phase = .waiting :=
        of_decide_eq_true (Bool.and_eq_true_iff.mp last).2
      simp [work, log, emit, modify, Linting.work, waiting, Effect.work, Turn.work, Phase.work]
      omega
    · rw [log, work_emit]
      exact Nat.le_refl _

theorem work_absorb (progress : Progress) (index : Nat) (effect : Member.Effect) :
    (absorb index progress effect).work ≤ progress.work + effect.work := by
  cases effect with
  | soon turn => exact (work_emit _ _).le
  | after seconds turn => exact (work_emit _ _).le
  | cancel turn => exact (work_emit _ _).le
  | log record => exact (work_emit _ _).le
  | delivered diagnostic => exact Nat.le_refl _
  | finished => exact progress.work_countDone index

theorem work_foldl_absorb (progress : Progress) (index : Nat) (effects : List Member.Effect) :
    (effects.foldl (absorb index) progress).work ≤
      progress.work + ((effects.filter Member.Effect.isTurn).map Member.Effect.work).sum := by
  induction effects generalizing progress with
  | nil => exact Nat.le_refl _
  | cons effect rest ih =>
    have first := progress.work_absorb index effect
    have others := ih (absorb index progress effect)
    have joined : (((effect :: rest).filter Member.Effect.isTurn).map Member.Effect.work).sum =
        effect.work + ((rest.filter Member.Effect.isTurn).map Member.Effect.work).sum := by
      rw [List.filter_cons]
      split
      · rfl
      · next silent =>
        have none : effect.work = 0 := by
          cases effect <;> first | rfl | exact absurd rfl silent
        rw [none, Nat.zero_add]
    rw [List.foldl_cons]
    omega

/-- Following a member changes the work by that of the member and of the turns that it brings. -/
theorem work_follow
    {progress : Progress}
    {index : Nat}
    {member : Member}
    (known : progress.linting.members[index]? = some member)
    (course : Member.Course) :
    (progress.follow index course).work + member.work ≤
      progress.work + (course.work + course.member.work) := by
  have replaced := work_setMember known course.member
  have absorbed := (progress.setMember index course.member).work_foldl_absorb index course.effects
  simp only [follow, Member.Course.work, Member.Course.turns]
  omega

theorem work_close (progress : Progress) (outcome : Outcome) :
    (progress.close outcome).work + progress.linting.phase.work = progress.work + 1 := by
  rw [close, work_emit]
  simp only [work, modify, Linting.work, Effect.work, Phase.work]
  omega

/-- Coming to the end takes what is left of the run, and lets the caller go on. -/
theorem work_finish (progress : Progress) :
    progress.finish.work + progress.linting.phase.work ≤ progress.work + 1 := by
  have closed : ∀ (before : Progress) (outcome : Outcome), before.work = progress.work →
      before.linting.phase = progress.linting.phase →
        (before.close outcome).work + progress.linting.phase.work ≤ progress.work + 1 := by
    intro before outcome work_eq phase_eq
    rw [← phase_eq, ← work_eq]
    exact (before.work_close outcome).le
  simp only [finish]
  split
  · refine closed _ _ ?_ ?_
    · rw [work_called]
      exact work_emit _ _
    · rw [linting_called]
      rfl
  · refine closed _ _ ?_ ?_
    · rw [work_called]
      exact work_emit _ _
    · rw [linting_called]
      rfl

theorem work_invoke
    {progress : Progress}
    {index : Nat}
    (untouched : ∀ member, progress.linting.members[index]? = some member → member.Untouched)
    (now : Rat) :
    (progress.invoke index now).1.work ≤ progress.work := by
  cases progress.invoked index now with
  | nobody unknown same => rw [same]
  | member member record known same =>
    have idle : member.task = .absent ∧ member.watch ≠ .waiting := by
      obtain ⟨rule, number, script, rfl⟩ := untouched member known
      exact ⟨rfl, Watch.noConfusion⟩
    have entered := (Member.entered idle.2 progress.linting.toSetting now).work_le idle.1
    have followed := @work_follow (progress.emit (.invoked index record)) index member known
      (member.invoke progress.linting.toSetting now).1
    have noted : (progress.emit (.invoked index record)).work = progress.work := work_emit _ _
    rw [same]
    dsimp only
    omega

theorem work_invokeAll
    {progress : Progress}
    {indices : List Nat}
    (once : indices.Nodup)
    (untouched : ∀ index ∈ indices, ∀ member,
      progress.linting.members[index]? = some member → member.Untouched)
    (now : Rat) :
    (progress.invokeAll now indices).1.work ≤ progress.work := by
  induction indices generalizing progress with
  | nil => exact Nat.le_refl _
  | cons first rest ih =>
    rw [List.nodup_cons] at once
    have invoked := work_invoke (untouched first List.mem_cons_self) now
    simp only [invokeAll]
    split
    · refine (ih once.2 fun index known member found => ?_).trans invoked
      rw [Entering.members_invoke_of_mem once.1 known] at found
      exact untouched index (List.mem_cons_of_mem _ known) member found
    · exact invoked

/-- Beginning the run brings no more work than it takes. -/
theorem work_begin
    {linting : Linting}
    (balanced : Balanced linting)
    (scheduled : linting.phase = .scheduled)
    (now : Rat) :
    ((start linting).begin now).work ≤ linting.work := by
  have entering := Entering.enter balanced scheduled
  have invoking := (entering.invokeAll now (List.range linting.members.length)).invoking
  have entered : (start linting).enter.work = linting.work := by
    simp [work, start, enter, modify, Linting.work, scheduled, Phase.work]
  have invoked : ((start linting).invokeEvery now).1.work ≤ linting.work := by
    refine (work_invokeAll List.nodup_range ?_ now).trans entered.le
    intro index _ member known
    refine balanced.untouched ?_ member (List.mem_of_getElem? known)
    rw [scheduled]
    rfl
  have phase_eq : ((start linting).invokeEvery now).1.linting.phase.work = 2 :=
    congrArg Phase.work invoking
  cases (start linting).begun now with
  | stopped failure stops same =>
    have closed := ((start linting).invokeEvery now).1.work_close (.stopped failure)
    rw [same]
    omega
  | waiting goesOn some same =>
    rw [same]
    refine Nat.le_trans ?_ invoked
    simp only [work, modify, Linting.work] at phase_eq ⊢
    rw [phase_eq]
    exact Nat.le_refl _
  | finished goesOn none same =>
    have finished := ((start linting).invokeEvery now).1.work_finish
    rw [same]
    omega

end Progress

/-- A turn of the run takes some of the work that is left; one of a member takes what the member
does. -/
theorem work_take
    {linting : Linting}
    (balanced : Balanced linting)
    (now : Rat)
    (turn : Turn) :
    ((linting.take now turn).work < turn.work + linting.work ∧
        ∀ index own, turn = .member index own → linting.members[index]? = none) ∨
      ∃ index own member, turn = .member index own ∧ linting.members[index]? = some member ∧
        (linting.take now turn).work + member.work ≤
          linting.work + ((member.take linting.toSetting now own).work +
            (member.take linting.toSetting now own).member.work) := by
  cases taken linting now turn with
  | nothing idle nobody same =>
    refine .inl ⟨?_, nobody⟩
    rw [same, Progress.work_start]
    cases turn with
    | run => exact Nat.lt_add_of_pos_left Nat.one_pos
    | member index own => exact Nat.lt_add_of_pos_left own.work_pos
  | begin isRun scheduled same =>
    have begun := Progress.work_begin balanced scheduled now
    refine .inl ⟨?_, by simp [isRun]⟩
    rw [same, isRun, Turn.work]
    omega
  | finish isRun settled same =>
    have finished := (Progress.start linting).work_finish
    refine .inl ⟨?_, by simp [isRun]⟩
    rw [Progress.work_start, Progress.linting_start, settled] at finished
    rw [same, isRun]
    simp only [Phase.work, Turn.work] at finished ⊢
    omega
  | member index own member isMember known same =>
    have followed := @Progress.work_follow (.start linting) index member known
      (member.take linting.toSetting now own)
    rw [Progress.work_start] at followed
    refine .inr ⟨index, own, member, isMember, known, ?_⟩
    rw [same]
    exact followed

/-- A linting in balance, whose members may be idle as long as they like. -/
structure Calm (linting : Linting) : Prop where
  unbounded : linting.timeout? = none
  balanced : Balanced linting

namespace Calm

variable {linting : Linting}

theorem start (calm : Calm linting) : Calm linting.start.1.linting where
  unbounded := by
    simp only [Linting.start]
    split
    · exact calm.unbounded
    · simpa using calm.unbounded
  balanced := calm.balanced.start

theorem subscribe (calm : Calm linting) (milestone : Milestone) (observer : Observer) :
    Calm (linting.subscribe milestone observer).1.linting where
  unbounded := by simpa [Linting.subscribe] using calm.unbounded
  balanced := calm.balanced.subscribe milestone observer

theorem take (calm : Calm linting) (now : Rat) (turn : Turn) :
    Calm (linting.take now turn).linting where
  unbounded := (congrArg Setting.timeout? (setting_take linting now turn)).trans calm.unbounded
  balanced := calm.balanced.take now turn

/-- A new linting is calm if its instances may be idle as long as they like. -/
theorem new (document : Document) (rules : RuleSet) (precision : Precision) :
    Calm (.new document rules none precision) where
  unbounded := rfl
  balanced := .new document rules none precision

end Calm

theorem work_subscribe (linting : Linting) (milestone : Milestone) (observer : Observer) :
    (linting.subscribe milestone observer).1.work = linting.work := by
  rw [Linting.subscribe, Progress.work_called]
  exact Progress.work_start _

/-- The turn in which the run begins comes at the expense of starting it. -/
theorem work_start (linting : Linting) : linting.start.1.work ≤ linting.work := by
  simp only [Linting.start]
  split
  · exact (Progress.work_start linting).le
  · next unstarted =>
    have phase_eq : linting.phase = .unstarted := by simpa [isStarted] using unstarted
    rw [Progress.work_called]
    simp [Progress.work, Progress.emit, Progress.modify, Progress.start, Linting.work, phase_eq,
      Effect.work, Turn.work, Phase.work]
    omega

end Linting
end MarkupLint
