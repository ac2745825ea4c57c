import MarkupLint.Proofs.Linting.Expectation

/-!
# What is expected comes true

The turns of a member that may be idle leave its prospect as it is, but for what they report.  So
when nothing can happen any more, all that was expected has been reported, and the member is done if
it was to be.
-/

namespace MarkupLint

theorem Prospect.behind_behind (prospect : Prospect) (first second : List Diagnostic) :
    (prospect.behind second).behind first = prospect.behind (first ++ second) := by
  simp only [behind, List.append_assoc]

theorem Prospect.behind_nil (prospect : Prospect) : prospect.behind [] = prospect := rfl

namespace Linting
namespace Member

/-- A turn leaves the prospect as it is, but for what it reports. -/
theorem Moved.prospect_eq
    {setting : Setting}
    {now : Rat}
    {member : Member}
    {turn : Turn}
    {after : Course}
    (moved : Moved setting now member turn after)
    (sleeping : turn = .wake → member.task.isSleeping = true) :
    (after.member.prospect setting.document).behind (delivered after.effects) =
      member.prospect setting.document := by
  have silent : after.member.prospect setting.document = member.prospect setting.document →
      delivered after.effects = [] →
        (after.member.prospect setting.document).behind (delivered after.effects) =
          member.prospect setting.document := by
    intro same delivered_eq
    rw [same, delivered_eq, Prospect.behind_nil]
  cases moved with
  | ran steps watch woken isTask task_eq rouses member_eq turns_eq delivered_eq =>
    have ahead : member.task.ahead setting.document now member.reporter =
        Step.performAll setting.document now (.start member.reporter) steps := by
      rcases task_eq with same | ⟨step, same⟩ <;> rw [same] <;> rfl
    have performed := Stretch.performAll_eq setting.document now (.start member.reporter) rfl steps
    have later := after.member.prospect_eq setting.document now
    rw [member.prospect_eq setting.document now, ahead, performed, Performance.settle_behind,
      Performance.prospect_behind, delivered_eq, later, member_eq]
    rfl
  | awoke step rest isWake task_eq member_eq turns_eq delivered_eq =>
    have asleep := sleeping isWake
    rw [task_eq] at asleep
    cases step with
    | sleep seconds onCancel swallows =>
      refine silent ?_ delivered_eq
      rw [member_eq, prospect, prospect, task_eq]
      rfl
    | _ => contradiction
  | settled ending isSupervisor ready task_eq member_eq turns_eq delivered_eq =>
    have finished := @Performance.isFinished_settle
      ((Performance.start member.reporter).stop ending) rfl now
    have done : after.member.reporter.isFinished = true := by
      rw [member_eq]
      exact finished
    rw [prospect_of_isFinished done, delivered_eq, member.prospect_eq setting.document now, task_eq]
    simp only [Task.ahead, Performance.prospect, Prospect.behind, List.append_nil, finished]
  | nothing member_eq turns_eq delivered_eq => exact silent (by rw [member_eq]) delivered_eq
  | supervised isSupervisor fresh goesOn member_eq turns_eq delivered_eq =>
    exact silent (by rw [member_eq]; rfl) delivered_eq
  | awaited since isSupervisor woken goesOn member_eq turns_eq delivered_eq =>
    exact silent (by rw [member_eq]; rfl) delivered_eq
  | abandoned since isSupervisor woken finished member_eq turns_eq delivered_eq =>
    exact silent (by rw [member_eq]; rfl) delivered_eq
  | noticed since isNotice waiting member_eq turns_eq delivered_eq =>
    exact silent (by rw [member_eq]; rfl) delivered_eq
  | watched isWatch ready member_eq turns_eq delivered_eq =>
    exact silent (by rw [member_eq]; rfl) delivered_eq
  | armed isWatch fresh member_eq turns_eq delivered_eq =>
    exact silent (by rw [member_eq]; rfl) delivered_eq

end Member

namespace Solo

/-- What is to be expected of a solo in all, with what it has delivered. -/
def prospect (document : Document) (solo : Solo) : Prospect :=
  (solo.member.prospect document).behind solo.diagnostics

variable {setting : Setting} {solo next last : Solo}

theorem Sound.prospect_step
    (unbounded : setting.timeout? = none)
    (sound : solo.Sound)
    (stepped : solo.step? setting = some next) :
    next.prospect setting.document = solo.prospect setting.document := by
  obtain ⟨⟨turn, schedule⟩, popped, rfl⟩ := Option.map_eq_some_iff.mp stepped
  have moved := Member.moved unbounded sound.calm schedule.now turn
  have entries := Schedule.entries_next? popped
  have sleeping : turn = .wake → solo.member.task.isSleeping = true := by
    rintro rfl
    have positive : 0 < solo.schedule.entries.count .wake :=
      List.count_pos_iff.mpr (entries.mem_iff.mpr List.mem_cons_self)
    rw [sound.wake] at positive
    by_contra awake
    simp [awake] at positive
  simp only [Solo.take, Solo.prospect, Solo.follow]
  rw [← Prospect.behind_behind, moved.prospect_eq sleeping]

/-- Turn by turn, a solo stays sound and keeps its prospect. -/
theorem Sound.reaches
    (unbounded : setting.timeout? = none)
    (sound : solo.Sound)
    (path : solo.Reaches setting last) :
    last.Sound ∧ last.prospect setting.document = solo.prospect setting.document := by
  induction path with
  | refl => exact ⟨sound, rfl⟩
  | tail path stepped ih =>
    exact ⟨ih.1.step unbounded stepped, (ih.1.prospect_step unbounded stepped).trans ih.2⟩

/-- When nothing can happen any more, nothing more is to be expected. -/
theorem Sound.prospect_of_isExhausted
    (sound : solo.Sound)
    (exhausted : solo.step? setting = none) :
    solo.prospect setting.document = ⟨solo.diagnostics, solo.member.reporter.isFinished⟩ := by
  have spent : solo.schedule.entries = [] :=
    (Schedule.next?_eq_none_iff _).mp (Option.map_eq_none_iff.mp exhausted)
  obtain ⟨calm, task, wake, supervisor, notice, late, finished, absent⟩ := sound
  simp only [spent, List.count_nil, Nat.lt_irrefl, imp_false] at task wake supervisor notice
  have nothing : solo.member.prospect setting.document =
      ⟨[], solo.member.reporter.isFinished⟩ := by
    have idle : ∀ performance : Performance, performance = .start solo.member.reporter →
        (performance.settle 0).prospect = ⟨[], solo.member.reporter.isFinished⟩ := by
      rintro _ rfl
      rfl
    cases halted : solo.member.task with
    | absent =>
      apply idle _
      rw [halted]
      rfl
    | fresh steps => simp [halted, Task.isReady] at task
    | resting step rest =>
      cases step with
      | sleep seconds onCancel swallows => simp [halted, Task.isSleeping] at wake
      | _ =>
        apply idle _
        rw [halted]
        rfl
    | rested step rest => simp [halted, Task.isReady] at task
    | ended ending =>
      have finished : solo.member.reporter.isFinished = true := by
        apply finished
        cases supervision : solo.member.supervision with
        | absent =>
          rw [absent supervision] at halted
          contradiction
        | fresh => simp [supervision, Supervision.isReady] at supervisor
        | waiting since => exact (notice since ending supervision halted).elim
        | woken since => simp [supervision, Supervision.isReady] at supervisor
        | ended => rfl
      rw [Member.prospect_of_isFinished finished, finished]
  simp only [prospect, nothing, Prospect.behind, List.append_nil]

end Solo
end Linting
end MarkupLint
