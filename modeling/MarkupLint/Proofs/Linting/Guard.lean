import MarkupLint.Proofs.Linting.Immediate
import MarkupLint.Proofs.Linting.Lapse
import MarkupLint.Proofs.Linting.Tending

/-!
# Guarded instances

With a bound on idleness, a supervisor that waits is woken after some time, whatever its instance
does.  So an instance is done when nothing can happen any more.
-/

namespace MarkupLint
namespace Linting
namespace Member

variable {setting : Setting} {seconds now since : Rat} {member : Member} {turn : Turn}

/-- How a supervisor has come to wait: it waited before, and its timer is left, or it has set one. -/
inductive Awaits (since : Rat) (member : Member) (turn : Turn) (turns : List Effect) : Prop where
  | still
      (waiting : member.supervision = .waiting since)
      (other : turn ≠ .idle)
      (kept : .cancel .idle ∉ turns)
  | armed
      (before : List Effect)
      (left : Rat)
      (turns_eq : turns = before ++ [.after left .idle])

/-- With a bound on idleness, a supervisor waits with a timer. -/
theorem awaits_take
    (bounded : setting.IsBounded seconds)
    (waiting : (member.take setting now turn).member.supervision = .waiting since) :
    Awaits since member turn (member.take setting now turn).turns := by
  have acts := acted setting now member turn
  generalize member.take setting now turn = after at acts waiting
  cases acts with
  | nothing member_eq turns_eq delivered_eq task wake supervisor notice =>
    rw [member_eq] at waiting
    refine .still waiting (fun isIdle => notice (.inl isIdle) since waiting) ?_
    simp [turns_eq]
  | ran steps watch woken isTask steps_eq rouses member_eq turns_eq =>
    rw [member_eq] at waiting
    refine .still waiting (by simp [isTask]) ?_
    rw [turns_eq, List.mem_append, not_or]
    refine ⟨?_, kept_turnsBehind _ _ _⟩
    cases rouses with
    | still watch_eq woken_eq => simp [woken_eq]
    | roused asleep watch_eq woken_eq => simp [woken_eq]
  | awoke step rest isWake task_eq member_eq turns_eq =>
    rw [member_eq] at waiting
    exact .still waiting (by simp [isWake]) (by simp [turns_eq])
  | supervised isSupervisor fresh goesOn member_eq turns_eq =>
    rw [left?_of_isBounded bounded] at turns_eq
    exact .armed _ _ turns_eq
  | awaited other isSupervisor woken goesOn running timely member_eq turns_eq =>
    rw [left?_of_isBounded bounded] at turns_eq
    exact .armed _ _ turns_eq
  | watched isWatch ready member_eq turns_eq =>
    rw [member_eq] at waiting
    exact .still waiting (by simp [isWatch]) (by simp [turns_eq])
  | armed isWatch fresh member_eq turns_eq =>
    rw [member_eq] at waiting
    exact .still waiting (by simp [isWatch]) (by simp [turns_eq])
  | settled ending isSupervisor ready task_eq member_eq => simp [member_eq] at waiting
  | abandoned other isSupervisor woken goesOn finished member_eq => simp [member_eq] at waiting
  | expired other watch roused isSupervisor woken goesOn running tardy rouses member_eq =>
    simp [member_eq] at waiting
  | noticed other isNotice waits member_eq => simp [member_eq] at waiting

/-- A member without a supervisor never had one. -/
theorem supervision_of_take
    (absent : (member.take setting now turn).member.supervision = .absent) :
    member.supervision = .absent := by
  have acts := acted setting now member turn
  generalize member.take setting now turn = after at acts absent
  cases acts with
  | nothing member_eq => rwa [member_eq] at absent
  | ran steps watch woken isTask steps_eq rouses member_eq => rwa [member_eq] at absent
  | awoke step rest isWake task_eq member_eq => rwa [member_eq] at absent
  | settled ending isSupervisor ready task_eq member_eq => simp [member_eq] at absent
  | supervised isSupervisor fresh goesOn member_eq => simp [member_eq] at absent
  | awaited since isSupervisor woken goesOn running timely member_eq => simp [member_eq] at absent
  | abandoned since isSupervisor woken goesOn finished member_eq => simp [member_eq] at absent
  | expired since watch roused isSupervisor woken goesOn running tardy rouses member_eq =>
    simp [member_eq] at absent
  | noticed since isNotice waiting member_eq => simp [member_eq] at absent
  | watched isWatch ready member_eq => rwa [member_eq] at absent
  | armed isWatch fresh member_eq => rwa [member_eq] at absent

end Member

namespace Solo

/-- A turn that is made soon is ready behind the others. -/
theorem ready_foldl_obey
    (effects : List Member.Effect)
    (schedule : Schedule Member.Turn)
    (turn : Member.Turn) :
    (turn ∈ schedule.ready ∨ .soon turn ∈ effects) → turn ∈ (effects.foldl obey schedule).ready := by
  induction effects generalizing schedule with
  | nil => simp
  | cons effect rest ih =>
    intro needed
    apply ih (obey schedule effect)
    rcases needed with ready | soon
    · left
      cases effect with
      | soon other =>
        rw [obey, Schedule.ready_soon]
        exact List.mem_append_left _ ready
      | _ => exact ready
    · rcases List.mem_cons.mp soon with rfl | later
      · left
        rw [obey, Schedule.ready_soon]
        exact List.mem_append_right _ List.mem_cons_self
      · exact .inr later

/-- A solo whose supervisor, if it waits, has a timer, and whose member, if it has no supervisor, is
done. -/
structure Guarded (solo : Solo) : Prop where
  tended : solo.member.Tended (· ∈ solo.schedule.ready)
  armed : ∀ since, solo.member.supervision = .waiting since → .idle ∈ solo.schedule.entries
  absent : solo.member.supervision = .absent → solo.member.reporter.isFinished = true

namespace Guarded

variable {setting : Setting} {seconds : Rat} {solo next : Solo}

theorem step
    (bounded : setting.IsBounded seconds)
    (guarded : solo.Guarded)
    (stepped : solo.step? setting = some next) :
    next.Guarded := by
  obtain ⟨⟨turn, schedule⟩, popped, rfl⟩ := Option.map_eq_some_iff.mp stepped
  have conduct := solo.member.conduct_take setting schedule.now turn
  refine ⟨?_, fun since waiting => ?_, fun absent => ?_⟩
  · refine (guarded.tended.take setting schedule.now turn).mono fun other needed => ?_
    refine ready_foldl_obey _ schedule other (needed.imp_left ?_)
    rintro ⟨different, ready⟩
    exact Schedule.mem_ready_next? popped ready different
  · rw [Solo.take, schedule_follow]
    cases Member.awaits_take bounded waiting with
    | still waits other kept =>
      have held := guarded.armed since waits
      rw [(Schedule.entries_next? popped).mem_iff, List.mem_cons] at held
      rw [← List.count_pos_iff, count_entries_foldl_obey kept]
      exact Nat.add_pos_left (List.count_pos_iff.mpr (held.resolve_left other.symm)) _
    | armed before left turns_eq =>
      rw [turns_eq, List.foldl_append]
      exact (Schedule.entries_after _ left _).mem_iff.mpr List.mem_cons_self
  · exact conduct.isFinished_of_isFinished (guarded.absent (Member.supervision_of_take absent))

theorem reaches
    {last : Solo}
    (bounded : setting.IsBounded seconds)
    (guarded : solo.Guarded)
    (path : solo.Reaches setting last) :
    last.Guarded := by
  induction path with
  | refl => exact guarded
  | tail path stepped ih => exact ih.step bounded stepped

/-- A member is guarded when it is invoked, unless what it does at once ends with a failure that nobody
handles. -/
theorem invoke
    {place : Nat}
    {member : Member}
    (untouched : member.Untouched)
    (contained : member.script.escape? setting.document = none)
    (schedule : Schedule SessionTurn) :
    ((Solo.idle place member schedule).follow (member.invoke setting schedule.now).1).Guarded := by
  have tended := Member.Tended.invoke untouched setting schedule.now
  obtain ⟨rule, index, script, rfl⟩ := untouched
  have entered := @Member.entered (.new rule index script) Watch.noConfusion setting schedule.now
  refine ⟨tended.mono fun turn soon => ready_foldl_obey _ _ turn (.inr soon), fun since waiting => ?_,
    ?_⟩
  · refine absurd waiting ?_
    rw [Solo.follow]
    cases entered with
    | launched performed steps performed_eq goesOn awaits member_eq => simp [member_eq]
    | spent performed performed_eq member_eq =>
      rw [member_eq]
      exact Supervision.noConfusion
  · rw [Solo.follow]
    cases entered with
    | launched performed steps performed_eq goesOn awaits member_eq => simp [member_eq]
    | spent performed performed_eq member_eq turns_eq delivered_eq stopped =>
      rw [Script.ending?_immediate] at stopped
      rw [member_eq, performed_eq]
      exact fun _ => Script.isFinished_perform contained stopped schedule.now _

end Guarded
end Solo
end Linting
end MarkupLint
