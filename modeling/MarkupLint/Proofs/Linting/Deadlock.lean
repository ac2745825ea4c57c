import MarkupLint.Proofs.Linting.Allotment
import MarkupLint.Proofs.Linting.Answering
import MarkupLint.Proofs.Linting.Guard
import MarkupLint.Proofs.Linting.Isolation
import MarkupLint.Proofs.Linting.Outcome

/-!
# Deadlocks

Whoever waits for the end of a run that has been started is answered, unless instances may be idle as
long as they like and one of them hangs while it is not done.
-/

namespace MarkupLint

section

variable {document : Document} {now : Rat} {before : Performance}

theorem Action.performAll_append
    (goesOn : before.ending? = none)
    (first second : List Action) :
    performAll document now before (first ++ second) =
      if (performAll document now before first).ending?.isSome then
        performAll document now before first
      else performAll document now (performAll document now before first) second := by
  induction first generalizing before with
  | nil => simp [performAll, goesOn]
  | cons action rest ih =>
    simp only [List.cons_append, performAll]
    split
    · rfl
    · next unended => exact ih (by simpa using unended)

end

namespace Linting

section

variable {document : Document} {rules : RuleSet} {timeout? : Option Binary64} {precision : Precision}
  {precedence : Precedence SessionTurn}

end

namespace Session

variable {document : Document} {rules : RuleSet} {timeout? : Option Binary64} {precision : Precision}
  {precedence : Precedence SessionTurn}

/-- When waiting behind a start has been answered, the run has ended. -/
theorem Answering.exists_ended
    {requests : List Request}
    {session : Session}
    {index : Nat}
    {answer : Answer}
    (answering : Answering requests session)
    (known : session.answers.reverse[index]? = some answer)
    (awaited : requests[index]? = some .wait)
    (starts : .start ∈ requests.take index) :
    ∃ outcome, answer.linting.phase = .ended outcome ∧ session.linting.phase = .ended outcome := by
  obtain ⟨result, answered, -⟩ := answering.replied index answer known awaited
  have started := answering.started index answer known
    ((List.take_prefix_take_left (Nat.le_succ index)).mem starts)
  have steady := answering.steady answer (List.mem_reverse.mp (List.mem_of_getElem? known))
  obtain ⟨outcome, phase_eq⟩ : ∃ outcome, answer.linting.phase = .ended outcome := by
    cases phase : answer.linting.phase <;> simp_all [answer?, isStarted]
  exact ⟨outcome, phase_eq, steady.phase_eq outcome phase_eq⟩

end Session

end Linting
end MarkupLint
