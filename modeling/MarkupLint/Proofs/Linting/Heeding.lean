import MarkupLint.Proofs.Linting.Attendance

/-!
# Runs that are heeded

A run is heeded when observers that do not fail wait for its end.  In the turn in which it comes to
its end, each of them is called once, in order, with the final state, and those who wait for the run
are told once.
-/

namespace MarkupLint
namespace Linting

/-- The news of the end that an effect brings. -/
def Effect.end? : Effect → Option Unit
  | .ended => some ()
  | _ => none

theorem blind_end? : Effect.Blind Effect.end? :=
  ⟨fun _ => rfl, fun _ _ => rfl, fun _ => rfl, fun _ => rfl⟩

/-- The news of the end that effects bring. -/
def ends (effects : List Effect) : List Unit := effects.filterMap Effect.end?

namespace Progress

variable {progress : Progress}

theorem ends_emit (effect : Effect) :
    ends (progress.emit effect).effects = ends progress.effects ++ effect.end?.toList := by
  simp only [emit, ends, List.filterMap_append, List.filterMap_cons, List.filterMap_nil]
  cases effect.end? <;> rfl

theorem ends_invoke (index : Nat) (now : Rat) :
    ends (progress.invoke index now).1.effects = ends progress.effects := by
  cases progress.invoked index now with
  | nobody unknown same => rw [same]
  | member member record known same =>
    rw [same, ends, filterMap_follow blind_end?]
    exact (ends_emit _).trans (List.append_nil _)

theorem ends_finish : ends progress.finish.effects = ends progress.effects ++ [()] := by
  have called : ∀ labels : List String, ∀ state size,
      (labels.map (Effect.called · state size)).filterMap Effect.end? = [] := by
    intro labels state size
    simp [List.filterMap_map, Function.comp_def, Effect.end?]
  simp only [finish]
  split <;>
    simp only [close, modify, log, emit, effects_called, ends, List.filterMap_append, called] <;>
    simp [Effect.end?]

end Progress

variable {linting : Linting}

/-- In the turn in which a run comes to its end, that is told once, and in no other turn. -/
theorem ends_take (linting : Linting) (now : Rat) (turn : Turn) :
    ends (linting.take now turn).effects =
      if !linting.phase.isAnswered && (linting.take now turn).linting.phase.isAnswered then [()]
      else [] := by
  cases taken linting now turn with
  | nothing idle nobody same =>
    rw [same, Progress.linting_start]
    simp [Progress.start, ends]
  | begin isRun scheduled same =>
    have every : ends ((Progress.start linting).invokeEvery now).1.effects = [] :=
      @Progress.invokeAll_induction (fun progress => ends progress.effects = []) now
        (fun _ index none => (Progress.ends_invoke index now).trans none) _ rfl _
    rw [same, scheduled]
    cases (Progress.start linting).begun now with
    | stopped failure stops same =>
      rw [same, Progress.close, Progress.ends_emit, Progress.modify, every]
      rfl
    | waiting goesOn some same =>
      rw [same]
      exact every
    | finished goesOn none same =>
      rw [same, Progress.ends_finish, every, Progress.linting_finish]
      rfl
  | finish isRun settled same =>
    rw [same, Progress.ends_finish, Progress.linting_finish, settled]
    rfl
  | member index own member isMember known same =>
    have followed := @Progress.followed_follow (.start linting) index member _ known
      (member.conduct_take linting.toSetting now own)
    rw [same, ends, Progress.filterMap_follow blind_end?, followed.phase_eq]
    split
    · simp [Phase.isAnswered, Progress.start]
    · simp [Progress.start]

/-- How a run came to its end never changes. -/
theorem phase_take_of_ended
    {outcome : Outcome}
    (ended : linting.phase = .ended outcome)
    (now : Rat)
    (turn : Turn) :
    (linting.take now turn).linting.phase = .ended outcome := by
  cases taken linting now turn with
  | nothing idle nobody same =>
    rw [same]
    exact ended
  | begin isRun scheduled same =>
    rw [ended] at scheduled
    contradiction
  | finish isRun settled same =>
    rw [ended] at settled
    contradiction
  | member index own member isMember known same =>
    have followed := @Progress.followed_follow (.start linting) index member _ known
      (member.conduct_take linting.toSetting now own)
    rw [same, followed.phase_eq, if_neg]
    · exact ended
    · simp [ended]

/-- The state changes only in the turn in which the run comes to its end. -/
theorem Balanced.state_take
    (balanced : Balanced linting)
    {now : Rat}
    {turn : Turn}
    (same : (linting.take now turn).linting.phase.isClosed = linting.phase.isClosed) :
    (linting.take now turn).linting.state = linting.state := by
  cases closed : linting.phase.isClosed with
  | true => exact (balanced.same_of_isClosed closed (.take now turn)).1
  | false =>
    have terminal := balanced.isTerminal_eq
    have terminalLater := (balanced.take now turn).isTerminal_eq
    rw [closed] at terminal
    rw [same, closed] at terminalLater
    simp only [LintState.isTerminal, bne_eq_false_iff_eq] at terminal terminalLater
    rw [terminal, terminalLater]

/-- Observers that do nothing but look are called in order. -/
theorem Audience.callAll_leave (audience : Audience) (labels : List String) :
    audience.callAll (labels.map (⟨·, .leave⟩)) = ⟨audience, labels, [], none⟩ := by
  induction labels with
  | nil => rfl
  | cons label rest ih => simp [callAll, Observer.call, Conduct.run, ih]

/-- Observers with the given labels, which do nothing but look, wait for the end of a run. -/
structure Heeded (labels : List String) (linting : Linting) : Prop where
  waiting : linting.phase.isClosed = false →
    linting.audience.forEnd = labels.map (⟨·, .leave⟩)
  unfailed : ∀ group, linting.phase ≠ .ended (.failed group)

namespace Heeded

variable {labels : List String}

theorem announce_eq
    (heeded : Heeded labels linting)
    (opened : linting.phase.isClosed = false) :
    (linting.audience.announce .done).labels = labels ∧
      Progress.outcomeOf linting.name (linting.audience.announce .done) = .completed := by
  simp only [Audience.announce, Audience.reach, heeded.waiting opened, Audience.callAll_leave,
    true_and]
  rfl

theorem take (heeded : Heeded labels linting) (now : Rat) (turn : Turn) :
    Heeded labels (linting.take now turn).linting := by
  cases Heard.take linting now turn with
  | nothing setting_eq audience_eq isClosed_eq observed_eq =>
    refine ⟨fun opened => ?_, fun group failed => ?_⟩
    · rw [audience_eq]
      exact heeded.waiting (isClosed_eq ▸ opened)
    · rw [failed] at isClosed_eq
      obtain ⟨outcome, ended⟩ := Phase.exists_ended_of_isClosed isClosed_eq.symm
      rw [phase_take_of_ended ended, Phase.ended.injEq] at failed
      exact heeded.unfailed group (failed ▸ ended)
  | ended setting_eq isClosed_eq isEarly_eq audience_eq phase_eq observed_eq =>
    rw [(heeded.announce_eq isClosed_eq).2] at phase_eq
    refine ⟨fun opened => ?_, fun group failed => ?_⟩
    · rw [phase_eq] at opened
      contradiction
    · rw [phase_eq] at failed
      simp at failed

/-- The observers are called when the run comes to its end, with the final state. -/
theorem observed_take (heeded : Heeded labels linting) (now : Rat) (turn : Turn) :
    let after := (linting.take now turn).linting
    observed (linting.take now turn).effects =
      if !linting.phase.isClosed && after.phase.isClosed then
        labels.map (⟨·, after.state, after.diagnostics.size⟩)
      else [] := by
  intro after
  cases Heard.take linting now turn with
  | nothing setting_eq audience_eq isClosed_eq observed_eq =>
    rw [observed_eq, show after.phase.isClosed = _ from isClosed_eq]
    simp
  | ended setting_eq isClosed_eq isEarly_eq audience_eq phase_eq observed_eq =>
    rw [observed_eq, (heeded.announce_eq isClosed_eq).1, isClosed_eq,
      show after.phase = _ from phase_eq, (heeded.announce_eq isClosed_eq).2]
    rfl

end Heeded
end Linting
end MarkupLint
