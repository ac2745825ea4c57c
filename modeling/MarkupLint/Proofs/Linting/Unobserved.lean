import MarkupLint.Proofs.Linting.Attendance

/-!
# Lintings without their observers

Forgetting its observers, and whether those of the end failed, leaves a linting that takes the same
turns: no turn depends on who observes it.
-/

namespace MarkupLint
namespace Linting

/-- The phase, whether observers of the end failed or not. -/
def Phase.unobserved : Phase → Phase
  | ended (.failed _) => ended .completed
  | phase => phase

namespace Phase

variable (phase : Phase)

@[simp] theorem unobserved_unobserved : phase.unobserved.unobserved = phase.unobserved := by
  cases phase with
  | ended outcome => cases outcome <;> rfl
  | _ => rfl

@[simp] theorem isAnswered_unobserved : phase.unobserved.isAnswered = phase.isAnswered := by
  cases phase with
  | ended outcome => cases outcome <;> rfl
  | _ => rfl

@[simp] theorem unobserved_eq_unstarted : phase.unobserved = .unstarted ↔ phase = .unstarted := by
  cases phase with
  | ended outcome => cases outcome <;> simp [unobserved]
  | _ => simp [unobserved]

@[simp] theorem unobserved_eq_waiting : phase.unobserved = .waiting ↔ phase = .waiting := by
  cases phase with
  | ended outcome => cases outcome <;> simp [unobserved]
  | _ => simp [unobserved]

end Phase

/-- The linting without its observers. -/
def unobserved (linting : Linting) : Linting :=
  { linting with phase := linting.phase.unobserved, audience := .empty }

@[simp] theorem unobserved_unobserved (linting : Linting) :
    linting.unobserved.unobserved = linting.unobserved := by
  simp [unobserved]

/-- Whether an effect is the call of an observer. -/
def Effect.isCall : Effect → Bool
  | called _ _ _ => true
  | _ => false

namespace Progress

/-- What has been done without the calls of observers. -/
def unobserved (progress : Progress) : Progress :=
  ⟨progress.linting.unobserved, progress.effects.filter (!·.isCall)⟩

variable {progress : Progress}

@[simp] theorem unobserved_unobserved : progress.unobserved.unobserved = progress.unobserved := by
  simp [unobserved]

theorem unobserved_start (linting : Linting) :
    (start linting).unobserved = start linting.unobserved := rfl

theorem unobserved_emit
    {effect : Effect}
    (silent : effect.isCall = false)
    (progress : Progress) :
    (progress.emit effect).unobserved = progress.unobserved.emit effect := by
  simp [unobserved, emit, silent]

theorem unobserved_log (progress : Progress) (level : LogLevel) (message : String) :
    (progress.log level message).unobserved = progress.unobserved.log level message :=
  unobserved_emit rfl progress

theorem unobserved_called (progress : Progress) (labels : List String) :
    (progress.called labels).unobserved = progress.unobserved := by
  have silent : ∀ effects : List Effect,
      (effects ++ labels.map (Effect.called · progress.linting.state
        progress.linting.diagnostics.size)).filter (!·.isCall) = effects.filter (!·.isCall) := by
    intro effects
    simp [List.filter_append, Effect.isCall]
  simp only [unobserved, linting_called, effects_called, silent]

/-- Whether the last member is done does not depend on observers. -/
theorem unobserved_ready (progress : Progress) (message : String) :
    (if progress.linting.pending = 0 && progress.linting.phase = .waiting then
        ((progress.log .debug message).modify fun linting =>
          { linting with phase := .settled }).emit (.soon .run)
      else progress.log .debug message).unobserved =
      if progress.unobserved.linting.pending = 0 && progress.unobserved.linting.phase = .waiting then
        ((progress.unobserved.log .debug message).modify fun linting =>
          { linting with phase := .settled }).emit (.soon .run)
      else progress.unobserved.log .debug message := by
  have waits : decide (progress.unobserved.linting.phase = .waiting) =
      decide (progress.linting.phase = .waiting) := by
    simp [unobserved, Linting.unobserved]
  have pending_eq : progress.unobserved.linting.pending = progress.linting.pending := rfl
  rw [waits, pending_eq, ← unobserved_log]
  split
  · exact unobserved_emit rfl _
  · rfl

theorem unobserved_countDone (progress : Progress) (index : Nat) :
    (progress.countDone index).unobserved = progress.unobserved.countDone index := by
  unfold countDone
  rw [show progress.unobserved.member? index = progress.member? index from rfl]
  split
  · rfl
  · exact unobserved_ready _ _

theorem unobserved_absorb (index : Nat) (progress : Progress) (effect : Member.Effect) :
    (absorb index progress effect).unobserved = absorb index progress.unobserved effect := by
  cases effect with
  | delivered diagnostic => rfl
  | finished => exact unobserved_countDone progress index
  | _ => exact unobserved_emit rfl progress

/-- Following a member, nobody observes. -/
theorem unobserved_follow (progress : Progress) (index : Nat) (course : Member.Course) :
    (progress.follow index course).unobserved = progress.unobserved.follow index course := by
  have folded : ∀ (effects : List Member.Effect) (progress : Progress),
      (effects.foldl (absorb index) progress).unobserved =
        effects.foldl (absorb index) progress.unobserved := by
    intro effects
    induction effects with
    | nil => exact fun _ => rfl
    | cons effect rest ih =>
      intro progress
      rw [List.foldl_cons, List.foldl_cons, ih, unobserved_absorb]
  exact folded course.effects (progress.setMember index course.member)

theorem unobserved_invoke (progress : Progress) (index : Nat) (now : Rat) :
    ((progress.invoke index now).1.unobserved, (progress.invoke index now).2) =
      progress.unobserved.invoke index now := by
  unfold invoke
  rw [show progress.unobserved.member? index = progress.member? index from rfl]
  split
  · rfl
  · rw [unobserved_follow, unobserved_emit rfl]
    rfl

theorem unobserved_invokeAll (progress : Progress) (now : Rat) (indices : List Nat) :
    ((progress.invokeAll now indices).1.unobserved, (progress.invokeAll now indices).2) =
      progress.unobserved.invokeAll now indices := by
  induction indices generalizing progress with
  | nil => rfl
  | cons index rest ih =>
    have invoked := unobserved_invoke progress index now
    simp only [invokeAll, ← invoked]
    split
    · exact ih _
    · rfl

theorem unobserved_close (progress : Progress) (outcome : Outcome) :
    (progress.close outcome).unobserved =
      (progress.unobserved.modify fun linting =>
        { linting with phase := (Phase.ended outcome).unobserved }).emit .ended := by
  simp [close, unobserved, modify, emit, Linting.unobserved, Effect.isCall]

/-- Freeze the diagnostics and come to the end, with nobody to call. -/
def conclude (progress : Progress) : Progress :=
  let frozen := progress.modify fun linting =>
    { linting with
      diagnostics := linting.diagnostics.freeze, state := linting.diagnostics.freeze.state }
  let linting := frozen.linting
  (frozen.log .debug s!"Linting of {linting.name} finished: {linting.state.word}").close .completed

/-- Whether observers of the end fail or not, the run comes to its end in the same way. -/
theorem unobserved_finish (progress : Progress) :
    progress.finish.unobserved = progress.unobserved.conclude := by
  have gathered : ∀ (progress : Progress) (audience : Audience) (labels : List String),
      ((progress.modify fun linting => { linting with audience := audience }).called
        labels).unobserved = progress.unobserved := by
    intro progress audience labels
    rw [unobserved_called]
    rfl
  simp only [finish]
  split
  · rw [unobserved_close, gathered, unobserved_log]
    rfl
  · rw [unobserved_close, gathered, unobserved_log]
    rfl

theorem unobserved_begin (progress : Progress) (now : Rat) :
    (progress.begin now).unobserved = (progress.unobserved.begin now).unobserved := by
  have every : ((progress.invokeEvery now).1.unobserved, (progress.invokeEvery now).2) =
      progress.unobserved.invokeEvery now :=
    unobserved_invokeAll progress.enter now (List.range progress.linting.members.length)
  simp only [begin, ← every]
  cases (progress.invokeEvery now).2 with
  | some failure => simp only [unobserved_close, unobserved_unobserved]
  | none =>
    simp only
    rw [show (progress.invokeEvery now).1.unobserved.linting.pending =
      (progress.invokeEvery now).1.linting.pending from rfl]
    split
    · simp only [unobserved, modify, Linting.unobserved, Phase.unobserved, List.filter_filter,
        Bool.and_self]
    · rw [unobserved_finish, unobserved_finish, unobserved_unobserved]

end Progress

/-- Without its observers, a linting takes the same turns. -/
theorem unobserved_take (linting : Linting) (now : Rat) (turn : Turn) :
    (linting.take now turn).unobserved = (linting.unobserved.take now turn).unobserved := by
  have idle : (Progress.start linting).unobserved = (Progress.start linting.unobserved).unobserved := by
    rw [Progress.unobserved_start, Progress.unobserved_start, unobserved_unobserved]
  have phase_eq : linting.unobserved.phase = linting.phase.unobserved := rfl
  cases turn with
  | run =>
    simp only [Linting.take, Progress.take, Progress.linting_start, phase_eq]
    cases linting.phase with
    | scheduled => exact Progress.unobserved_begin (.start linting) now
    | settled =>
      refine (Progress.unobserved_finish (.start linting)).trans ?_
      rw [idle]
      exact (Progress.unobserved_finish (.start linting.unobserved)).symm
    | ended outcome => cases outcome <;> exact idle
    | _ => exact idle
  | member index own =>
    simp only [Linting.take, Progress.take, Progress.takeMember]
    rw [show (Progress.start linting.unobserved).member? index =
      (Progress.start linting).member? index from rfl]
    split
    · exact idle
    · rw [Progress.unobserved_follow, Progress.unobserved_follow, idle]
      rfl

theorem isStarted_unobserved (linting : Linting) :
    linting.unobserved.isStarted = linting.isStarted := by
  rw [Bool.eq_iff_iff]
  simp [isStarted, unobserved]

/-- Without its observers, a linting is started in the same way. -/
theorem unobserved_start (linting : Linting) :
    linting.start.1.unobserved = linting.unobserved.start.1.unobserved := by
  simp only [Linting.start, isStarted_unobserved]
  split
  · rw [Progress.unobserved_start, Progress.unobserved_start, unobserved_unobserved]
  · simp only [Progress.unobserved_called]
    rfl

/-- Subscribing an observer changes nothing but the observers. -/
theorem unobserved_subscribe (linting : Linting) (milestone : Milestone) (observer : Observer) :
    (linting.subscribe milestone observer).1.unobserved = .start linting.unobserved := by
  simp only [Linting.subscribe, Progress.unobserved_called]
  rfl

end Linting
end MarkupLint
