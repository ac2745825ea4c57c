import MarkupLint.Proofs.Linting.Pending
import MarkupLint.Proofs.Linting.Story

/-!
# The chronicle of a linting

Requests to a linting and its turns are told as a story.  The story stays faithful to the audience;
the observers of the end see the final state and the final diagnostics; and the run ends with the
failures that escape from the observers that waited for the end.
-/

namespace MarkupLint
namespace Linting

open Event

/-- What an observer sees of a linting now. -/
def scene (linting : Linting) : Scene := ⟨linting.state, linting.diagnostics⟩

/-- What starting leads to. -/
def startEvents (linting : Linting) : List Event :=
  if linting.isStarted then [] else linting.audience.announceEvents linting.scene .started

/-- What a turn leads to: it may come to the end. -/
def turnEvents (linting : Linting) (now : Rat) (turn : Turn) : List Event :=
  let later := (linting.take now turn).linting
  if later.phase.isClosed && !linting.phase.isClosed then
    linting.audience.announceEvents later.scene .done
  else []

/-- The call of an observer that an effect stands for. -/
def Effect.observed? : Effect → Option ObservedCall
  | .called label state size => some ⟨label, state, size⟩
  | _ => none

/-- The calls of observers that effects stand for, in order. -/
def observed (effects : List Effect) : List ObservedCall := effects.filterMap Effect.observed?

/-- The outcome of a run whose observers of the end fail with the given failures. -/
def outcomeWith (name : String) (failures : List Failure) : Outcome :=
  match failures with
  | [] => .completed
  | _ =>
    .failed (.grouped
      ⟨s!"{failures.length} {Milestone.done.word} observer(s) of {name} failed", failures⟩)

namespace Progress

variable {progress : Progress} {index : Nat} {now : Rat}

theorem outcomeOf_eq {round : Audience.Round} (calm : round.escape? = none) (name : String) :
    outcomeOf name round = outcomeWith name round.failures := by
  unfold outcomeOf outcomeWith ObserverFailure.ofRound?
  rw [calm]
  cases round.failures <;> rfl

theorem observed_emit (effect : Effect) :
    observed (progress.emit effect).effects =
      observed progress.effects ++ effect.observed?.toList := by
  simp only [emit, observed, List.filterMap_append, List.filterMap_cons, List.filterMap_nil]
  cases effect.observed? <;> rfl

theorem observed_called (labels : List String) :
    observed (progress.called labels).effects =
      observed progress.effects ++
        labels.map (⟨·, progress.linting.state, progress.linting.diagnostics.size⟩) := by
  rw [effects_called]
  simp [observed, List.filterMap_map, Function.comp_def, Effect.observed?]

/-- Turns of members call no observers. -/
theorem observed_follow (course : Member.Course) :
    observed (progress.follow index course).effects = observed progress.effects :=
  filterMap_follow ⟨fun _ => rfl, fun _ _ => rfl, fun _ => rfl, fun _ => rfl⟩ course

theorem observed_invoke :
    observed (progress.invoke index now).1.effects = observed progress.effects := by
  cases invoked progress index now with
  | nobody unknown same => rw [same]
  | member member record known same =>
    rw [same, observed_follow, observed_emit]
    exact List.append_nil _

theorem keeps_invoke : Keeps progress.linting (progress.invoke index now).1.linting := by
  cases invoked progress index now with
  | nobody unknown same =>
    rw [same]
    exact ⟨rfl, rfl, rfl⟩
  | member member record known same =>
    rw [same]
    exact (@followed_follow (progress.emit (.invoked index record)) index member _ known
      (member.conduct_invoke _ now)).toKeeps

/-- At the end, the observers of the end are called with the final state. -/
theorem observed_finish :
    observed progress.finish.effects =
      observed progress.effects ++ (progress.linting.audience.announce .done).labels.map
        (⟨·, progress.finish.linting.state, progress.finish.linting.diagnostics.size⟩) := by
  have closed : ∀ (before : Progress) (outcome : Outcome),
      observed (before.close outcome).effects = observed before.effects := by
    intro before outcome
    simp [close, modify, observed, emit, Effect.observed?]
  rw [linting_finish]
  simp only [finish]
  split <;>
    rw [closed, observed_called] <;>
    simp [modify, log, observed_emit, Effect.observed?]

end Progress

/-- What a turn does to the audience. -/
inductive Heard (before : Linting) (after : Progress) : Prop where
  | nothing
      (setting_eq : after.linting.toSetting = before.toSetting)
      (audience_eq : after.linting.audience = before.audience)
      (isClosed_eq : after.linting.phase.isClosed = before.phase.isClosed)
      (observed_eq : observed after.effects = [])
  | ended
      (setting_eq : after.linting.toSetting = before.toSetting)
      (isClosed_eq : before.phase.isClosed = false)
      (isEarly_eq : before.phase ≠ .unstarted)
      (audience_eq : after.linting.audience = (before.audience.announce .done).audience)
      (phase_eq : after.linting.phase =
        .ended (Progress.outcomeOf before.name (before.audience.announce .done)))
      (observed_eq : observed after.effects =
        (before.audience.announce .done).labels.map
          (⟨·, after.linting.state, after.linting.diagnostics.size⟩))

namespace Heard

variable {linting : Linting}

theorem finish
    {progress : Progress}
    (keeps : Progress.Keeps linting progress.linting)
    (quiet : observed progress.effects = [])
    (opened : linting.phase.isClosed = false)
    (started : linting.phase ≠ .unstarted) :
    Heard linting progress.finish := by
  have called := progress.observed_finish
  have same : progress.linting.name = linting.name :=
    congrArg Setting.name keeps.setting_eq
  rw [keeps.audience_eq, quiet, List.nil_append] at called
  refine .ended ?_ opened started ?_ ?_ called
  · rw [Progress.linting_finish, keeps.setting_eq]
  · rw [Progress.linting_finish, keeps.audience_eq]
  · rw [Progress.linting_finish, keeps.audience_eq, same]

theorem begin
    (scheduled : linting.phase = .scheduled)
    (now : Rat) :
    Heard linting ((Progress.start linting).begin now) := by
  have opened : linting.phase.isClosed = false := by rw [scheduled]; rfl
  have every : Progress.Keeps linting ((Progress.start linting).invokeEvery now).1.linting ∧
      observed ((Progress.start linting).invokeEvery now).1.effects = [] :=
    @Progress.invokeAll_induction
      (fun progress => Progress.Keeps linting progress.linting ∧ observed progress.effects = []) now
      (fun _ _ kept => ⟨kept.1.trans Progress.keeps_invoke, Progress.observed_invoke.trans kept.2⟩)
      _ ⟨⟨rfl, rfl, rfl⟩, rfl⟩ _
  obtain ⟨keeps, silent⟩ := every
  cases (Progress.start linting).begun now with
  | stopped failure stops same =>
    rw [same]
    refine .nothing keeps.setting_eq keeps.audience_eq ?_ ?_
    · rw [opened]
      rfl
    · simpa [Progress.close, Progress.modify, Progress.observed_emit, Effect.observed?] using silent
  | waiting goesOn some same =>
    rw [same]
    refine .nothing keeps.setting_eq keeps.audience_eq ?_ silent
    rw [opened]
    rfl
  | finished goesOn none same =>
    rw [same]
    exact finish keeps silent opened (by simp [scheduled])

/-- A turn lets the audience alone, or it comes to the end. -/
theorem take (linting : Linting) (now : Rat) (turn : Turn) :
    Heard linting (linting.take now turn) := by
  cases taken linting now turn with
  | nothing idle nobody same =>
    rw [same]
    exact .nothing rfl rfl rfl rfl
  | begin isRun scheduled same =>
    rw [same]
    exact begin scheduled now
  | finish isRun settled same =>
    rw [same]
    exact finish ⟨rfl, rfl, rfl⟩ rfl (by rw [settled]; rfl) (by simp [settled])
  | member index own member isMember known same =>
    rw [same]
    have followed := @Progress.followed_follow (.start linting) index member _ known
      (member.conduct_take linting.toSetting now own)
    refine .nothing followed.setting_eq followed.audience_eq ?_ (Progress.observed_follow _)
    rw [followed.phase_eq]
    split
    · next settles =>
      rw [show linting.phase = .waiting from settles.2.2]
      rfl
    · rfl

end Heard

section

variable {linting : Linting} {now : Rat} {turn : Turn}

theorem isClosed_outcomeWith (name : String) (failures : List Failure) :
    (Phase.ended (outcomeWith name failures)).isClosed = true := by
  unfold outcomeWith
  split <;> rfl

theorem turnEvents_of_isClosed_eq
    (isClosed_eq : (linting.take now turn).linting.phase.isClosed = linting.phase.isClosed) :
    linting.turnEvents now turn = [] := by
  simp only [turnEvents, isClosed_eq]
  simp

theorem turnEvents_of_isClosed
    (opened : linting.phase.isClosed = false)
    (closed : (linting.take now turn).linting.phase.isClosed = true) :
    linting.turnEvents now turn =
      linting.audience.announceEvents (linting.take now turn).linting.scene .done := by
  simp [turnEvents, opened, closed]

/-- A turn calls the observers of which the story tells. -/
theorem observed_take
    (ordinary : ∀ observer ∈ linting.audience.waitingFor .done, observer.IsOrdinary) :
    observed (linting.take now turn).effects =
      (linting.turnEvents now turn).filterMap record? := by
  cases Heard.take linting now turn with
  | nothing setting_eq audience_eq isClosed_eq observed_eq =>
    rw [observed_eq, turnEvents_of_isClosed_eq isClosed_eq]
    rfl
  | ended setting_eq isClosed_eq started audience_eq phase_eq observed_eq =>
    have closed : (linting.take now turn).linting.phase.isClosed = true := by
      rw [phase_eq, Progress.isClosed_outcomeOf]
    rw [observed_eq, turnEvents_of_isClosed isClosed_eq closed,
      Audience.record?_announceEvents ordinary]
    rfl

/-- Starting calls the observers of which the story tells. -/
theorem observed_start
    (ordinary : ∀ observer ∈ linting.audience.waitingFor .started, observer.IsOrdinary) :
    observed linting.start.1.effects = linting.startEvents.filterMap record? := by
  simp only [Linting.start, startEvents]
  split
  · rfl
  · rw [Audience.record?_announceEvents ordinary, Progress.observed_called]
    rfl

/-- A subscription calls the observers of which the story tells. -/
theorem observed_subscribe (milestone : Milestone) (observer : Observer) :
    observed (linting.subscribe milestone observer).1.effects =
      (linting.audience.subscribeEvents linting.scene milestone observer).filterMap record? := by
  simp only [Linting.subscribe]
  rw [Audience.record?_subscribeEvents, Progress.observed_called]
  rfl

end

/-- A story tells what became of a linting and its observers. -/
structure Chronicled (linting : Linting) (story : List Event) : Prop where
  balanced : Balanced linting
  faithful : linting.audience.Faithful story
  /-- The observers of the end have seen the state and the diagnostics that are final. -/
  seen : ∀ observer scene, .called .done observer scene ∈ story →
    linting.phase.isClosed = true ∧ scene = linting.scene
  /-- The run has ended with the failures of those who waited for the end. -/
  ended : linting.phase.isClosed = true →
    linting.phase = .ended (outcomeWith linting.name
      ((subscriptions .done (early .done story)).filterMap Observer.escape?))

namespace Chronicled

variable {linting : Linting} {story : List Event}

theorem new
    (document : Document)
    (rules : RuleSet)
    (timeout? : Option Binary64)
    (precision : Precision) :
    Chronicled (.new document rules timeout? precision) [] where
  balanced := .new document rules timeout? precision
  faithful := .empty
  seen := by simp
  ended := by simp [Linting.new, Phase.isClosed]

/-- As long as the end has not been reached, no observer of it has been called. -/
theorem uncalled
    (chronicled : Chronicled linting story)
    (opened : linting.phase.isClosed = false)
    (observer : Observer)
    (scene : Scene) :
    .called .done observer scene ∉ story := by
  intro told
  have closed := (chronicled.seen observer scene told).1
  rw [opened] at closed
  contradiction

/-- Once the end has been reached, the story tells so. -/
theorem mem_reached
    (chronicled : Chronicled linting story)
    (closed : linting.phase.isClosed = true) :
    .reached .done ∈ story := by
  rw [chronicled.faithful.mem_reached_iff, chronicled.balanced.isDone_eq, closed]

/-- A subscription is told. -/
theorem subscribe
    {observer : Observer}
    (chronicled : Chronicled linting story)
    (ordinary : observer.IsOrdinary)
    (milestone : Milestone) :
    Chronicled (linting.subscribe milestone observer).1.linting
      (story ++ linting.audience.subscribeEvents linting.scene milestone observer) := by
  have balanced := chronicled.balanced.subscribe milestone observer
  simp only [Linting.subscribe, Progress.linting_called, Progress.linting_start] at balanced ⊢
  refine ⟨balanced, chronicled.faithful.subscribe ordinary linting.scene milestone, ?_, ?_⟩
  · intro callee scene told
    rcases List.mem_append.mp told with earlier | now
    · exact chronicled.seen callee scene earlier
    · refine ⟨?_, Audience.scene_of_mem_subscribeEvents now⟩
      rw [← Bool.not_eq_false]
      intro opened
      have calls := (linting.audience.segment_subscribeEvents linting.scene milestone
        observer).calls_eq .done
      rw [chronicled.balanced.isDone_eq, opened] at calls
      simpa [calls] using mem_calls now
  · intro closed
    rw [early_append_of_mem (chronicled.mem_reached closed)]
    exact chronicled.ended closed

/-- Starting is told. -/
theorem start (chronicled : Chronicled linting story) :
    Chronicled linting.start.1.linting (story ++ linting.startEvents) := by
  have balanced := chronicled.balanced.start
  simp only [Linting.start, startEvents] at balanced ⊢
  split
  · simpa using chronicled
  · next idle =>
    rw [if_neg idle] at balanced
    have unstarted : linting.phase = .unstarted := by simpa [isStarted] using idle
    have opened : linting.phase.isClosed = false := by rw [unstarted]; rfl
    have ahead : linting.audience.hasReached .started = false := by
      rw [chronicled.balanced.isStarted_eq]
      simpa using idle
    have endAhead : linting.audience.hasReached .done = false := by
      rw [chronicled.balanced.isDone_eq, opened]
    simp only [Progress.linting_called, Progress.linting_modify, Progress.linting_emit,
      Progress.linting_start] at balanced ⊢
    refine ⟨balanced, chronicled.faithful.announce linting.scene .started ahead, ?_, by
      simp [Phase.isClosed]⟩
    intro callee scene told
    rcases List.mem_append.mp told with earlier | now
    · exact absurd earlier (chronicled.uncalled opened callee scene)
    · have calls := linting.audience.calls_announceEvents_of_ahead linting.scene
        (by simp : Milestone.done ≠ .started) endAhead
      simpa [calls] using mem_calls now

/-- A turn is told. -/
theorem take (chronicled : Chronicled linting story) (now : Rat) (turn : Turn) :
    Chronicled (linting.take now turn).linting (story ++ linting.turnEvents now turn) := by
  have balanced := chronicled.balanced.take now turn
  cases Heard.take linting now turn with
  | nothing setting_eq audience_eq isClosed_eq observed_eq =>
    rw [turnEvents_of_isClosed_eq isClosed_eq, List.append_nil]
    have faithful := chronicled.faithful
    rw [← audience_eq] at faithful
    cases closed : linting.phase.isClosed
    · refine ⟨balanced, faithful, ?_, ?_⟩
      · intro callee scene told
        exact absurd told (chronicled.uncalled closed callee scene)
      · rw [isClosed_eq, closed]
        simp
    · have same := chronicled.balanced.same_of_isClosed closed (.take now turn)
      simp only [move] at same
      refine ⟨balanced, faithful, ?_, ?_⟩
      · intro callee scene told
        rw [isClosed_eq]
        simpa only [Linting.scene, same] using chronicled.seen callee scene told
      · intro _
        rw [same.2.2, congrArg Setting.name setting_eq]
        exact chronicled.ended closed
  | ended setting_eq isClosed_eq started audience_eq phase_eq observed_eq =>
    have closed : (linting.take now turn).linting.phase.isClosed = true := by
      rw [phase_eq, Progress.isClosed_outcomeOf]
    have ahead : linting.audience.hasReached .done = false := by
      rw [chronicled.balanced.isDone_eq, isClosed_eq]
    have behind : linting.audience.isStarted = true := by
      rw [show linting.audience.isStarted = linting.isStarted from chronicled.balanced.isStarted_eq]
      simpa [isStarted] using started
    obtain ⟨untold, -, waiting⟩ := chronicled.faithful.ahead .done ahead
    rw [turnEvents_of_isClosed isClosed_eq closed]
    refine ⟨balanced, ?_, ?_, ?_⟩
    · rw [audience_eq]
      exact chronicled.faithful.announce _ .done ahead
    · intro callee scene called
      rcases List.mem_append.mp called with earlier | now
      · exact absurd earlier (chronicled.uncalled isClosed_eq callee scene)
      · exact ⟨closed, Audience.scene_of_mem_announceEvents now⟩
    · intro _
      obtain ⟨failures, calm⟩ := Audience.failures_announce_done
        (fun observer waits =>
          @Audience.Faithful.ordinary_of_mem_waitingFor _ _ .done observer chronicled.faithful waits)
        behind
      rw [show linting.audience.forEnd = _ from waiting] at failures
      rw [phase_eq, Progress.outcomeOf_eq calm, failures, congrArg Setting.name setting_eq,
        Audience.announceEvents, early_append_cons untold]

end Chronicled

end Linting
end MarkupLint
