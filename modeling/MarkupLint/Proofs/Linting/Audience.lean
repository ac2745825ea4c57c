import MarkupLint.Linting.Observer

/-!
# Audiences

Calling observers never changes which milestones lie behind; it only lets further observers wait
for the others.  What escapes from a call depends on the milestones that lie behind, and on nothing
else.
-/

namespace MarkupLint
namespace Linting
namespace Conduct

/-- The failure that escapes when certain milestones lie behind. -/
def escape? (isBehind : Milestone → Bool) : Conduct → Option Failure
  | leave => none
  | fail failure => some failure
  | subscribe milestone _ other next =>
    if isBehind milestone then (next (other.escape? isBehind)).escape? isBehind
    else (next none).escape? isBehind

/-- All failures are such that those who handle failures handle them, provided that those of the others
are. -/
def IsOrdinary : Conduct → Prop
  | leave => True
  | fail failure => failure.isException = true
  | subscribe _ _ other next =>
    other.IsOrdinary ∧ ∀ failure? : Option Failure,
      (∀ failure ∈ failure?, failure.isException = true) → (next failure?).IsOrdinary

theorem isException_of_escape?
    {isBehind : Milestone → Bool}
    {conduct : Conduct}
    (ordinary : conduct.IsOrdinary) :
    ∀ failure ∈ conduct.escape? isBehind, failure.isException = true := by
  induction conduct with
  | leave => simp [escape?]
  | fail failure => simpa [escape?, IsOrdinary] using ordinary
  | subscribe milestone label other next othersEscape nextEscape =>
    rw [escape?]
    split
    · exact nextEscape _ (ordinary.2 _ (othersEscape ordinary.1))
    · exact nextEscape none (ordinary.2 none (by simp))

end Conduct

namespace Observer

/-- The failure that escapes from an observer when certain milestones lie behind. -/
def escapeBehind? (isBehind : Milestone → Bool) (observer : Observer) : Option Failure :=
  observer.conduct.escape? isBehind

/-- The failure that escapes from an observer when both milestones lie behind. -/
def escape? (observer : Observer) : Option Failure := observer.escapeBehind? fun _ => true

/-- An observer fails only with what those who handle failures handle, provided that the others do. -/
def IsOrdinary (observer : Observer) : Prop := observer.conduct.IsOrdinary

theorem escapeBehind?_of_forall
    {isBehind : Milestone → Bool}
    (behind : ∀ milestone, isBehind milestone = true)
    (observer : Observer) :
    observer.escapeBehind? isBehind = observer.escape? :=
  congrArg observer.escapeBehind? (funext behind)

end Observer

namespace Audience

/-- The observers that wait for a milestone, in the order of subscription. -/
def waitingFor (audience : Audience) : Milestone → List Observer
  | .started => audience.forStart
  | .done => audience.forEnd

theorem hasReached_enqueue
    (audience : Audience)
    (milestone other : Milestone)
    (observer : Observer) :
    (audience.enqueue milestone observer).hasReached other = audience.hasReached other := by
  cases milestone <;> cases other <;> rfl

theorem waitingFor_enqueue
    (audience : Audience)
    (milestone other : Milestone)
    (observer : Observer) :
    (audience.enqueue milestone observer).waitingFor other =
      audience.waitingFor other ++ if other = milestone then [observer] else [] := by
  cases milestone <;> cases other <;> simp [enqueue, waitingFor]

theorem hasReached_reach (audience : Audience) (milestone other : Milestone) :
    (audience.reach milestone).1.hasReached other =
      (decide (other = milestone) || audience.hasReached other) := by
  cases milestone <;> cases other <;> simp [reach, hasReached]

theorem waitingFor_reach (audience : Audience) (milestone other : Milestone) :
    (audience.reach milestone).1.waitingFor other =
      if other = milestone then [] else audience.waitingFor other := by
  cases milestone <;> cases other <;> simp [reach, waitingFor]

theorem reach_snd (audience : Audience) (milestone : Milestone) :
    (audience.reach milestone).2 = audience.waitingFor milestone := by
  cases milestone <;> rfl

end Audience

namespace Conduct

/-- Whatever observers do, they bring no milestone about. -/
@[simp] theorem hasReached_run
    (conduct : Conduct)
    (audience : Audience)
    (milestone : Milestone) :
    (conduct.run audience).audience.hasReached milestone = audience.hasReached milestone := by
  induction conduct generalizing audience with
  | leave => rfl
  | fail failure => rfl
  | subscribe other label inner next innerKeeps nextKeeps =>
    simp only [run]
    split
    · simp only [nextKeeps, innerKeeps]
    · rw [nextKeeps, Audience.hasReached_enqueue]

/-- The failure that escapes depends on the milestones that lie behind. -/
theorem failure?_run (conduct : Conduct) (audience : Audience) :
    (conduct.run audience).failure? = conduct.escape? audience.hasReached := by
  induction conduct generalizing audience with
  | leave => rfl
  | fail failure => rfl
  | subscribe milestone label inner next innerFails nextFails =>
    simp only [run, escape?]
    split
    · rw [nextFails, innerFails, funext (inner.hasReached_run audience)]
    · rw [nextFails, funext fun other => audience.hasReached_enqueue milestone other ⟨label, inner⟩]

end Conduct

/-- Being called, an observer brings no milestone about. -/
@[simp] theorem Observer.hasReached_call
    (observer : Observer)
    (audience : Audience)
    (milestone : Milestone) :
    (observer.call audience).audience.hasReached milestone = audience.hasReached milestone :=
  observer.conduct.hasReached_run audience milestone

/-- The failure of a call depends on the milestones that lie behind. -/
theorem Observer.failure?_call (observer : Observer) (audience : Audience) :
    (observer.call audience).failure? = observer.escapeBehind? audience.hasReached :=
  observer.conduct.failure?_run audience

namespace Audience

/-- How the first of some observers is called, and what follows. -/
theorem callAll_cons (audience : Audience) (observer : Observer) (rest : List Observer) :
    (∃ failure, failure.isException = false ∧
        observer.escapeBehind? audience.hasReached = some failure ∧
        audience.callAll (observer :: rest) =
          ⟨(observer.call audience).audience, (observer.call audience).labels, [], some failure⟩) ∨
      (∀ failure ∈ observer.escapeBehind? audience.hasReached, failure.isException = true) ∧
        let others := (observer.call audience).audience.callAll rest
        audience.callAll (observer :: rest) =
          ⟨others.audience, (observer.call audience).labels ++ others.labels,
            (observer.escapeBehind? audience.hasReached).toList ++ others.failures,
            others.escape?⟩ := by
  rw [callAll, ← observer.failure?_call]
  cases failed : (observer.call audience).failure? with
  | none => exact .inr ⟨by simp, rfl⟩
  | some failure =>
    cases handled : failure.isException with
    | false => exact .inl ⟨failure, handled, rfl, by simp [Option.filter_some, handled]⟩
    | true => exact .inr ⟨by simpa using handled, by simp [Option.filter_some, handled]⟩

/-- Behind an observer whose failures are handled, the others are called. -/
theorem callAll_cons_of_isOrdinary
    {observer : Observer}
    (ordinary : observer.IsOrdinary)
    (audience : Audience)
    (rest : List Observer) :
    let others := (observer.call audience).audience.callAll rest
    audience.callAll (observer :: rest) =
      ⟨others.audience, (observer.call audience).labels ++ others.labels,
        (observer.escapeBehind? audience.hasReached).toList ++ others.failures,
        others.escape?⟩ := by
  rcases audience.callAll_cons observer rest with ⟨failure, unhandled, escapes, -⟩ | ⟨-, same⟩
  · have handled := Conduct.isException_of_escape? ordinary failure escapes
    rw [unhandled] at handled
    contradiction
  · exact same

@[simp] theorem hasReached_callAll
    (audience : Audience)
    (observers : List Observer)
    (milestone : Milestone) :
    (audience.callAll observers).audience.hasReached milestone =
      audience.hasReached milestone := by
  induction observers generalizing audience with
  | nil => rfl
  | cons observer rest ih =>
    rcases audience.callAll_cons observer rest with ⟨failure, -, -, same⟩ | ⟨-, same⟩
    · rw [same, Observer.hasReached_call]
    · rw [same, ih, Observer.hasReached_call]

/-- Announcing a milestone puts it behind, and no other one. -/
theorem hasReached_announce (audience : Audience) (milestone other : Milestone) :
    (audience.announce milestone).audience.hasReached other =
      (decide (other = milestone) || audience.hasReached other) := by
  simp only [announce, hasReached_callAll, hasReached_reach]

@[simp] theorem hasReached_subscribe
    (audience : Audience)
    (milestone other : Milestone)
    (observer : Observer) :
    (audience.subscribe milestone observer).audience.hasReached other =
      audience.hasReached other := by
  unfold subscribe
  split
  · exact observer.hasReached_call audience other
  · exact audience.hasReached_enqueue milestone other observer

/-- The failures are those that escape from the observers, all of which are called if their failures
are handled. -/
theorem failures_callAll
    {observers : List Observer}
    (ordinary : ∀ observer ∈ observers, observer.IsOrdinary)
    (audience : Audience) :
    (audience.callAll observers).failures =
        observers.filterMap (Observer.escapeBehind? audience.hasReached) ∧
      (audience.callAll observers).escape? = none := by
  induction observers generalizing audience with
  | nil => exact ⟨rfl, rfl⟩
  | cons observer rest ih =>
    have kept : (observer.call audience).audience.hasReached = audience.hasReached :=
      funext (observer.hasReached_call audience)
    obtain ⟨failures_eq, calm⟩ := ih (fun other known => ordinary other (List.mem_cons_of_mem _ known))
      (observer.call audience).audience
    rw [callAll_cons_of_isOrdinary (ordinary observer List.mem_cons_self)]
    refine ⟨?_, calm⟩
    simp only [failures_eq, kept, List.filterMap_cons]
    cases observer.escapeBehind? audience.hasReached <;> rfl

/-- When a milestone is reached, the failures are those that escape from the observers of it. -/
theorem failures_announce
    {audience : Audience}
    {milestone : Milestone}
    (ordinary : ∀ observer ∈ audience.waitingFor milestone, observer.IsOrdinary) :
    (audience.announce milestone).failures =
        (audience.waitingFor milestone).filterMap (Observer.escapeBehind? fun other =>
          decide (other = milestone) || audience.hasReached other) ∧
      (audience.announce milestone).escape? = none := by
  rw [announce, reach_snd, ← funext (audience.hasReached_reach milestone)]
  exact failures_callAll ordinary _

/-- When the end is reached behind the start, the failures are those that escape from the observers
of the end. -/
theorem failures_announce_done
    {audience : Audience}
    (ordinary : ∀ observer ∈ audience.forEnd, observer.IsOrdinary)
    (started : audience.isStarted = true) :
    (audience.announce .done).failures = audience.forEnd.filterMap Observer.escape? ∧
      (audience.announce .done).escape? = none := by
  obtain ⟨failures_eq, calm⟩ := @failures_announce audience .done ordinary
  refine ⟨failures_eq.trans ?_, calm⟩
  congr 1
  funext observer
  apply observer.escapeBehind?_of_forall
  intro milestone
  cases milestone
  · simpa [hasReached] using started
  · simp

end Audience
end Linting
end MarkupLint
