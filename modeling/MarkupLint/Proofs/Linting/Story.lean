import MarkupLint.Linting.Session
import MarkupLint.Proofs.Linting.Audience

/-!
# What is told of observers

The story of a session says, in order, which observers subscribed to which milestones, which
milestones were reached, and which observers were called.  In a faithful story, an observer of a
milestone that has been reached is called exactly once: in the order of subscription if it
subscribed before, and at the moment of its subscription otherwise.
-/

namespace MarkupLint
namespace Linting

/-- What an observer sees of a linting. -/
structure Scene where
  state : LintState
  diagnostics : Collection
deriving DecidableEq, Repr

/-- Something that happens to observers. -/
inductive Event where
  | subscribed (milestone : Milestone) (observer : Observer)
  | reached (milestone : Milestone)
  | called (milestone : Milestone) (observer : Observer) (scene : Scene)

namespace Event

/-- The observer that subscribes to the milestone. -/
def subscriber? (milestone : Milestone) : Event → Option Observer
  | subscribed other observer => if other = milestone then some observer else none
  | _ => none

/-- The observer of the milestone that is called. -/
def callee? (milestone : Milestone) : Event → Option Observer
  | called other observer _ => if other = milestone then some observer else none
  | _ => none

/-- Whether the milestone is reached. -/
def isReached (milestone : Milestone) : Event → Bool
  | reached other => other = milestone
  | _ => false

@[simp] theorem isReached_iff {milestone : Milestone} {event : Event} :
    event.isReached milestone = true ↔ event = reached milestone := by
  cases event <;> simp [isReached]

/-- The call as a session records it. -/
def record? : Event → Option ObservedCall
  | called _ observer scene => some ⟨observer.label, scene.state, scene.diagnostics.size⟩
  | _ => none

/-- The observers that subscribe to the milestone, in order. -/
def subscriptions (milestone : Milestone) (story : List Event) : List Observer :=
  story.filterMap (subscriber? milestone)

/-- The observers of the milestone that are called, in order. -/
def calls (milestone : Milestone) (story : List Event) : List Observer :=
  story.filterMap (callee? milestone)

/-- The story up to the moment at which the milestone is reached. -/
def early (milestone : Milestone) (story : List Event) : List Event :=
  story.takeWhile fun event => !event.isReached milestone

/-- Whoever subscribes to the milestone is called at that moment. -/
def Prompt (milestone : Milestone) (story : List Event) : Prop :=
  ∀ before observer after, story = before ++ subscribed milestone observer :: after →
    ∃ scene rest, after = called milestone observer scene :: rest

/-- The milestone is reached once.  No observer of it is called before; behind it, those that
subscribed before are called in the order of subscription, those that subscribe later are called at
that moment, and nobody else is called, or is called twice. -/
def Served (milestone : Milestone) (story : List Event) : Prop :=
  ∃ before after, story = before ++ reached milestone :: after ∧
    .reached milestone ∉ before ∧ .reached milestone ∉ after ∧
    calls milestone before = [] ∧
    (calls milestone after).Perm
      (subscriptions milestone before ++ subscriptions milestone after) ∧
    (subscriptions milestone before).Sublist (calls milestone after) ∧
    Prompt milestone after

@[simp] theorem subscriptions_append (milestone : Milestone) (first second : List Event) :
    subscriptions milestone (first ++ second) =
      subscriptions milestone first ++ subscriptions milestone second :=
  List.filterMap_append

@[simp] theorem calls_append (milestone : Milestone) (first second : List Event) :
    calls milestone (first ++ second) = calls milestone first ++ calls milestone second :=
  List.filterMap_append

@[simp] theorem subscriptions_cons (milestone : Milestone) (event : Event) (rest : List Event) :
    subscriptions milestone (event :: rest) =
      (event.subscriber? milestone).toList ++ subscriptions milestone rest := by
  simp only [subscriptions, List.filterMap_cons]
  cases event.subscriber? milestone <;> rfl

@[simp] theorem calls_cons (milestone : Milestone) (event : Event) (rest : List Event) :
    calls milestone (event :: rest) = (event.callee? milestone).toList ++ calls milestone rest := by
  simp only [calls, List.filterMap_cons]
  cases event.callee? milestone <;> rfl

@[simp] theorem subscriptions_nil (milestone : Milestone) : subscriptions milestone [] = [] := rfl

@[simp] theorem calls_nil (milestone : Milestone) : calls milestone [] = [] := rfl

/-- What is told later changes nothing of the story up to a milestone. -/
theorem early_append_of_mem
    {milestone : Milestone}
    {story : List Event}
    (told : .reached milestone ∈ story)
    (rest : List Event) :
    early milestone (story ++ rest) = early milestone story := by
  induction story with
  | nil => simp at told
  | cons event others ih =>
    by_cases same : event = .reached milestone
    · simp [early, same, isReached]
    · have later : .reached milestone ∈ others := by
        simpa [Ne.symm same] using told
      have kept := ih later
      simp only [early, List.cons_append, List.takeWhile_cons] at kept ⊢
      rw [kept]

theorem early_append_cons
    {milestone : Milestone}
    {story : List Event}
    (untold : .reached milestone ∉ story)
    (rest : List Event) :
    early milestone (story ++ .reached milestone :: rest) = story := by
  unfold early
  rw [List.takeWhile_append_of_pos]
  · simp [isReached]
  · intro event told
    have other : event ≠ .reached milestone := fun same => untold (same ▸ told)
    rwa [Bool.not_eq_true', ← Bool.not_eq_true, isReached_iff]

/-- Who is called is told of. -/
theorem mem_calls
    {milestone : Milestone}
    {observer : Observer}
    {scene : Scene}
    {story : List Event}
    (told : .called milestone observer scene ∈ story) :
    observer ∈ calls milestone story :=
  List.mem_filterMap.mpr ⟨_, told, by simp [callee?]⟩

namespace Prompt

theorem nil (milestone : Milestone) : Prompt milestone [] := by
  intro before observer after same
  simp at same

theorem append
    {milestone : Milestone}
    {first second : List Event}
    (begun : Prompt milestone first)
    (ended : Prompt milestone second) :
    Prompt milestone (first ++ second) := by
  intro before observer after same
  rcases List.append_eq_append_iff.mp same with ⟨middle, rfl, later⟩ | ⟨middle, early, later⟩
  · exact ended middle observer after later
  · cases middle with
    | nil => exact ended [] observer after later.symm
    | cons event middle =>
      simp only [List.cons_append, List.cons.injEq] at later
      obtain ⟨rfl, rfl⟩ := later
      obtain ⟨scene, rest, rfl⟩ := begun before observer middle early
      exact ⟨scene, rest ++ second, rfl⟩

/-- Another event in front does not matter. -/
theorem cons
    {milestone : Milestone}
    {story : List Event}
    (prompt : Prompt milestone story)
    (event : Event)
    (other : ∀ observer, event ≠ subscribed milestone observer) :
    Prompt milestone (event :: story) := by
  intro before observer after same
  cases before with
  | nil =>
    simp only [List.nil_append, List.cons.injEq] at same
    exact absurd same.1 (other observer)
  | cons first before =>
    simp only [List.cons_append, List.cons.injEq] at same
    exact prompt before observer after same.2

/-- A subscriber who is called at once may stand in front. -/
theorem cons_cons
    {milestone : Milestone}
    {story : List Event}
    (prompt : Prompt milestone story)
    (other : Milestone)
    (observer : Observer)
    (scene : Scene) :
    Prompt milestone (subscribed other observer :: called other observer scene :: story) := by
  intro before subscriber after same
  cases before with
  | nil =>
    simp only [List.nil_append, List.cons.injEq, subscribed.injEq] at same
    obtain ⟨⟨rfl, rfl⟩, rfl⟩ := same
    exact ⟨scene, story, rfl⟩
  | cons first before =>
    simp only [List.cons_append, List.cons.injEq] at same
    exact prompt.cons _ (by simp) before subscriber after same.2

end Prompt
end Event

open Event

/-- What follows from what an observer does, while some milestones lie behind. -/
def Conduct.events (isBehind : Milestone → Bool) (scene : Scene) : Conduct → List Event
  | leave => []
  | fail _ => []
  | subscribe milestone label other next =>
    subscribed milestone ⟨label, other⟩ ::
      if isBehind milestone then
        called milestone ⟨label, other⟩ scene ::
          (other.events isBehind scene ++
            (next (other.escape? isBehind)).events isBehind scene)
      else (next none).events isBehind scene

/-- What a call of an observer of a milestone leads to, while some milestones lie behind. -/
def Observer.events
    (isBehind : Milestone → Bool)
    (scene : Scene)
    (milestone : Milestone)
    (observer : Observer) :
    List Event :=
  called milestone observer scene :: observer.conduct.events isBehind scene

namespace Audience

/-- What a subscription leads to. -/
def subscribeEvents
    (audience : Audience)
    (scene : Scene)
    (milestone : Milestone)
    (observer : Observer) :
    List Event :=
  subscribed milestone observer ::
    if audience.hasReached milestone then observer.events audience.hasReached scene milestone
    else []

/-- What reaching a milestone leads to. -/
def announceEvents (audience : Audience) (scene : Scene) (milestone : Milestone) : List Event :=
  let behind := (audience.reach milestone).1
  reached milestone ::
    (audience.waitingFor milestone).flatMap (·.events behind.hasReached scene milestone)

end Audience

/-- A stretch of a story in which no milestone is reached: whoever subscribes to a milestone that
lies behind is called at once, and nobody else is called. -/
structure Segment (isBehind : Milestone → Bool) (events : List Event) : Prop where
  unreached : ∀ milestone, .reached milestone ∉ events
  calls_eq : ∀ milestone, calls milestone events =
    if isBehind milestone then subscriptions milestone events else []
  prompt : ∀ milestone, isBehind milestone = true → Prompt milestone events

namespace Segment

variable {isBehind : Milestone → Bool}

theorem nil : Segment isBehind [] where
  unreached := by simp
  calls_eq := by simp
  prompt := fun milestone _ => .nil milestone

/-- A subscription to a milestone that does not lie behind leads to nothing else. -/
theorem waiting
    (milestone : Milestone)
    (observer : Observer)
    (ahead : isBehind milestone = false) :
    Segment isBehind [subscribed milestone observer] where
  unreached := by simp
  calls_eq := by
    intro other
    by_cases same : milestone = other
    · subst same
      simp [callee?, ahead]
    · simp [callee?, subscriber?, same]
  prompt := by
    intro other behind
    refine (Prompt.nil other).cons _ fun subscriber same => ?_
    simp only [subscribed.injEq] at same
    rw [same.1, behind] at ahead
    contradiction

/-- A subscription to a milestone that lies behind leads to a call at once. -/
theorem calling
    {events : List Event}
    (segment : Segment isBehind events)
    (milestone : Milestone)
    (observer : Observer)
    (scene : Scene)
    (behind : isBehind milestone = true) :
    Segment isBehind (subscribed milestone observer :: called milestone observer scene :: events) where
  unreached := by simpa using segment.unreached
  calls_eq := by
    intro other
    by_cases same : milestone = other
    · subst same
      simp [callee?, subscriber?, behind, segment.calls_eq]
    · simp [callee?, subscriber?, same, segment.calls_eq]
  prompt := fun other behind => (segment.prompt other behind).cons_cons milestone observer scene

theorem append
    {first second : List Event}
    (begun : Segment isBehind first)
    (ended : Segment isBehind second) :
    Segment isBehind (first ++ second) where
  unreached := fun milestone told =>
    (List.mem_append.mp told).elim (begun.unreached milestone) (ended.unreached milestone)
  calls_eq := by
    intro milestone
    rw [calls_append, subscriptions_append, begun.calls_eq, ended.calls_eq]
    split <;> rfl
  prompt := fun milestone behind => (begun.prompt milestone behind).append (ended.prompt milestone behind)

end Segment

namespace Conduct

variable {isBehind : Milestone → Bool} {scene seen : Scene} {conduct : Conduct}

/-- What an observer does is told as a segment. -/
theorem segment_events (conduct : Conduct) : Segment isBehind (conduct.events isBehind scene) := by
  induction conduct with
  | leave => exact .nil
  | fail failure => exact .nil
  | subscribe milestone label other next otherSegment nextSegment =>
    rw [events]
    split
    · next behind => exact ((otherSegment).append (nextSegment _)).calling milestone _ scene behind
    · next ahead =>
      rw [Bool.not_eq_true] at ahead
      exact (Segment.waiting milestone ⟨label, other⟩ ahead).append (nextSegment none)

/-- Every observer that is called sees the same. -/
theorem scene_of_mem_events
    {milestone : Milestone}
    {callee : Observer}
    (told : .called milestone callee seen ∈ conduct.events isBehind scene) :
    seen = scene := by
  induction conduct with
  | leave => simp [events] at told
  | fail failure => simp [events] at told
  | subscribe other label inner next ofInner ofNext =>
    rw [events, List.mem_cons] at told
    have later := told.resolve_left (by simp)
    split at later
    · simp only [List.mem_cons, called.injEq, List.mem_append] at later
      rcases later with ⟨-, -, same⟩ | inward | behind
      · exact same
      · exact ofInner inward
      · exact ofNext _ behind
    · exact ofNext none later

/-- If its failures are handled, so are those of whom it subscribes. -/
theorem isOrdinary_of_mem_events
    {milestone : Milestone}
    {subscriber : Observer}
    (ordinary : conduct.IsOrdinary)
    (told : .subscribed milestone subscriber ∈ conduct.events isBehind scene) :
    subscriber.IsOrdinary := by
  induction conduct with
  | leave => simp [events] at told
  | fail failure => simp [events] at told
  | subscribe other label inner next ofInner ofNext =>
    rw [events, List.mem_cons, subscribed.injEq] at told
    rcases told with ⟨-, rfl⟩ | later
    · exact ordinary.1
    · split at later
      · simp only [List.mem_cons, reduceCtorEq, List.mem_append, false_or] at later
        rcases later with inward | behind
        · exact ofInner ordinary.1 inward
        · exact ofNext _ (ordinary.2 _ (isException_of_escape? ordinary.1)) behind
      · exact ofNext none (ordinary.2 none (by simp)) later

/-- The observers called are those of which the story tells. -/
theorem labels_run
    {audience : Audience}
    (same : audience.hasReached = isBehind)
    (scene : Scene)
    (conduct : Conduct) :
    (conduct.events isBehind scene).filterMap record? =
      (conduct.run audience).labels.map (⟨·, scene.state, scene.diagnostics.size⟩) := by
  induction conduct generalizing audience with
  | leave => rfl
  | fail failure => rfl
  | subscribe milestone label inner next innerLabels nextLabels =>
    have enqueued : (audience.enqueue milestone ⟨label, inner⟩).hasReached = isBehind :=
      (funext fun other => audience.hasReached_enqueue milestone other _).trans same
    have called : (inner.run audience).audience.hasReached = isBehind :=
      (funext (inner.hasReached_run audience)).trans same
    simp only [events, run, congrFun same milestone, List.filterMap_cons, record?]
    split
    · rw [List.filterMap_cons, List.filterMap_append, innerLabels same,
        nextLabels (inner.escape? isBehind) called, inner.failure?_run, same]
      simp [record?]
    · exact nextLabels none enqueued

/-- Those who subscribe to a milestone that does not lie behind wait for it, in order. -/
theorem waitingFor_run
    {audience : Audience}
    (same : audience.hasReached = isBehind)
    (scene : Scene)
    (milestone : Milestone)
    (conduct : Conduct) :
    (conduct.run audience).audience.waitingFor milestone =
      audience.waitingFor milestone ++
        if isBehind milestone then []
        else subscriptions milestone (conduct.events isBehind scene) := by
  induction conduct generalizing audience with
  | leave => simp [run, events]
  | fail failure => simp [run, events]
  | subscribe other label inner next innerWaits nextWaits =>
    have enqueued : (audience.enqueue other ⟨label, inner⟩).hasReached = isBehind :=
      (funext fun milestone => audience.hasReached_enqueue other milestone _).trans same
    have called : (inner.run audience).audience.hasReached = isBehind :=
      (funext (inner.hasReached_run audience)).trans same
    simp only [events, run, congrFun same other]
    cases behind : isBehind other
    · simp only [Bool.false_eq_true, if_false, nextWaits none enqueued, Audience.waitingFor_enqueue]
      by_cases isOther : milestone = other
      · subst isOther
        simp [behind, subscriber?]
      · simp [subscriber?, isOther, Ne.symm isOther]
    · simp only [if_true, inner.failure?_run, same, nextWaits _ called, innerWaits same]
      by_cases isOther : milestone = other
      · subst isOther
        simp [behind]
      · simp only [subscriptions_cons, subscriber?, if_neg (Ne.symm isOther),
          subscriptions_append, Option.toList_none, List.nil_append]
        split <;> simp

end Conduct

namespace Observer

/-- Every observer that is called sees the same. -/
theorem scene_of_mem_events
    {isBehind : Milestone → Bool}
    {scene seen : Scene}
    {milestone other : Milestone}
    {observer callee : Observer}
    (told : .called other callee seen ∈ observer.events isBehind scene milestone) :
    seen = scene := by
  rcases List.mem_cons.mp told with same | inward
  · simp only [called.injEq] at same
    exact same.2.2
  · exact Conduct.scene_of_mem_events inward

/-- The observers called are those of which the story tells. -/
theorem labels_call
    (audience : Audience)
    (scene : Scene)
    (milestone : Milestone)
    (observer : Observer) :
    (observer.events audience.hasReached scene milestone).filterMap record? =
      (observer.call audience).labels.map (⟨·, scene.state, scene.diagnostics.size⟩) :=
  congrArg (_ :: ·) (Conduct.labels_run rfl scene observer.conduct)

/-- Those who subscribe to a milestone that does not lie behind wait for it, in order. -/
theorem waitingFor_call
    (audience : Audience)
    (scene : Scene)
    (milestone other : Milestone)
    (observer : Observer) :
    (observer.call audience).audience.waitingFor other =
      audience.waitingFor other ++
        if audience.hasReached other then []
        else subscriptions other (observer.events audience.hasReached scene milestone) := by
  rw [events, subscriptions_cons]
  exact Conduct.waitingFor_run rfl scene other observer.conduct

end Observer

/-- Behind a walk through observers of a milestone that lies behind, each of them has been called
once, in order. -/
structure Walk (isBehind : Milestone → Bool) (milestone : Milestone) (observers : List Observer)
    (events : List Event) : Prop where
  unreached : ∀ other, .reached other ∉ events
  calls_eq : ∀ other, other ≠ milestone → calls other events =
    if isBehind other then subscriptions other events else []
  calls_perm : (calls milestone events).Perm (observers ++ subscriptions milestone events)
  ordered : observers.Sublist (calls milestone events)
  prompt : ∀ other, isBehind other = true → Prompt other events

namespace Audience

theorem walk_flatMap_events
    (isBehind : Milestone → Bool)
    (scene : Scene)
    (milestone : Milestone)
    (behind : isBehind milestone = true)
    (observers : List Observer) :
    Walk isBehind milestone observers
      (observers.flatMap (·.events isBehind scene milestone)) := by
  induction observers with
  | nil => exact ⟨by simp, by simp, by simp, by simp, fun other _ => .nil other⟩
  | cons observer rest ih =>
    have segment := @Conduct.segment_events isBehind scene observer.conduct
    have inward := segment.calls_eq milestone
    rw [behind, if_pos rfl] at inward
    rw [List.flatMap_cons, show observer.events isBehind scene milestone =
      called milestone observer scene :: observer.conduct.events isBehind scene from rfl]
    generalize observer.conduct.events isBehind scene = inner at segment inward
    generalize rest.flatMap (·.events isBehind scene milestone) = others at ih
    refine ⟨fun other => ?_, fun other different => ?_, ?_, ?_, fun other reached => ?_⟩
    · simpa using ⟨segment.unreached other, ih.unreached other⟩
    · simp only [List.cons_append, calls_cons, subscriptions_cons, calls_append,
        subscriptions_append, callee?, subscriber?, if_neg (Ne.symm different), segment.calls_eq other,
        ih.calls_eq other different]
      split <;> simp
    · simp only [List.cons_append, calls_cons, subscriptions_cons, calls_append,
        subscriptions_append, callee?, subscriber?, if_true, Option.toList_some,
        Option.toList_none, List.nil_append, inward]
      apply List.Perm.cons observer
      have moved := ih.calls_perm.append_left (subscriptions milestone inner)
      exact moved.trans (List.perm_append_comm_assoc _ _ _)
    · simp only [List.cons_append, calls_cons, calls_append, callee?, if_true, Option.toList_some,
        List.nil_append]
      exact (ih.ordered.trans (List.sublist_append_right _ _)).cons_cons observer
    · exact ((segment.prompt other reached).cons _ (by simp)).append (ih.prompt other reached)

/-- Calls bring no milestone about. -/
theorem hasReached_call_eq (audience : Audience) (observer : Observer) :
    (observer.call audience).audience.hasReached = audience.hasReached := by
  funext milestone
  exact observer.hasReached_call audience milestone

theorem waitingFor_callAll
    {observers : List Observer}
    (ordinary : ∀ observer ∈ observers, observer.IsOrdinary)
    (audience : Audience)
    (scene : Scene)
    (milestone other : Milestone) :
    (audience.callAll observers).audience.waitingFor other =
      audience.waitingFor other ++
        if audience.hasReached other then []
        else subscriptions other
          (observers.flatMap (·.events audience.hasReached scene milestone)) := by
  induction observers generalizing audience with
  | nil => simp [callAll]
  | cons observer rest ih =>
    have later := ih (fun other known => ordinary other (List.mem_cons_of_mem _ known))
      (observer.call audience).audience
    rw [hasReached_call_eq, observer.waitingFor_call audience scene milestone] at later
    rw [callAll_cons_of_isOrdinary (ordinary observer List.mem_cons_self)]
    simp only [later, List.flatMap_cons, subscriptions_append]
    split <;> simp

theorem labels_callAll
    {observers : List Observer}
    (ordinary : ∀ observer ∈ observers, observer.IsOrdinary)
    (audience : Audience)
    (scene : Scene)
    (milestone : Milestone) :
    (observers.flatMap (·.events audience.hasReached scene milestone)).filterMap record? =
      (audience.callAll observers).labels.map (⟨·, scene.state, scene.diagnostics.size⟩) := by
  induction observers generalizing audience with
  | nil => rfl
  | cons observer rest ih =>
    have later := ih (fun other known => ordinary other (List.mem_cons_of_mem _ known))
      (observer.call audience).audience
    rw [hasReached_call_eq] at later
    rw [List.flatMap_cons, List.filterMap_append, observer.labels_call, later,
      callAll_cons_of_isOrdinary (ordinary observer List.mem_cons_self), List.map_append]

/-- The observers called when a milestone is reached are those of which the story tells. -/
theorem record?_announceEvents
    {audience : Audience}
    {milestone : Milestone}
    (ordinary : ∀ observer ∈ audience.waitingFor milestone, observer.IsOrdinary)
    (scene : Scene) :
    (audience.announceEvents scene milestone).filterMap record? =
      (audience.announce milestone).labels.map (⟨·, scene.state, scene.diagnostics.size⟩) := by
  simp only [announceEvents, List.filterMap_cons, record?, announce, reach_snd]
  exact labels_callAll ordinary _ scene milestone

/-- The observers called at a subscription are those of which the story tells. -/
theorem record?_subscribeEvents
    (audience : Audience)
    (scene : Scene)
    (milestone : Milestone)
    (observer : Observer) :
    (audience.subscribeEvents scene milestone observer).filterMap record? =
      (audience.subscribe milestone observer).labels.map
        (⟨·, scene.state, scene.diagnostics.size⟩) := by
  simp only [subscribeEvents, subscribe, List.filterMap_cons, record?]
  split
  · exact observer.labels_call audience scene milestone
  · rfl

theorem scene_of_mem_subscribeEvents
    {audience : Audience}
    {scene seen : Scene}
    {milestone other : Milestone}
    {observer callee : Observer}
    (told : .called other callee seen ∈ audience.subscribeEvents scene milestone observer) :
    seen = scene := by
  simp only [subscribeEvents, List.mem_cons, reduceCtorEq, false_or] at told
  split at told
  · exact Observer.scene_of_mem_events told
  · simp at told

theorem scene_of_mem_announceEvents
    {audience : Audience}
    {scene seen : Scene}
    {milestone other : Milestone}
    {callee : Observer}
    (told : .called other callee seen ∈ audience.announceEvents scene milestone) :
    seen = scene := by
  simp only [announceEvents, List.mem_cons, reduceCtorEq, false_or, List.mem_flatMap] at told
  obtain ⟨observer, -, inward⟩ := told
  exact Observer.scene_of_mem_events inward

/-- If the failures of an observer are handled, so are those of whom its subscription leads to
subscribe. -/
theorem isOrdinary_of_mem_subscribeEvents
    {audience : Audience}
    {scene : Scene}
    {milestone other : Milestone}
    {observer subscriber : Observer}
    (ordinary : observer.IsOrdinary)
    (told : .subscribed other subscriber ∈ audience.subscribeEvents scene milestone observer) :
    subscriber.IsOrdinary := by
  simp only [subscribeEvents, List.mem_cons, subscribed.injEq] at told
  rcases told with ⟨-, rfl⟩ | later
  · exact ordinary
  · split at later
    · exact Conduct.isOrdinary_of_mem_events ordinary
        ((List.mem_cons.mp later).resolve_left (by simp))
    · simp at later

theorem isOrdinary_of_mem_announceEvents
    {audience : Audience}
    {scene : Scene}
    {milestone other : Milestone}
    {subscriber : Observer}
    (ordinary : ∀ observer ∈ audience.waitingFor milestone, observer.IsOrdinary)
    (told : .subscribed other subscriber ∈ audience.announceEvents scene milestone) :
    subscriber.IsOrdinary := by
  simp only [announceEvents, List.mem_cons, reduceCtorEq, false_or, List.mem_flatMap] at told
  obtain ⟨observer, waits, inward⟩ := told
  exact Conduct.isOrdinary_of_mem_events (ordinary observer waits)
    ((List.mem_cons.mp inward).resolve_left (by simp))

/-- What a subscription leads to is a segment. -/
theorem segment_subscribeEvents
    (audience : Audience)
    (scene : Scene)
    (milestone : Milestone)
    (observer : Observer) :
    Segment audience.hasReached (audience.subscribeEvents scene milestone observer) := by
  unfold subscribeEvents
  cases behind : audience.hasReached milestone
  · exact .waiting milestone observer behind
  · rw [if_pos rfl]
    exact (Conduct.segment_events _).calling milestone observer scene behind

/-- Reaching a milestone calls no observer of another one that does not lie behind. -/
theorem calls_announceEvents_of_ahead
    (audience : Audience)
    (scene : Scene)
    {milestone other : Milestone}
    (different : other ≠ milestone)
    (ahead : audience.hasReached other = false) :
    calls other (audience.announceEvents scene milestone) = [] := by
  have behind : (audience.reach milestone).1.hasReached milestone = true := by
    simp [hasReached_reach]
  have walk := walk_flatMap_events _ scene milestone behind (audience.waitingFor milestone)
  have still : (audience.reach milestone).1.hasReached other = false := by
    simp [hasReached_reach, different, ahead]
  simp only [announceEvents, calls_cons, walk.calls_eq other different, still]
  simp [callee?]

/-- A story tells faithfully what became of an audience: the observers of a milestone that does not
lie behind wait for it uncalled, and those of the others have been served. -/
structure Faithful (audience : Audience) (story : List Event) : Prop where
  ahead : ∀ milestone, audience.hasReached milestone = false →
    .reached milestone ∉ story ∧ calls milestone story = [] ∧
      audience.waitingFor milestone = subscriptions milestone story
  behind : ∀ milestone, audience.hasReached milestone = true →
    audience.waitingFor milestone = [] ∧ Served milestone story
  ordinary : ∀ milestone observer, .subscribed milestone observer ∈ story → observer.IsOrdinary

namespace Faithful

variable {audience : Audience} {story : List Event}

theorem empty : Faithful .empty [] where
  ahead := by
    intro milestone _
    cases milestone <;> simp [waitingFor, Audience.empty]
  behind := by
    intro milestone reached
    cases milestone <;> simp [hasReached, Audience.empty] at reached
  ordinary := by simp

/-- The failures of those who wait are handled. -/
theorem ordinary_of_mem_waitingFor
    {milestone : Milestone}
    {observer : Observer}
    (faithful : Faithful audience story)
    (waits : observer ∈ audience.waitingFor milestone) :
    observer.IsOrdinary := by
  cases reached : audience.hasReached milestone with
  | true =>
    rw [(faithful.behind milestone reached).1] at waits
    contradiction
  | false =>
    rw [(faithful.ahead milestone reached).2.2] at waits
    obtain ⟨event, told, subscribes⟩ := List.mem_filterMap.mp waits
    cases event with
    | subscribed other subscriber =>
      simp only [subscriber?, Option.ite_none_right_eq_some, Option.some.injEq] at subscribes
      obtain ⟨-, rfl⟩ := subscribes
      exact faithful.ordinary other subscriber told
    | _ => simp [subscriber?] at subscribes

/-- A milestone lies behind exactly if the story tells that it has been reached. -/
theorem mem_reached_iff (faithful : Faithful audience story) (milestone : Milestone) :
    .reached milestone ∈ story ↔ audience.hasReached milestone = true := by
  constructor
  · intro told
    rw [← Bool.not_eq_false]
    intro ahead
    exact (faithful.ahead milestone ahead).1 told
  · intro behind
    obtain ⟨-, before, after, rfl, -⟩ := faithful.behind milestone behind
    simp

/-- A subscription keeps the story faithful. -/
theorem subscribe
    {observer : Observer}
    (faithful : Faithful audience story)
    (ordinary : observer.IsOrdinary)
    (scene : Scene)
    (milestone : Milestone) :
    Faithful (audience.subscribe milestone observer).audience
      (story ++ audience.subscribeEvents scene milestone observer) := by
  have segment := audience.segment_subscribeEvents scene milestone observer
  have waiting : ∀ other, (audience.subscribe milestone observer).audience.waitingFor other =
      audience.waitingFor other ++
        if audience.hasReached other then []
        else subscriptions other (audience.subscribeEvents scene milestone observer) := by
    intro other
    unfold Audience.subscribe subscribeEvents
    cases behind : audience.hasReached milestone
    · simp only [Bool.false_eq_true, if_false, waitingFor_enqueue]
      by_cases same : milestone = other
      · subst same
        simp [behind, subscriber?]
      · simp [subscriber?, same, Ne.symm same]
    · simp only [if_true, observer.waitingFor_call audience scene milestone]
      by_cases same : milestone = other
      · subst same
        simp [behind]
      · simp [subscriber?, same]
  refine ⟨fun other ahead => ?_, fun other behind => ?_, fun other subscriber told => ?_⟩
  · rw [hasReached_subscribe] at ahead
    obtain ⟨unreached, uncalled, queued⟩ := faithful.ahead other ahead
    refine ⟨by simp [unreached, segment.unreached other], ?_, ?_⟩
    · rw [calls_append, uncalled, segment.calls_eq, ahead]
      simp
    · rw [waiting, ahead, queued, subscriptions_append]
      simp
  · rw [hasReached_subscribe] at behind
    obtain ⟨empty, before, after, rfl, first, last, uncalled, exact, ordered, prompt⟩ :=
      faithful.behind other behind
    refine ⟨by rw [waiting, behind, empty]; simp, before,
      after ++ audience.subscribeEvents scene milestone observer, by simp, first,
      by simp [last, segment.unreached other], uncalled, ?_, ?_,
      prompt.append (segment.prompt other behind)⟩
    · rw [calls_append, subscriptions_append, segment.calls_eq, behind, if_pos rfl,
        ← List.append_assoc]
      exact exact.append_right _
    · rw [calls_append]
      exact ordered.trans (List.sublist_append_left _ _)
  · rcases List.mem_append.mp told with earlier | now
    · exact faithful.ordinary other subscriber earlier
    · exact isOrdinary_of_mem_subscribeEvents ordinary now

/-- Reaching a milestone keeps the story faithful. -/
theorem announce
    (faithful : Faithful audience story)
    (scene : Scene)
    (milestone : Milestone)
    (ahead : audience.hasReached milestone = false) :
    Faithful (audience.announce milestone).audience
      (story ++ audience.announceEvents scene milestone) := by
  obtain ⟨unreached, uncalled, queued⟩ := faithful.ahead milestone ahead
  have behind : (audience.reach milestone).1.hasReached milestone = true := by
    simp [hasReached_reach]
  have walk := walk_flatMap_events _ scene milestone behind (audience.waitingFor milestone)
  have ordinary : ∀ observer ∈ audience.waitingFor milestone, observer.IsOrdinary :=
    fun _ waits => faithful.ordinary_of_mem_waitingFor waits
  have waiting := waitingFor_callAll ordinary (audience.reach milestone).1 scene milestone
  have subscribed : ∀ other subscriber,
      .subscribed other subscriber ∈ story ++ audience.announceEvents scene milestone →
        subscriber.IsOrdinary := by
    intro other subscriber told
    rcases List.mem_append.mp told with earlier | now
    · exact faithful.ordinary other subscriber earlier
    · exact isOrdinary_of_mem_announceEvents ordinary now
  revert subscribed
  simp only [waitingFor_reach, hasReached_reach] at waiting
  simp only [Audience.announce, announceEvents, reach_snd]
  generalize (audience.waitingFor milestone).flatMap
    (·.events (audience.reach milestone).1.hasReached scene milestone) = walked at walk waiting
  refine fun subscribed => ⟨fun other out => ?_, fun other reached => ?_, subscribed⟩
  · rw [hasReached_callAll, hasReached_reach, Bool.or_eq_false_iff, decide_eq_false_iff_not] at out
    obtain ⟨different, out⟩ := out
    obtain ⟨otherUnreached, otherUncalled, otherQueued⟩ := faithful.ahead other out
    refine ⟨by simp [otherUnreached, different, walk.unreached other], ?_, ?_⟩
    · rw [calls_append, calls_cons, otherUncalled, walk.calls_eq other different, hasReached_reach]
      simp [callee?, different, out]
    · rw [waiting, otherQueued, subscriptions_append, subscriptions_cons]
      simp [subscriber?, different, out]
  · rw [hasReached_callAll, hasReached_reach, Bool.or_eq_true, decide_eq_true_eq] at reached
    by_cases same : other = milestone
    · subst same
      refine ⟨by simp [waiting], story, walked, rfl, unreached, walk.unreached other, uncalled, ?_, ?_,
        walk.prompt other behind⟩
      · rw [← queued]
        exact walk.calls_perm
      · rw [← queued]
        exact walk.ordered
    · have past : audience.hasReached other = true := reached.resolve_left same
      obtain ⟨empty, before, after, rfl, first, last, otherUncalled, exact, ordered, prompt⟩ :=
        faithful.behind other past
      have still : (audience.reach milestone).1.hasReached other = true := by
        simp [hasReached_reach, past]
      refine ⟨by simp [waiting, same, past, empty], before, after ++ .reached milestone :: walked,
        by simp, first, by simp [last, same, walk.unreached other], otherUncalled, ?_, ?_,
        prompt.append ((walk.prompt other still).cons _ (by simp))⟩
      · rw [calls_append, calls_cons, subscriptions_append, subscriptions_cons,
          walk.calls_eq other same, still, if_pos rfl]
        simp only [callee?, subscriber?, Option.toList_none, List.nil_append, ← List.append_assoc]
        exact exact.append_right _
      · rw [calls_append]
        exact ordered.trans (List.sublist_append_left _ _)

end Faithful
end Audience
end Linting
end MarkupLint
