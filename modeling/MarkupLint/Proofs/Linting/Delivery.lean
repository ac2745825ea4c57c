import MarkupLint.Proofs.Linting.Answering

/-!
# Delivery to observers

The story of a session is told turn by turn.  Whatever is requested, every observer of a milestone
that has been reached has been called exactly once, and nobody else; the observers of the end have
seen the final state; and whoever waits is told which observers of the end failed.
-/

namespace MarkupLint
namespace Linting

open Event

/-- The milestones behind whoever is called and sees this. -/
def Scene.isBehind (scene : Scene) : Milestone → Bool
  | .started => true
  | .done => scene.state.isTerminal

/-- The subscriptions that an observer makes itself, in order, while some milestones lie behind. -/
def Conduct.subscribes (isBehind : Milestone → Bool) : Conduct → List (Milestone × Observer)
  | leave => []
  | fail _ => []
  | subscribe milestone label other next =>
    (milestone, ⟨label, other⟩) ::
      (next (if isBehind milestone then other.escape? isBehind else none)).subscribes isBehind

namespace Event

/-- The subscription that is told. -/
def subscription? : Event → Option (Milestone × Observer)
  | subscribed milestone observer => some (milestone, observer)
  | _ => none

/-- The subscriptions that the observer called makes, in order. -/
def made : Event → List (Milestone × Observer)
  | called _ observer scene => observer.conduct.subscribes scene.isBehind
  | _ => []

end Event

namespace Request

/-- The subscription that is requested. -/
def subscription? : Request → Option (Milestone × Observer)
  | subscribe milestone observer => some (milestone, observer)
  | _ => none

/-- Whoever is subscribed fails only with what those who handle failures handle. -/
def IsOrdinary : Request → Prop
  | subscribe _ observer => observer.IsOrdinary
  | _ => True

end Request

namespace Session

/-- What a request leads to. -/
def requestEvents (session : Session) : Request → List Event
  | .subscribe milestone observer =>
    session.linting.audience.subscribeEvents session.linting.scene milestone observer
  | .start => session.linting.startEvents
  | _ => []

/-- What requests lead to until the caller has to wait. -/
def requestsEvents (session : Session) : List Request → List Event
  | [] => []
  | next :: rest =>
    let later := session.request next
    session.requestEvents next ++
      if later.caller = .free then later.requestsEvents rest else []

/-- What a turn leads to. -/
def turnEvents (session : Session) : SessionTurn → List Event
  | .linting turn => session.linting.turnEvents session.schedule.now turn
  | .caller =>
    let later := session.catchUp
    if later.caller = .free then later.requestsEvents later.requests else []
  | .wakeCaller => []

/-- What the next turn leads to, if there is one. -/
def nextEvents (session : Session) : List Event :=
  if session.isOver then []
  else
    match session.schedule.next? with
    | none => []
    | some next => { session with schedule := next.2 }.turnEvents next.1

/-- The story of at most the given number of turns. -/
def story : Nat → Session → List Event
  | 0, _ => []
  | turns + 1, session =>
    session.nextEvents ++
      match session.next? with
      | none => []
      | some later => story turns later

/-- All calls that a session has recorded, in order. -/
def recorded (session : Session) : List ObservedCall :=
  session.answers.reverse.flatMap (·.calls) ++ session.calls

end Session

/-- The subscriptions that are told are those that were requested and those that the observers called
make. -/
structure Tallied (requested : List (Milestone × Observer)) (events : List Event) : Prop where
  perm : (events.filterMap subscription?).Perm (requested ++ events.flatMap made)
  requested_sublist : requested.Sublist (events.filterMap subscription?)
  made_sublist : ∀ event ∈ events, event.made.Sublist (events.filterMap subscription?)

namespace Tallied

theorem nil : Tallied [] [] := ⟨.refl _, .refl _, by simp⟩

theorem subscribed (milestone : Milestone) (observer : Observer) :
    Tallied [(milestone, observer)] [.subscribed milestone observer] :=
  ⟨.refl _, .refl _, by simp [made]⟩

theorem reached (milestone : Milestone) : Tallied [] [.reached milestone] :=
  ⟨.refl _, .refl _, by simp [made]⟩

theorem append
    {first second : List (Milestone × Observer)}
    {begun ended : List Event}
    (early : Tallied first begun)
    (late : Tallied second ended) :
    Tallied (first ++ second) (begun ++ ended) where
  perm := by
    rw [List.filterMap_append, List.flatMap_append]
    refine (early.perm.append late.perm).trans ?_
    simp only [List.append_assoc]
    exact (List.perm_append_comm_assoc _ _ _).append_left first
  requested_sublist := by
    rw [List.filterMap_append]
    exact early.requested_sublist.append late.requested_sublist
  made_sublist := by
    intro event told
    rw [List.filterMap_append]
    rcases List.mem_append.mp told with known | known
    · exact (early.made_sublist event known).trans (List.sublist_append_left _ _)
    · exact (late.made_sublist event known).trans (List.sublist_append_right _ _)

/-- Whoever is called makes the subscriptions that follow. -/
theorem called
    {observer : Observer}
    {scene : Scene}
    {events : List Event}
    (tallied : Tallied (observer.conduct.subscribes scene.isBehind) events)
    (milestone : Milestone) :
    Tallied [] (.called milestone observer scene :: events) where
  perm := tallied.perm
  requested_sublist := List.nil_sublist _
  made_sublist := by
    intro event told
    rcases List.mem_cons.mp told with rfl | later
    · exact tallied.requested_sublist
    · exact tallied.made_sublist event later

end Tallied

/-- What an observer does is tallied by the subscriptions that it makes. -/
theorem Conduct.tallied_events (scene : Scene) (conduct : Conduct) :
    Tallied (conduct.subscribes scene.isBehind) (conduct.events scene.isBehind scene) := by
  induction conduct with
  | leave => exact .nil
  | fail failure => exact .nil
  | subscribe milestone label other next ofOther ofNext =>
    have first := Tallied.subscribed milestone ⟨label, other⟩
    rw [subscribes, events]
    split
    · have calls := @Tallied.called ⟨label, other⟩ scene _ ofOther milestone
      exact first.append (calls.append (ofNext (other.escape? scene.isBehind)))
    · exact first.append (ofNext none)

theorem Observer.tallied_events (milestone : Milestone) (scene : Scene) (observer : Observer) :
    Tallied [] (observer.events scene.isBehind scene milestone) :=
  .called (observer.conduct.tallied_events scene) milestone

namespace Audience

variable {audience : Audience} {scene : Scene}

/-- What a subscription leads to is tallied by it. -/
theorem tallied_subscribeEvents
    {milestone : Milestone}
    (behind : audience.hasReached milestone = true → audience.hasReached = scene.isBehind)
    (observer : Observer) :
    Tallied [(milestone, observer)] (audience.subscribeEvents scene milestone observer) := by
  have first := Tallied.subscribed milestone observer
  rw [subscribeEvents]
  split
  · next reached =>
    rw [behind reached]
    exact first.append (observer.tallied_events milestone scene)
  · exact first

/-- Whoever is called when a milestone is reached makes all subscriptions that follow. -/
theorem tallied_announceEvents
    {milestone : Milestone}
    (behind : (audience.reach milestone).1.hasReached = scene.isBehind) :
    Tallied [] (audience.announceEvents scene milestone) := by
  have each : ∀ observers : List Observer,
      Tallied [] (observers.flatMap (·.events scene.isBehind scene milestone)) := by
    intro observers
    induction observers with
    | nil => exact .nil
    | cons observer rest ih =>
      rw [List.flatMap_cons]
      exact (observer.tallied_events milestone scene).append ih
  rw [announceEvents, behind]
  exact (Tallied.reached milestone).append (each _)

end Audience

namespace Balanced

variable {linting : Linting}

/-- Whoever is called once the run has been started sees which milestones lie behind. -/
theorem hasReached_eq
    (balanced : Balanced linting)
    (started : linting.isStarted = true) :
    linting.audience.hasReached = linting.scene.isBehind := by
  funext milestone
  cases milestone with
  | started => exact balanced.isStarted_eq.trans started
  | done => exact balanced.isDone_eq.trans balanced.isTerminal_eq.symm

theorem tallied_subscribe
    (balanced : Balanced linting)
    (milestone : Milestone)
    (observer : Observer) :
    Tallied [(milestone, observer)]
      (linting.audience.subscribeEvents linting.scene milestone observer) := by
  refine Audience.tallied_subscribeEvents (fun reached => balanced.hasReached_eq ?_) observer
  cases milestone with
  | started => rwa [balanced.isStarted_eq] at reached
  | done =>
    rw [balanced.isDone_eq] at reached
    obtain ⟨outcome, phase_eq⟩ := Phase.exists_ended_of_isClosed reached
    simp [isStarted, phase_eq]

theorem tallied_start (balanced : Balanced linting) : Tallied [] linting.startEvents := by
  unfold startEvents
  split
  · exact .nil
  · next idle =>
    have unstarted : linting.phase = .unstarted := by simpa [isStarted] using idle
    refine Audience.tallied_announceEvents (funext fun milestone => ?_)
    rw [Audience.hasReached_reach]
    cases milestone with
    | started => rfl
    | done =>
      have opened : linting.state.isTerminal = false := by
        rw [balanced.isTerminal_eq, unstarted]
        rfl
      have ahead : linting.audience.hasReached .done = false := by
        rw [balanced.isDone_eq, unstarted]
        rfl
      simp [Scene.isBehind, scene, opened, ahead]

theorem tallied_take (balanced : Balanced linting) (now : Rat) (turn : Turn) :
    Tallied [] (linting.turnEvents now turn) := by
  have later := balanced.take now turn
  simp only [Linting.turnEvents]
  split
  · next ends =>
    rw [Bool.and_eq_true, Bool.not_eq_true'] at ends
    have started : linting.isStarted = true := by
      rw [← isStarted_take balanced now turn]
      obtain ⟨outcome, phase_eq⟩ := Phase.exists_ended_of_isClosed ends.1
      simp [isStarted, phase_eq]
    refine Audience.tallied_announceEvents (funext fun milestone => ?_)
    rw [Audience.hasReached_reach]
    cases milestone with
    | started =>
      have behind := balanced.isStarted_eq.trans started
      simp [Scene.isBehind, behind]
    | done =>
      have terminal := later.isTerminal_eq.trans ends.1
      simp [Scene.isBehind, scene, terminal]
  · exact .nil

end Balanced

namespace Session

theorem recorded_follow (session : Session) (progress : Progress) :
    (session.follow progress).recorded = session.recorded ++ observed progress.effects := by
  obtain ⟨-, -, -, answers_eq, calls_eq⟩ :=
    foldl_absorb { session with linting := progress.linting } progress.effects
  simp only [recorded, follow, answers_eq, calls_eq, List.append_assoc]

theorem recorded_answer (session : Session) (reply : Reply) :
    (session.answer reply).recorded = session.recorded := by
  simp [recorded, answer]

/-- The subscriptions requested so far, in order. -/
def requested (requests : List Request) (session : Session) : List (Milestone × Observer) :=
  (requests.take session.answers.length).filterMap Request.subscription?

/-- A story tells what became of a session that was begun with some requests. -/
structure Told (requests : List Request) (session : Session) (story : List Event) : Prop
    extends Answering requests session where
  ordinary : ∀ request ∈ requests, request.IsOrdinary
  chronicled : Chronicled session.linting story
  recorded_eq : session.recorded = story.filterMap record?
  tallied : Tallied (session.requested requests) story

namespace Told

variable {requests : List Request} {session later : Session} {story events : List Event}

theorem new
    {requests : List Request}
    (ordinary : ∀ request ∈ requests, request.IsOrdinary)
    (document : Document)
    (rules : RuleSet)
    (timeout? : Option Binary64)
    (precision : Precision)
    (precedence : Precedence SessionTurn) :
    Told requests (.new (.new document rules timeout? precision) precedence requests) [] where
  toAnswering := .new document rules timeout? precision precedence requests
  ordinary := ordinary
  chronicled := .new document rules timeout? precision
  recorded_eq := rfl
  tallied := .nil

/-- What leads to an answer is told. -/
theorem answer
    {request : Request}
    {progress : Progress}
    {reply : Reply}
    (told : Told requests session story)
    (asked : requests[session.answers.length]? = some request)
    (answering : Answering requests ((session.follow progress).answer reply))
    (chronicled : Chronicled progress.linting (story ++ events))
    (heard : observed progress.effects = events.filterMap record?)
    (tallied : Tallied request.subscription?.toList events) :
    Told requests ((session.follow progress).answer reply) (story ++ events) where
  toAnswering := answering
  ordinary := told.ordinary
  chronicled := by rwa [Session.answer, linting_follow]
  recorded_eq := by
    rw [recorded_answer, recorded_follow, told.recorded_eq, heard, List.filterMap_append]
  tallied := by
    have listed : [request].filterMap Request.subscription? = request.subscription?.toList := by
      cases request <;> rfl
    have count : ((session.follow progress).answer reply).answers.length =
        session.answers.length + 1 := by
      simp [Session.answer, answers_follow]
    rw [requested, count, Answering.take_succ asked, List.filterMap_append, listed]
    exact told.tallied.append tallied

/-- A request that leads to nothing but an answer is told. -/
theorem answer_at_once
    {request : Request}
    {reply : Reply}
    (told : Told requests session story)
    (asked : requests[session.answers.length]? = some request)
    (plain : request.subscription? = none)
    (answering : Answering requests (session.answer reply)) :
    Told requests (session.answer reply) story := by
  have answered := @told.answer _ _ _ [] request (.start session.linting) reply asked answering
    (by simpa using told.chronicled) rfl (by simpa [plain] using .nil)
  rwa [List.append_nil] at answered

/-- Nothing but the schedule has changed. -/
theorem reschedule
    (told : Told requests session story)
    (schedule : Schedule SessionTurn) :
    Told requests { session with schedule := schedule } story :=
  { told with toAnswering := told.toAnswering.reschedule schedule }

/-- Every request is told. -/
theorem request
    {request : Request}
    (told : Told requests session story)
    (asked : requests[session.answers.length]? = some request) :
    Told requests (session.request request) (story ++ session.requestEvents request) := by
  have answering := told.toAnswering.request asked
  have chronicled := told.chronicled
  have balanced := told.balanced
  cases request with
  | subscribe milestone observer =>
    have ordinary : observer.IsOrdinary := told.ordinary _ (List.mem_of_getElem? asked)
    exact told.answer asked answering (chronicled.subscribe ordinary milestone)
      (observed_subscribe milestone observer) (balanced.tallied_subscribe milestone observer)
  | misdirected word =>
    simp only [requestEvents, List.append_nil]
    exact told.answer_at_once asked rfl answering
  | start =>
    exact told.answer asked answering chronicled.start
      (observed_start fun _ waits => chronicled.faithful.ordinary_of_mem_waitingFor waits)
      balanced.tallied_start
  | wait =>
    simp only [requestEvents, List.append_nil]
    simp only [Session.request] at answering ⊢
    split at answering
    · exact told.answer_at_once asked rfl answering
    · exact { told with toAnswering := answering }
  | advance seconds =>
    simp only [requestEvents, List.append_nil]
    exact { told with toAnswering := answering }

/-- Requests are told one after another. -/
theorem makeRequests
    {left : List Request}
    (told : Told requests session story)
    (same : session.requests = left) :
    Told requests (session.makeRequests left) (story ++ session.requestsEvents left) := by
  induction left generalizing session story with
  | nil =>
    rw [requestsEvents, List.append_nil]
    exact told
  | cons next rest ih =>
    have first := told.request (told.asked_of_requests same)
    simp only [Session.makeRequests, requestsEvents]
    split
    · next free =>
      rw [← List.append_assoc]
      exact ih first (requests_request same free)
    · rw [List.append_nil]
      exact first

theorem catchUp (told : Told requests session story) : Told requests session.catchUp story := by
  have answering := told.toAnswering.catchUp
  unfold Session.catchUp at answering ⊢
  split
  · exact told
  · next passing =>
    rw [passing] at answering
    obtain ⟨seconds, asked⟩ := told.passing passing
    exact told.answer_at_once asked rfl answering
  · next waiting =>
    rw [waiting] at answering
    split
    · next result answered =>
      simp only [answered] at answering
      exact told.answer_at_once (told.waiting waiting) rfl answering
    · exact told

/-- Every turn is told. -/
theorem take (told : Told requests session story) (turn : SessionTurn) :
    Told requests (session.take turn) (story ++ session.turnEvents turn) := by
  have answering := told.toAnswering.take turn
  have chronicled := told.chronicled
  cases turn with
  | linting turn =>
    refine ⟨answering, told.ordinary, ?_, ?_, ?_⟩
    · rw [Session.take, linting_follow]
      exact chronicled.take _ turn
    · rw [Session.take, recorded_follow, told.recorded_eq, List.filterMap_append, turnEvents,
        observed_take fun _ waits => chronicled.faithful.ordinary_of_mem_waitingFor waits]
    · rw [Session.take, requested, answers_follow, ← List.append_nil (List.filterMap _ _)]
      exact told.tallied.append (told.balanced.tallied_take _ turn)
  | caller =>
    have caught := told.catchUp
    simp only [Session.take, resume, turnEvents]
    split
    · exact caught.makeRequests rfl
    · rw [List.append_nil]
      exact caught
  | wakeCaller =>
    rw [turnEvents, List.append_nil]
    exact told.reschedule _

/-- Every run is told. -/
theorem run (told : Told requests session story) (turns : Nat) :
    Told requests (session.run turns) (story ++ session.story turns) := by
  induction turns generalizing session story with
  | zero =>
    rw [Session.story, List.append_nil]
    exact told
  | succ turns ih =>
    simp only [Session.run, Session.story, nextEvents, next?, step?]
    cases session.isOver
    · cases session.schedule.next? with
      | none => simpa using told
      | some next =>
        rw [← List.append_assoc]
        exact ih ((told.reschedule next.2).take next.1)
    · simpa using told

end Told

theorem Attended.run {session : Session} (attended : Attended session) (turns : Nat) :
    Attended (session.run turns) := by
  induction turns generalizing session with
  | zero => exact attended
  | succ turns ih =>
    simp only [Session.run]
    split
    · next later stepped =>
      refine ih (attended.step ?_)
      unfold next? at stepped
      split at stepped
      · contradiction
      · exact stepped
    · exact attended

end Session

/-- Waiting for the end is answered by the failures of the observers of the end. -/
theorem answer?_of_outcomeWith
    {linting : Linting}
    {name : String}
    {failures : List Failure}
    (phase_eq : linting.phase = .ended (outcomeWith name failures)) :
    linting.answer? = some (
      if failures = [] then .ok linting.state
      else .error (.failed (.grouped
        ⟨s!"{failures.length} {Milestone.done.word} observer(s) of {name} failed", failures⟩))) := by
  unfold answer?
  rw [phase_eq]
  cases failures <;> rfl

/-- Whatever is requested of a linting, and however long it goes on, with observers that subscribe
others, handle what these fail with or not, and fail themselves, with whatever those who handle failures
handle: the observers that subscribe are those of the requests, in order, and those that observers
subscribe when they are called, in their order.  No observer of a milestone that has not been reached
is called; those of a milestone that has been reached are called exactly once, in order of
subscription or at the moment at which they subscribe.  The observers of the end see the final state
and the final diagnostics.  Once the end has been reached, a session that can go no further has
answered every request; waiting for the end is answered with the state or, if observers that
subscribed to the end before it failed, with a group of exactly their failures, in order. -/
theorem delivery
    (document : Document)
    (rules : RuleSet)
    (timeout? : Option Binary64)
    (precision : Precision)
    (precedence : Precedence SessionTurn)
    (requests : List Request)
    (ordinary : ∀ request ∈ requests, request.IsOrdinary)
    (turns : Nat) :
    let session := Session.new (.new document rules timeout? precision) precedence requests
    let story := session.story turns
    let last := session.run turns
    let requested := (requests.take last.answers.length).filterMap Request.subscription?
    let failures := (subscriptions .done (early .done story)).filterMap Observer.escape?
    last.recorded = story.filterMap record? ∧
      (story.filterMap subscription?).Perm (requested ++ story.flatMap made) ∧
      requested.Sublist (story.filterMap subscription?) ∧
      (∀ event ∈ story, event.made.Sublist (story.filterMap subscription?)) ∧
      (.reached .started ∈ story ↔ last.linting.isStarted = true) ∧
      (.reached .done ∈ story ↔ last.linting.state.isTerminal = true) ∧
      (∀ milestone, .reached milestone ∉ story → calls milestone story = []) ∧
      (∀ milestone, .reached milestone ∈ story → Served milestone story) ∧
      (∀ observer scene, .called .done observer scene ∈ story →
        scene.state.isTerminal = true ∧ scene = last.linting.scene) ∧
      (last.next? = none → .reached .done ∈ story → last.requests = []) ∧
      ∀ (index : Nat) (answer : Answer), last.answers.reverse[index]? = some answer →
        requests[index]? = some .wait → answer.linting.isStarted = true →
          .reached .done ∈ story →
            answer.reply =
              if failures = [] then .finished last.linting.state
              else .refused (.failed (.grouped
                ⟨s!"{failures.length} {Milestone.done.word} observer(s) of {last.linting.name} failed",
                  failures⟩)) := by
  intro session story last requested failures
  have told : Session.Told requests last story := by
    have begun := (Session.Told.new ordinary document rules timeout? precision precedence).run turns
    rwa [List.nil_append] at begun
  have chronicled := told.chronicled
  have balanced := chronicled.balanced
  have tallied := told.tallied
  refine ⟨told.recorded_eq, tallied.perm, tallied.requested_sublist, tallied.made_sublist,
    ?_, ?_, ?_, ?_, ?_, ?_, ?_⟩
  · rw [chronicled.faithful.mem_reached_iff, balanced.isStarted_eq]
  · rw [chronicled.faithful.mem_reached_iff, balanced.isDone_eq, balanced.isTerminal_eq]
  · intro milestone untold
    rw [chronicled.faithful.mem_reached_iff, Bool.not_eq_true] at untold
    exact (chronicled.faithful.ahead milestone untold).2.1
  · intro milestone reached
    rw [chronicled.faithful.mem_reached_iff] at reached
    exact (chronicled.faithful.behind milestone reached).2
  · intro observer scene called
    obtain ⟨closed, same⟩ := chronicled.seen observer scene called
    refine ⟨?_, same⟩
    rw [same, ← closed]
    exact balanced.isTerminal_eq
  · intro exhausted reached
    rw [chronicled.faithful.mem_reached_iff, balanced.isDone_eq] at reached
    obtain ⟨outcome, phase_eq⟩ := Phase.exists_ended_of_isClosed reached
    have begun : session.Attended := .new rfl precedence requests
    have attended := begun.run turns
    unfold Session.next? at exhausted
    split at exhausted
    · next empty => exact List.isEmpty_iff.mp empty
    · refine (attended.exhausted exhausted).resolve_right fun waits => ?_
      rw [show (session.run turns).linting.phase = _ from phase_eq] at waits
      simp [Phase.isAnswered] at waits
  · intro index answer known awaited started reached
    rw [chronicled.faithful.mem_reached_iff, balanced.isDone_eq] at reached
    obtain ⟨result, answered, replied⟩ := told.replied index answer known awaited
    have steady := told.steady answer (List.mem_reverse.mp (List.mem_of_getElem? known))
    obtain ⟨outcome, phase_eq⟩ : ∃ outcome, answer.linting.phase = .ended outcome := by
      cases phase : answer.linting.phase <;> simp_all [answer?, isStarted]
    have ended := chronicled.ended reached
    rw [steady.phase_eq outcome phase_eq, Phase.ended.injEq] at ended
    have state_eq := steady.state_eq (by rw [phase_eq, ended, isClosed_outcomeWith])
    rw [answer?_of_outcomeWith (phase_eq.trans (congrArg Phase.ended ended))] at answered
    rw [replied, ← Option.some.inj answered, state_eq]
    show Session.waitReply (if failures = [] then _ else _) = _
    split <;> rfl

/-- An observer of the end subscribes one that fails, handles that by subscribing another one, which
subscribes a third one, and fails itself; behind it comes an observer that does nothing. -/
def nestedRequests : List Request :=
  [.subscribe .done ⟨"outer", .subscribe .done "failing" (.fail (.ofValue "x")) fun failure? =>
      match failure? with
      | none => .leave
      | some _ =>
        .subscribe .started "handler" (.subscribe .done "third" .leave fun _ => .leave) fun _ =>
          .fail (.ofType "y")⟩,
    .subscribe .done ⟨"last", .leave⟩,
    .start,
    .wait]

/-- All five observers are called, each of them once, and waiting is answered with the one failure that
has escaped. -/
theorem delivery_to_nested_observers :
    let session := Session.new (.new default [] none .binary64) .creation nestedRequests
    let last := session.run 8
    (∀ request ∈ nestedRequests, request.IsOrdinary) ∧
      last.recorded.map (·.label) = ["outer", "failing", "handler", "third", "last"] ∧
      (session.story 8).filterMap record? = last.recorded ∧
      last.answers.head?.map (·.reply) =
        some (.refused (.failed (.grouped ⟨"1 done observer(s) of <source> failed", [.ofType "y"]⟩))) := by
  have ordinary : ∀ request ∈ nestedRequests, request.IsOrdinary := by
    simp only [nestedRequests, List.forall_mem_cons, Request.IsOrdinary, Observer.IsOrdinary]
    refine ⟨⟨rfl, fun failure? handled => ?_⟩, trivial, trivial, trivial, by simp⟩
    cases failure? with
    | none => trivial
    | some failure => exact ⟨⟨trivial, fun _ _ => trivial⟩, fun _ _ => rfl⟩
  exact ⟨ordinary, by decide +kernel,
    (delivery default [] none .binary64 .creation nestedRequests ordinary 8).1.symm,
    by decide +kernel⟩

end Linting
end MarkupLint
