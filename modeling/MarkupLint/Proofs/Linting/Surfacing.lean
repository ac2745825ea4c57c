import MarkupLint.Proofs.Linting.Shadow

/-!
# Where failures of observers surface

Every answer of a session is what the linting replied to the request at some moment of the story.  The
failures of the observers of a milestone, raised together, are the reply to the request that waits for
the milestone: those of the start to the request to start, and those of the end to waiting for it.
-/

namespace MarkupLint
namespace Linting

open Event

/-- The observer that is to wait for the milestone. -/
def Request.subscriber? (milestone : Milestone) : Request → Option Observer
  | subscribe other observer => if other = milestone then some observer else none
  | _ => none

/-- The reply, unless observers of a milestone have failed: then it is their failures, as one group. -/
def Reply.barring (reply : Reply) (milestone : Milestone) (name : String) (failures : List Failure) :
    Reply :=
  if failures = [] then reply
  else
    .refused (.failed (.grouped
      ⟨s!"{failures.length} {milestone.word} observer(s) of {name} failed", failures⟩))

theorem barring_failures
    {round : Audience.Round}
    (calm : round.escape? = none)
    (reply : Reply)
    (milestone : Milestone)
    (name : String) :
    (((ObserverFailure.ofRound? milestone name round).map Refusal.failed).map .refused).getD reply =
      reply.barring milestone name round.failures := by
  unfold ObserverFailure.ofRound? Reply.barring
  rw [calm]
  cases round.failures <;> rfl

/-- What a linting becomes by a request and what it replies, unless the reply has to wait. -/
def respond? (linting : Linting) : Request → Option (Linting × Reply)
  | .subscribe milestone observer =>
    let subscribed := linting.subscribe milestone observer
    some (subscribed.1.linting, (subscribed.2.map .failed).getD .accepted)
  | .misdirected word => some (linting, .failed (Milestone.unknown word))
  | .start =>
    let started := linting.start
    some (started.1.linting, (started.2.map .refused).getD .started)
  | .wait => linting.answer?.map fun answer => (linting, Session.waitReply answer)
  | .advance _ => some (linting, .accepted)

/-- Before the start, all milestones lie ahead. -/
theorem Balanced.hasReached_of_idle
    {linting : Linting}
    (balanced : Balanced linting)
    (idle : linting.isStarted = false)
    (milestone : Milestone) :
    linting.audience.hasReached milestone = false := by
  cases milestone with
  | started => rw [balanced.isStarted_eq, idle]
  | done =>
    have unstarted : linting.phase = .unstarted := by simpa [isStarted] using idle
    rw [balanced.isDone_eq, unstarted]
    rfl

/-- Subscribing in time has no failure. -/
theorem reply_of_subscribe
    {linting later : Linting}
    {milestone : Milestone}
    {observer : Observer}
    {reply : Reply}
    (responded : linting.respond? (.subscribe milestone observer) = some (later, reply))
    (ahead : later.audience.hasReached milestone = false) :
    reply = .accepted := by
  simp only [respond?, Linting.subscribe, Progress.linting_called, Progress.linting_start,
    Option.some.injEq, Prod.mk.injEq] at responded
  obtain ⟨rfl, rfl⟩ := responded
  rw [Audience.hasReached_subscribe] at ahead
  rw [Audience.subscribe, ahead]
  rfl

/-- Whatever observers fail, the run of a linting that is started is scheduled. -/
theorem respond?_start
    {linting : Linting}
    (idle : linting.isStarted = false)
    (calm : (linting.audience.announce .started).escape? = none) :
    linting.respond? .start = some
      ({ linting with
          phase := .scheduled
          audience := (linting.audience.announce .started).audience },
        Reply.started.barring .started linting.name
          (linting.audience.announce .started).failures) := by
  simp only [respond?, Linting.start, idle, Bool.false_eq_true, if_false, barring_failures calm,
    Progress.linting_called, Progress.linting_modify, Progress.linting_emit, Progress.linting_start]

/-- Waiting for an end that has been reached is answered by the failures of the observers of it. -/
theorem respond?_wait_of_outcomeWith
    {linting : Linting}
    {failures : List Failure}
    (phase_eq : linting.phase = .ended (outcomeWith linting.name failures)) :
    linting.respond? .wait =
      some (linting, (Reply.finished linting.state).barring .done linting.name failures) := by
  rw [respond?, answer?_of_outcomeWith phase_eq, Option.map_some, Reply.barring]
  split <;> rfl

namespace Session

/-- A story that accounts for every answer of a session by the moment at which it was given. -/
structure Explained (requests : List Request) (session : Session) (story : List Event) : Prop
    extends Told requests session story where
  moment : ∀ (index : Nat) (answer : Answer), session.answers.reverse[index]? = some answer →
    ∃ earlier before request, Told requests earlier before ∧ before <+: story ∧
      earlier.answers.length = index ∧ requests[index]? = some request ∧
      earlier.linting.respond? request = some (answer.linting, answer.reply)

namespace Explained

variable {requests : List Request} {session later : Session} {story events : List Event}

theorem new
    {requests : List Request}
    (ordinary : ∀ request ∈ requests, request.IsOrdinary)
    (document : Document)
    (rules : RuleSet)
    (timeout? : Option Binary64)
    (precision : Precision)
    (precedence : Precedence SessionTurn) :
    Explained requests (.new (.new document rules timeout? precision) precedence requests) [] where
  toTold := .new ordinary document rules timeout? precision precedence
  moment := by simp [Session.new]

/-- As long as nothing is answered, nothing more is to be explained. -/
theorem keep
    (explained : Explained requests session story)
    (told : Told requests later (story ++ events))
    (answers_eq : later.answers = session.answers) :
    Explained requests later (story ++ events) where
  toTold := told
  moment := by
    intro index answer known
    rw [answers_eq] at known
    obtain ⟨earlier, before, request, early, started, rest⟩ := explained.moment index answer known
    exact ⟨earlier, before, request, early, started.trans (List.prefix_append story events), rest⟩

/-- An answer is explained by the moment at which it is given. -/
theorem answer
    {request : Request}
    {reply : Reply}
    (explained : Explained requests session story)
    (told : Told requests (later.answer reply) (story ++ events))
    (answers_eq : later.answers = session.answers)
    (asked : requests[session.answers.length]? = some request)
    (responded : session.linting.respond? request = some (later.linting, reply)) :
    Explained requests (later.answer reply) (story ++ events) where
  toTold := told
  moment := by
    intro index answer known
    simp only [Session.answer, answers_eq] at known
    rcases getElem?_reverse_cons known with earlier | ⟨rfl, rfl⟩
    · obtain ⟨moment, before, asking, tells, started, rest⟩ := explained.moment index answer earlier
      exact ⟨moment, before, asking, tells, started.trans (List.prefix_append story events), rest⟩
    · exact ⟨session, story, request, explained.toTold, List.prefix_append story events, rfl, asked,
        responded⟩

/-- The answer to a request is what the linting replies to it. -/
theorem request
    {request : Request}
    (explained : Explained requests session story)
    (asked : requests[session.answers.length]? = some request) :
    Explained requests (session.request request) (story ++ session.requestEvents request) := by
  have told := explained.toTold.request asked
  cases request with
  | subscribe milestone observer =>
    refine explained.answer told (session.answers_follow _) asked ?_
    rw [linting_follow]
    rfl
  | misdirected word => exact explained.answer told rfl asked rfl
  | start =>
    refine explained.answer told (session.answers_follow _) asked ?_
    rw [linting_follow]
    rfl
  | wait =>
    simp only [Session.request] at told ⊢
    split at told
    · next result answered =>
      refine explained.answer told rfl asked ?_
      rw [respond?, answered, Option.map_some]
    · exact explained.keep told rfl
  | advance seconds => exact explained.keep told rfl

theorem makeRequests
    {left : List Request}
    (explained : Explained requests session story)
    (same : session.requests = left) :
    Explained requests (session.makeRequests left) (story ++ session.requestsEvents left) := by
  induction left generalizing session story with
  | nil =>
    rw [requestsEvents, List.append_nil]
    exact explained
  | cons next rest ih =>
    have first := explained.request (explained.asked_of_requests same)
    simp only [Session.makeRequests, requestsEvents]
    split
    · next free =>
      rw [← List.append_assoc]
      exact ih first (requests_request same free)
    · rw [List.append_nil]
      exact first

theorem catchUp (explained : Explained requests session story) :
    Explained requests session.catchUp story := by
  have told := explained.toTold.catchUp
  rw [← List.append_nil story] at told ⊢
  unfold Session.catchUp at told ⊢
  split at told
  · exact explained.keep told rfl
  · next passing =>
    obtain ⟨seconds, asked⟩ := explained.passing passing
    exact explained.answer told rfl asked rfl
  · next waiting =>
    split at told
    · next result answered =>
      refine explained.answer told rfl (explained.waiting waiting) ?_
      rw [respond?, answered, Option.map_some]
    · exact explained.keep told rfl

theorem take (explained : Explained requests session story) (turn : SessionTurn) :
    Explained requests (session.take turn) (story ++ session.turnEvents turn) := by
  have told := explained.toTold.take turn
  cases turn with
  | linting turn =>
    exact explained.keep told (session.answers_follow _)
  | caller =>
    have caught := explained.catchUp
    simp only [Session.take, resume, turnEvents]
    split
    · exact caught.makeRequests rfl
    · rw [List.append_nil]
      exact caught
  | wakeCaller => exact explained.keep told rfl

/-- Every answer of a session is what the linting replied to the request at some moment. -/
theorem run (explained : Explained requests session story) (turns : Nat) :
    Explained requests (session.run turns) (story ++ session.story turns) := by
  induction turns generalizing session story with
  | zero =>
    rw [Session.story, List.append_nil]
    exact explained
  | succ turns ih =>
    simp only [Session.run, Session.story, nextEvents, next?, step?]
    cases session.isOver
    · cases session.schedule.next? with
      | none => simpa using explained
      | some next =>
        have rescheduled : Explained requests { session with schedule := next.2 } story :=
          ⟨explained.toTold.reschedule next.2, explained.moment⟩
        rw [← List.append_assoc]
        exact ih (rescheduled.take next.1)
    · simpa using explained

end Explained

namespace Told

variable {requests : List Request} {session : Session} {story : List Event}

/-- Before the start, observers have subscribed by requests only. -/
theorem subscription?_of_idle
    (told : Told requests session story)
    (idle : session.linting.isStarted = false) :
    story.filterMap subscription? =
      (requests.take session.answers.length).filterMap Request.subscription? := by
  have ahead := told.chronicled.balanced.hasReached_of_idle idle
  have uncalled : story.flatMap made = [] := by
    rw [List.flatMap_eq_nil_iff]
    intro event event_mem
    cases event with
    | called milestone observer scene =>
      have called := mem_calls event_mem
      simp [(told.chronicled.faithful.ahead milestone (ahead milestone)).2.1] at called
    | _ => rfl
  have length_eq := told.tallied.perm.length_eq
  rw [uncalled, List.append_nil] at length_eq
  exact (told.tallied.requested_sublist.eq_of_length length_eq.symm).symm

/-- Before the start, those who wait for it are those of the requests, in order. -/
theorem waitingFor_of_idle
    (told : Told requests session story)
    (idle : session.linting.isStarted = false) :
    session.linting.audience.waitingFor .started =
      (requests.take session.answers.length).filterMap (Request.subscriber? .started) := by
  have ahead := told.chronicled.balanced.hasReached_of_idle idle .started
  have of_event : ∀ event : Event, event.subscriber? .started =
      event.subscription?.bind fun made => if made.1 = .started then some made.2 else none := by
    intro event
    cases event <;> rfl
  have of_request : ∀ request : Request, request.subscriber? .started =
      request.subscription?.bind fun made => if made.1 = .started then some made.2 else none := by
    intro request
    cases request <;> rfl
  rw [(told.chronicled.faithful.ahead .started ahead).2.2, subscriptions, funext of_event,
    funext of_request, ← List.filterMap_filterMap, ← List.filterMap_filterMap,
    told.subscription?_of_idle idle]

/-- The first request to start is answered by the failures of those who were to wait for the start. -/
theorem reply_of_start
    {later : Linting}
    {reply : Reply}
    (told : Told requests session story)
    (idle : session.linting.isStarted = false)
    (responded : session.linting.respond? .start = some (later, reply)) :
    later.phase = .scheduled ∧
      reply = Reply.started.barring .started later.name
        (((requests.take session.answers.length).filterMap
          (Request.subscriber? .started)).filterMap
            (Observer.escapeBehind? fun milestone => decide (milestone = .started))) := by
  have ahead := told.chronicled.balanced.hasReached_of_idle idle
  obtain ⟨failures_eq, calm⟩ := @Audience.failures_announce session.linting.audience .started
    fun _ waits => told.chronicled.faithful.ordinary_of_mem_waitingFor waits
  rw [respond?_start idle calm, failures_eq, told.waitingFor_of_idle idle, Option.some.injEq,
    Prod.mk.injEq] at responded
  obtain ⟨rfl, rfl⟩ := responded
  simp only [ahead, Bool.or_false, and_self]

/-- Waiting for the end of a run that has been started is answered by the failures of those who
subscribed to the end before it, or by the failure that has stopped the run. -/
theorem reply_of_wait
    {later : Linting}
    {reply : Reply}
    (told : Told requests session story)
    (started : session.linting.isStarted = true)
    (responded : session.linting.respond? .wait = some (later, reply))
    (rest : List Event) :
    (later.state.isTerminal = true →
        reply = (Reply.finished later.state).barring .done later.name
          ((subscriptions .done (early .done (story ++ rest))).filterMap Observer.escape?)) ∧
      (later.state.isTerminal = false →
        ∃ failure, later.phase = .ended (.stopped failure) ∧ reply = .refused (.stopped failure)) := by
  have balanced := told.chronicled.balanced
  obtain ⟨result, answered, replied⟩ := Option.map_eq_some_iff.mp responded
  cases replied
  rw [balanced.isTerminal_eq]
  refine ⟨fun closed => ?_, fun opened => ?_⟩
  · rw [early_append_of_mem (told.chronicled.mem_reached closed)]
    rw [respond?_wait_of_outcomeWith (told.chronicled.ended closed), Option.some.injEq,
      Prod.mk.injEq] at responded
    exact responded.2.symm
  · unfold answer? at answered
    simp only [isStarted] at started
    cases phase : session.linting.phase with
    | ended outcome =>
      cases outcome with
      | stopped failure =>
        rw [phase, Option.some.injEq] at answered
        exact ⟨failure, rfl, by rw [← answered]; rfl⟩
      | _ => simp [phase, Phase.isClosed] at opened
    | _ => simp_all

end Told

/-- A caller who has had a turn is free only when all requests have been made. -/
theorem requests_goOn_of_free
    {session : Session}
    (spent : session.caller = .free → session.requests = [])
    (turns : Nat) :
    (session.goOn turns).caller = .free → (session.goOn turns).requests = [] := by
  refine @goOn_induction (fun later => later.caller = .free → later.requests = []) ?_ session spent
    turns
  intro earlier later spent stepped free
  obtain ⟨⟨turn, schedule⟩, popped, rfl⟩ := Option.map_eq_some_iff.mp stepped
  cases turn with
  | linting turn =>
    simp only [Session.take, caller_follow, requests_follow] at free ⊢
    exact spent free
  | caller => exact requests_resume_of_free free
  | wakeCaller => exact spent free

variable {document : Document} {rules : RuleSet} {timeout? : Option Binary64} {precision : Precision}
  {precedence : Precedence SessionTurn}

/-- In the first turn, the caller makes requests. -/
theorem requests_run_of_free
    (requests : List Request)
    (turns : Nat) :
    let session := (new (.new document rules timeout? precision) precedence requests).run (turns + 1)
    session.caller = .free → session.requests = [] := by
  cases requests with
  | nil => exact fun _ => rfl
  | cons first rest =>
    have stepped : (new (.new document rules timeout? precision) precedence (first :: rest)).next? =
        some ({ new (.new document rules timeout? precision) precedence (first :: rest) with
          schedule := Schedule.empty precision precedence }).resume := rfl
    simp only [run, stepped]
    obtain ⟨taken, -, same⟩ := exists_run_eq_goOn
      ({ new (.new document rules timeout? precision) precedence (first :: rest) with
        schedule := Schedule.empty precision precedence }).resume turns
    rw [same]
    exact requests_goOn_of_free requests_resume_of_free taken

/-- In its first turn, a session answers all requests that are no operations, and a start behind
them. -/
theorem lt_length_answers_run
    {requests : List Request}
    {index : Nat}
    (ordinary : ∀ request ∈ requests, request.IsOrdinary)
    (starts : requests[index]? = some .start)
    (observes : ∀ request ∈ requests.take index, request.isOperation = false)
    (turns : Nat) :
    index < ((new (.new document rules timeout? precision) precedence requests).run
      (turns + 1)).answers.length := by
  have told := (Told.new ordinary document rules timeout? precision precedence).run (turns + 1)
  have spent :=
    @requests_run_of_free document rules timeout? precision precedence requests turns
  generalize (new (.new document rules timeout? precision) precedence requests).run (turns + 1) =
    session at *
  by_contra late
  have asked : ∀ request, requests[session.answers.length]? = some request →
      request.isOperation = false ∨ request = .start := by
    intro request asked
    rcases Nat.lt_or_ge session.answers.length index with early | same
    · have taken := List.getElem?_take_of_lt early (l := requests)
      exact .inl (observes request (List.mem_of_getElem? (taken.trans asked)))
    · obtain rfl : index = session.answers.length := by omega
      exact .inr (Option.some.inj (asked.symm.trans starts))
  cases caller : session.caller with
  | free =>
    have left := told.requests_eq
    rw [spent caller, eq_comm, List.drop_eq_nil_iff] at left
    have bound := (List.getElem?_eq_some_iff.mp starts).1
    omega
  | waiting => simpa [Request.isOperation] using asked _ (told.waiting caller)
  | passing =>
    obtain ⟨seconds, advances⟩ := told.passing caller
    simpa [Request.isOperation] using asked _ advances

end Session

/-- Where the failures of observers surface, whatever observers subscribe, and whatever they fail
with that those who handle failures handle.  A start that only subscriptions precede is answered in the
first turn.  Whoever subscribes to a milestone that lies ahead is told of no failure.  The first request
to start the linting schedules the run; the reply is the linting itself if no observer of the start has
failed, and otherwise a group of exactly the failures of these observers, in order, although the run
goes on.  Waiting for the end of a run that has been started is answered with the state or, if observers
that subscribed to the end before it failed, with a group of exactly their failures, in order; or with
the failure of an instance that has stopped the run.  The failures of observers of the start never
surface there. -/
theorem surfacing
    (document : Document)
    (rules : RuleSet)
    (timeout? : Option Binary64)
    (precision : Precision)
    (precedence : Precedence SessionTurn)
    (requests : List Request)
    (ordinary : ∀ request ∈ requests, request.IsOrdinary)
    (turns : Nat) :
    let session := Session.new (.new document rules timeout? precision) precedence requests
    let last := session.run turns
    (∀ index : Nat, requests[index]? = some .start →
        (∀ request ∈ requests.take index, request.isOperation = false) → 0 < turns →
          index < last.answers.length) ∧
      ∀ (index : Nat) (answer : Answer), last.answers.reverse[index]? = some answer →
        (∀ milestone observer, requests[index]? = some (.subscribe milestone observer) →
            answer.linting.audience.hasReached milestone = false → answer.reply = .accepted) ∧
          (requests[index]? = some .start → .start ∉ requests.take index →
            answer.linting.phase = .scheduled ∧
              answer.reply = Reply.started.barring .started answer.linting.name
                (((requests.take index).filterMap (Request.subscriber? .started)).filterMap
                  (Observer.escapeBehind? fun milestone => decide (milestone = .started)))) ∧
          (requests[index]? = some .wait → .start ∈ requests.take index →
            (answer.linting.state.isTerminal = true →
                answer.reply =
                  (Reply.finished answer.linting.state).barring .done answer.linting.name
                    ((subscriptions .done (early .done (session.story turns))).filterMap
                      Observer.escape?)) ∧
              (answer.linting.state.isTerminal = false →
                ∃ failure, answer.linting.phase = .ended (.stopped failure) ∧
                  answer.reply = .refused (.stopped failure))) := by
  intro session last
  have explained : last.Explained requests (session.story turns) := by
    have begun :=
      (Session.Explained.new ordinary document rules timeout? precision precedence).run turns
    rwa [List.nil_append] at begun
  refine ⟨fun index starts observes some => ?_, fun index answer known => ?_⟩
  · obtain ⟨more, rfl⟩ := Nat.exists_eq_succ_of_ne_zero (Nat.ne_of_gt some)
    exact Session.lt_length_answers_run ordinary starts observes more
  obtain ⟨earlier, before, request, told, ⟨behind, story_eq⟩, rfl, asked, responded⟩ :=
    explained.moment index answer known
  refine ⟨fun milestone observer subscribes ahead => ?_, fun starts first => ?_,
    fun waits started => ?_⟩
  · obtain rfl := Option.some.inj (asked.symm.trans subscribes)
    exact reply_of_subscribe responded ahead
  · obtain rfl := Option.some.inj (asked.symm.trans starts)
    exact told.reply_of_start (by rwa [← Bool.not_eq_true, told.isStarted_iff]) responded
  · obtain rfl := Option.some.inj (asked.symm.trans waits)
    rw [← story_eq]
    exact told.reply_of_wait (told.isStarted_iff.mpr started) responded behind

/-- A linting with one instance, which reports at once. -/
def reporting : Linting :=
  .new default [("a", [.custom ⟨[.report .warn "w" .nothing], none⟩])] none .binary64

/-- Observers of both milestones that fail are subscribed, and the linting is started and waited for. -/
def failingRequests : List Request :=
  let failing := fun label => (⟨label, .fail (.ofValue label)⟩ : Observer)
  [.subscribe .started (failing "x"), .subscribe .done (failing "y"), .start, .wait]

/-- The first answer behind the subscriptions has been given in the first turn. -/
theorem surfacing_of_both_failing :
    (∀ request ∈ failingRequests, request.IsOrdinary) ∧
      (Session.answersOf reporting .creation failingRequests).map (·.reply) =
        [.accepted, .accepted,
          .refused (.failed (.grouped ⟨"1 started observer(s) of <source> failed", [.ofValue "x"]⟩)),
          .refused (.failed (.grouped ⟨"1 done observer(s) of <source> failed", [.ofValue "y"]⟩))] ∧
      2 < ((Session.new reporting .creation failingRequests).run 1).answers.length := by
  have ordinary : ∀ request ∈ failingRequests, request.IsOrdinary := by
    simp only [failingRequests, List.forall_mem_cons, Request.IsOrdinary]
    exact ⟨rfl, rfl, trivial, trivial, by simp⟩
  refine ⟨ordinary, by decide +kernel, ?_⟩
  exact (surfacing default _ none .binary64 .creation failingRequests ordinary 1).1 2 rfl
    (by decide) Nat.one_pos

/-- An observer of the start fails: the caller who starts the linting is told of the failure and not
given the linting, whose run goes on; the caller who waits for the end is told of no failure. -/
theorem refused_start_of_failing_observer :
    let failing : Observer := ⟨"x", .fail (.of "ValueError" ["no"])⟩
    (Session.answersOf reporting .creation [.subscribe .started failing, .start, .wait]).map
        (·.reply) =
      [.accepted,
        .refused (.failed (.grouped
          ⟨"1 started observer(s) of <source> failed", [(.of "ValueError" ["no"])]⟩)),
        .finished .warning] := by
  decide

end Linting
end MarkupLint
