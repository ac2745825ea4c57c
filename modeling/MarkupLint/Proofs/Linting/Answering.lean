import MarkupLint.Proofs.Linting.Orderly

/-!
# Answers to requests

Requests are answered one after another.  Whoever waits is answered by the outcome of the run, which
stays as it is; nothing is answered before the run has been started if the start was requested before;
and as long as a request is not answered, the caller waits because of it.
-/

namespace MarkupLint
namespace Linting

/-- Once a run is over, its outcome stays; and if it is over with all members done, so does the
state. -/
structure Steady (before after : Linting) : Prop where
  phase_eq : ∀ outcome, before.phase = .ended outcome → after.phase = .ended outcome
  state_eq : before.phase.isClosed = true → after.state = before.state

namespace Steady

variable {first second third linting : Linting}

theorem refl (linting : Linting) : Steady linting linting := ⟨fun _ same => same, fun _ => rfl⟩

theorem trans (early : Steady first second) (late : Steady second third) : Steady first third where
  phase_eq := fun outcome same => late.phase_eq outcome (early.phase_eq outcome same)
  state_eq := by
    intro closed
    obtain ⟨outcome, phase_eq⟩ := Phase.exists_ended_of_isClosed closed
    have still : second.phase.isClosed = true := by
      rw [early.phase_eq outcome phase_eq, ← phase_eq, closed]
    exact (late.state_eq still).trans (early.state_eq closed)

theorem take (balanced : Balanced linting) (now : Rat) (turn : Turn) :
    Steady linting (linting.take now turn).linting where
  phase_eq := by
    intro outcome ended
    cases taken linting now turn with
    | nothing idle nobody same =>
      rw [same]
      exact ended
    | begin isRun scheduled same => simp [ended] at scheduled
    | finish isRun settled same => simp [ended] at settled
    | member index own member isMember known same =>
      have followed := @Progress.followed_follow (.start linting) index member _ known
        (member.conduct_take linting.toSetting now own)
      rw [same, followed.phase_eq, if_neg]
      · exact ended
      · simp [ended]
  state_eq := fun closed => (balanced.same_of_isClosed closed (.take now turn)).1

theorem start (balanced : Balanced linting) : Steady linting linting.start.1.linting where
  phase_eq := by
    intro outcome ended
    simp [Linting.start, isStarted, ended]
  state_eq := fun closed => (balanced.same_of_isClosed closed .start).1

theorem subscribe (milestone : Milestone) (observer : Observer) :
    Steady linting (linting.subscribe milestone observer).1.linting := by
  simp only [Linting.subscribe, Progress.linting_called, Progress.linting_start]
  exact ⟨fun _ same => same, fun _ => rfl⟩

end Steady

/-- Starting starts. -/
theorem isStarted_start (linting : Linting) : linting.start.1.linting.isStarted = true := by
  simp only [Linting.start]
  split
  · next started => exact started
  · simp [isStarted]

/-- Turns start nothing. -/
theorem isStarted_take {linting : Linting} (balanced : Balanced linting) (now : Rat) (turn : Turn) :
    (linting.take now turn).linting.isStarted = linting.isStarted := by
  rw [← (balanced.take now turn).isStarted_eq, ← balanced.isStarted_eq]
  cases Heard.take linting now turn with
  | nothing setting_eq audience_eq isClosed_eq observed_eq => rw [audience_eq]
  | ended setting_eq isClosed_eq started audience_eq phase_eq observed_eq =>
    rw [audience_eq, Audience.hasReached_announce]
    simp

namespace Session

/-- What a session has become in the midst of a request or a turn, before anything is answered. -/
structure Leads (before after : Session) : Prop where
  caller_eq : after.caller = before.caller
  requests_eq : after.requests = before.requests
  answers_eq : after.answers = before.answers
  balanced : Balanced after.linting
  steady : Steady before.linting after.linting

theorem Leads.refl {session : Session} (balanced : Balanced session.linting) : Leads session session :=
  ⟨rfl, rfl, rfl, balanced, .refl _⟩

theorem leads_follow
    {session : Session}
    {progress : Progress}
    (balanced : Balanced progress.linting)
    (steady : Steady session.linting progress.linting) :
    Leads session (session.follow progress) where
  caller_eq := session.caller_follow progress
  requests_eq := session.requests_follow progress
  answers_eq := session.answers_follow progress
  balanced := by rwa [linting_follow]
  steady := by rwa [linting_follow]

theorem waitReply_ne_deadlock (result : Except Refusal LintState) :
    waitReply result ≠ .deadlock := by
  cases result <;> exact Reply.noConfusion

/-- What a session that was begun with some requests has answered. -/
structure Answering (requests : List Request) (session : Session) : Prop where
  balanced : Balanced session.linting
  /-- The requests that are not answered are left. -/
  requests_eq : session.requests = requests.drop session.answers.length
  length_le : session.answers.length ≤ requests.length
  waiting : session.caller = .waiting → requests[session.answers.length]? = some .wait
  passing : session.caller = .passing →
    ∃ seconds, requests[session.answers.length]? = some (.advance seconds)
  /-- Waiting is answered by the outcome. -/
  replied : ∀ (index : Nat) (answer : Answer), session.answers.reverse[index]? = some answer →
    requests[index]? = some .wait →
      ∃ result, answer.linting.answer? = some result ∧ answer.reply = waitReply result
  /-- The run has been started in every answer behind a request to start it. -/
  started : ∀ (index : Nat) (answer : Answer), session.answers.reverse[index]? = some answer →
    .start ∈ requests.take (index + 1) → answer.linting.isStarted = true
  /-- Nothing that is answered waits for ever. -/
  alive : ∀ answer ∈ session.answers, answer.reply ≠ .deadlock
  steady : ∀ answer ∈ session.answers, Steady answer.linting session.linting
  isStarted_iff : session.linting.isStarted = true ↔
    .start ∈ requests.take session.answers.length

namespace Answering

variable {requests : List Request} {session later : Session}

theorem new
    (document : Document)
    (rules : RuleSet)
    (timeout? : Option Binary64)
    (precision : Precision)
    (precedence : Precedence SessionTurn)
    (requests : List Request) :
    Answering requests (.new (.new document rules timeout? precision) precedence requests) where
  balanced := .new document rules timeout? precision
  requests_eq := rfl
  length_le := Nat.zero_le _
  waiting := by simp [Session.new]
  passing := by simp [Session.new]
  replied := by simp [Session.new]
  started := by simp [Session.new]
  alive := by simp [Session.new]
  steady := by simp [Session.new]
  isStarted_iff := by simp [Session.new, isStarted, Linting.new]

/-- A turn that answers nothing. -/
theorem follow
    (answering : Answering requests session)
    (leads : Leads session later)
    (isStarted_eq : later.linting.isStarted = session.linting.isStarted) :
    Answering requests later := by
  refine ⟨leads.balanced, ?_, ?_, ?_, ?_, ?_, ?_, ?_, fun answer known => ?_, ?_⟩
  · rw [leads.requests_eq, leads.answers_eq, answering.requests_eq]
  · rw [leads.answers_eq]
    exact answering.length_le
  · rw [leads.caller_eq, leads.answers_eq]
    exact answering.waiting
  · rw [leads.caller_eq, leads.answers_eq]
    exact answering.passing
  · rw [leads.answers_eq]
    exact answering.replied
  · rw [leads.answers_eq]
    exact answering.started
  · rw [leads.answers_eq]
    exact answering.alive
  · rw [leads.answers_eq] at known
    exact (answering.steady answer known).trans leads.steady
  · rw [isStarted_eq, leads.answers_eq]
    exact answering.isStarted_iff

theorem take_succ
    {request : Request}
    (asked : requests[session.answers.length]? = some request) :
    requests.take (session.answers.length + 1) =
      requests.take session.answers.length ++ [request] := by
  rw [List.take_add_one, asked, Option.toList_some]

/-- A request that is answered. -/
theorem answer
    {request : Request}
    {reply : Reply}
    (answering : Answering requests session)
    (leads : Leads session later)
    (asked : requests[session.answers.length]? = some request)
    (waited : request = .wait →
      ∃ result, later.linting.answer? = some result ∧ reply = waitReply result)
    (alive : reply ≠ .deadlock)
    (isStarted_iff : later.linting.isStarted = true ↔
      session.linting.isStarted = true ∨ request = .start) :
    Answering requests (later.answer reply) := by
  have startedLater : later.linting.isStarted = true ↔
      .start ∈ requests.take (session.answers.length + 1) := by
    rw [isStarted_iff, answering.isStarted_iff, take_succ asked, List.mem_append,
      List.mem_singleton, @eq_comm _ request]
  refine ⟨leads.balanced, ?_, ?_, by simp [Session.answer], by simp [Session.answer], ?_, ?_, ?_, ?_,
    ?_⟩
  · simp only [Session.answer, leads.requests_eq, leads.answers_eq, answering.requests_eq,
      List.length_cons, List.drop_drop]
  · simp only [Session.answer, leads.answers_eq, List.length_cons]
    exact (List.getElem?_eq_some_iff.mp asked).1
  · intro index answer known awaited
    simp only [Session.answer, leads.answers_eq] at known
    rcases getElem?_reverse_cons known with earlier | ⟨rfl, rfl⟩
    · exact answering.replied index answer earlier awaited
    · rw [asked, Option.some.injEq] at awaited
      exact waited awaited
  · intro index answer known starts
    simp only [Session.answer, leads.answers_eq] at known
    rcases getElem?_reverse_cons known with earlier | ⟨rfl, rfl⟩
    · exact answering.started index answer earlier starts
    · exact startedLater.mpr starts
  · intro answer known
    simp only [Session.answer, leads.answers_eq, List.mem_cons] at known
    rcases known with rfl | earlier
    · exact alive
    · exact answering.alive answer earlier
  · intro answer known
    simp only [Session.answer, leads.answers_eq, List.mem_cons] at known
    rcases known with rfl | earlier
    · exact .refl _
    · exact (answering.steady answer earlier).trans leads.steady
  · simp only [Session.answer, leads.answers_eq, List.length_cons]
    exact startedLater

/-- Nothing but the schedule has changed. -/
theorem reschedule
    (answering : Answering requests session)
    (schedule : Schedule SessionTurn) :
    Answering requests { session with schedule := schedule } :=
  { answering with }

/-- A request that leads to nothing but an answer. -/
theorem answer_at_once
    {request : Request}
    {reply : Reply}
    (answering : Answering requests session)
    (asked : requests[session.answers.length]? = some request)
    (other : request ≠ .start)
    (waited : request = .wait →
      ∃ result, session.linting.answer? = some result ∧ reply = waitReply result)
    (alive : reply ≠ .deadlock) :
    Answering requests (session.answer reply) :=
  answering.answer (.refl answering.balanced) asked waited alive (by simp [other])

/-- Every request is answered, or the caller waits because of it. -/
theorem request
    {request : Request}
    (answering : Answering requests session)
    (asked : requests[session.answers.length]? = some request) :
    Answering requests (session.request request) := by
  have balanced := answering.balanced
  cases request with
  | subscribe milestone observer =>
    have leads := leads_follow (balanced.subscribe milestone observer) (.subscribe milestone observer)
    refine answering.answer leads asked (by simp) ?_ ?_
    · cases (session.linting.subscribe milestone observer).2 <;> exact Reply.noConfusion
    · rw [linting_follow]
      simp [Linting.subscribe, isStarted]
  | misdirected word => exact answering.answer_at_once asked (by simp) (by simp) Reply.noConfusion
  | start =>
    have leads := leads_follow balanced.start (.start balanced)
    refine answering.answer leads asked (by simp) ?_ ?_
    · cases session.linting.start.2 <;> exact Reply.noConfusion
    · rw [linting_follow]
      simp only [or_true, iff_true]
      exact isStarted_start session.linting
  | wait =>
    simp only [Session.request]
    split
    · next result answered =>
      exact answering.answer_at_once asked (by simp) (fun _ => ⟨result, answered, rfl⟩)
        (waitReply_ne_deadlock result)
    · exact { answering with waiting := fun _ => asked, passing := by simp }
  | advance seconds =>
    exact { answering with waiting := by simp [Session.request], passing := fun _ => ⟨seconds, asked⟩ }

theorem asked_of_requests
    {next : Request}
    {rest : List Request}
    (answering : Answering requests session)
    (same : session.requests = next :: rest) :
    requests[session.answers.length]? = some next := by
  have left := answering.requests_eq
  rw [same] at left
  rw [← List.head?_drop, ← left, List.head?_cons]

/-- Requests are made one after another. -/
theorem makeRequests
    {left : List Request}
    (answering : Answering requests session)
    (same : session.requests = left) :
    Answering requests (session.makeRequests left) := by
  induction left generalizing session with
  | nil => exact answering
  | cons next rest ih =>
    have first := answering.request (answering.asked_of_requests same)
    simp only [Session.makeRequests]
    split
    · next free => exact ih first (requests_request same free)
    · exact first

theorem catchUp (answering : Answering requests session) :
    Answering requests session.catchUp := by
  unfold Session.catchUp
  split
  · exact answering
  · next passing =>
    obtain ⟨seconds, asked⟩ := answering.passing passing
    exact answering.answer_at_once asked (by simp) (by simp) Reply.noConfusion
  · next waiting =>
    split
    · next result answered =>
      exact answering.answer_at_once (answering.waiting waiting) (by simp)
        (fun _ => ⟨result, answered, rfl⟩) (waitReply_ne_deadlock result)
    · exact answering

/-- No turn takes back what has been answered. -/
theorem take (answering : Answering requests session) (turn : SessionTurn) :
    Answering requests (session.take turn) := by
  have balanced := answering.balanced
  cases turn with
  | linting turn =>
    refine answering.follow (leads_follow (balanced.take _ turn) (.take balanced _ turn)) ?_
    rw [Session.take, linting_follow]
    exact isStarted_take balanced _ turn
  | caller =>
    have caught := answering.catchUp
    simp only [Session.take, resume]
    split
    · exact caught.makeRequests rfl
    · exact caught
  | wakeCaller => exact answering.reschedule _

theorem goOn (answering : Answering requests session) (turns : Nat) :
    Answering requests (session.goOn turns) := by
  refine goOn_induction (fun earlier later answering stepped => ?_) answering turns
  obtain ⟨next, -, rfl⟩ := Option.map_eq_some_iff.mp stepped
  exact (answering.reschedule next.2).take next.1

end Answering
end Session
end Linting
end MarkupLint
