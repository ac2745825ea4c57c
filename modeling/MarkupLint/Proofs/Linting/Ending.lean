import MarkupLint.Proofs.Linting.Answering
import MarkupLint.Proofs.Linting.Collecting
import MarkupLint.Proofs.Linting.Configured
import MarkupLint.Proofs.Performance

/-!
# How a session ends

When nothing can ever happen again in a session that is to start its run, the run has begun.  It has
come to its end if one of the members stopped it when it was invoked, or if all members are done;
otherwise it waits for ever.
-/

namespace MarkupLint
namespace Linting

/-- The run goes on behind a member unless what it does at once ends with a failure that nobody
handles. -/
theorem goesOn_iff (linting : Linting) (now : Rat) (index : Nat) :
    linting.goesOn now index = true ↔ ∀ member, linting.members[index]? = some member →
      member.script.escape? linting.document = none := by
  simp only [goesOn, Progress.invoke, Progress.member?, Progress.linting_start]
  split
  · next unknown => simp [unknown]
  · next member known =>
    rw [Member.invoke_snd]
    simp [known]

/-- Whether the run goes on behind all members. -/
def goesThrough (linting : Linting) (now : Rat) : Bool :=
  (List.range linting.members.length).all (linting.goesOn now)

/-- Whether all members are done. -/
def isDone (linting : Linting) : Bool := linting.members.all (·.reporter.isFinished)

namespace Entering

variable {linting : Linting} {progress : Progress}

/-- Whether the run goes on behind members depends on each of them only. -/
theorem invokeAll_snd
    {indices : List Nat}
    (entering : Entering linting progress)
    (once : indices.Nodup)
    (untouched : ∀ other ∈ indices,
      progress.linting.members[other]? = linting.members[other]?)
    (now : Rat) :
    (progress.invokeAll now indices).2.isNone = indices.all (linting.goesOn now) := by
  induction indices generalizing progress with
  | nil => rfl
  | cons first rest ih =>
    rw [List.nodup_cons] at once
    have goes := entering.goesOn_eq (untouched first List.mem_cons_self) now
    simp only [Progress.invokeAll, goes, List.all_cons]
    split
    · next goes =>
      rw [goes, Bool.true_and]
      apply ih (entering.invoke first now) once.2
      intro other known
      rw [members_invoke_of_mem once.1 known]
      exact untouched other (List.mem_cons_of_mem _ known)
    · next stops =>
      rw [goes]
      simp [stops]

end Entering

/-- How far a run has come that has begun: whether it was stopped is decided. -/
structure Decided (linting : Linting) (goesThrough : Bool) : Prop where
  begun : linting.phase.isEarly = false
  invoked : linting.phase ≠ .invoking
  stopped : linting.phase.isStopped = !goesThrough

theorem Progress.isStopped_outcomeOf (name : String) (round : Audience.Round) :
    (Phase.ended (outcomeOf name round)).isStopped = false := by
  unfold outcomeOf
  split <;> rfl

/-- When the run begins, it is decided whether it is stopped. -/
theorem decided_begin
    {linting : Linting}
    (balanced : Balanced linting)
    (scheduled : linting.phase = .scheduled)
    (now : Rat) :
    Decided ((Progress.start linting).begin now).linting (linting.goesThrough now) := by
  have goes : ((Progress.start linting).invokeEvery now).2.isNone = linting.goesThrough now :=
    (Entering.enter balanced scheduled).invokeAll_snd List.nodup_range (fun _ _ => rfl) now
  refine ⟨isEarly_begin _ _, ?_, ?_⟩
  · cases (Progress.start linting).begun now with
    | stopped failure stops same => simp [same, Progress.close]
    | waiting goesOn some same => simp [same]
    | finished goesOn none same => simp [same, Progress.linting_finish]
  · rw [← goes]
    cases (Progress.start linting).begun now with
    | stopped failure stops same => simp [same, stops, Progress.close, Phase.isStopped]
    | waiting goesOn some same => simp [same, goesOn, Phase.isStopped]
    | finished goesOn none same =>
      simp [same, goesOn, Progress.linting_finish, Progress.isStopped_outcomeOf]

theorem Decided.start
    {linting : Linting}
    {goesThrough : Bool}
    (decided : Decided linting goesThrough) :
    Decided linting.start.1.linting goesThrough := by
  have started : linting.phase ≠ .unstarted := by
    intro unstarted
    have begun := decided.begun
    rw [unstarted] at begun
    contradiction
  have phase_eq := Session.phase_start linting
  rw [if_neg started] at phase_eq
  exact ⟨phase_eq ▸ decided.begun, phase_eq ▸ decided.invoked, phase_eq ▸ decided.stopped⟩

theorem Decided.take
    {linting : Linting}
    {goesThrough : Bool}
    (decided : Decided linting goesThrough)
    (now : Rat)
    (turn : Turn) :
    Decided (linting.take now turn).linting goesThrough := by
  obtain ⟨begun, invoked, stopped⟩ := decided
  cases taken linting now turn with
  | nothing idle nobody same =>
    rw [same]
    exact ⟨begun, invoked, stopped⟩
  | begin isRun scheduled same => simp [scheduled, Phase.isEarly] at begun
  | finish isRun settled same =>
    rw [same, Progress.linting_finish]
    refine ⟨rfl, by simp, ?_⟩
    rw [← stopped, Progress.isStopped_outcomeOf, settled]
    rfl
  | member index own member isMember known same =>
    have followed := @Progress.followed_follow (.start linting) index member _ known
      (member.conduct_take linting.toSetting now own)
    rw [same]
    refine ⟨?_, ?_, ?_⟩ <;> rw [followed.phase_eq] <;> split
    · rfl
    · exact begun
    · simp
    · exact invoked
    · next last =>
      rw [Progress.linting_start] at last
      rw [← stopped, last.2.2]
      rfl
    · exact stopped

/-- The state of a run that has come to its end follows from the diagnostics. -/
def Judged (linting : Linting) : Prop :=
  linting.phase.isClosed = true → linting.state = linting.diagnostics.state

theorem Judged.start {linting : Linting} (judged : Judged linting) :
    Judged linting.start.1.linting := by
  simp only [Linting.start]
  split
  · exact judged
  · intro closed
    simp [Phase.isClosed] at closed

theorem Judged.subscribe
    {linting : Linting}
    (judged : Judged linting)
    (milestone : Milestone)
    (observer : Observer) :
    Judged (linting.subscribe milestone observer).1.linting := by
  intro closed
  simp only [Linting.subscribe, Progress.linting_called, Progress.linting_start] at closed ⊢
  exact judged closed

theorem Judged.take
    {linting : Linting}
    (judged : Judged linting)
    (balanced : Balanced linting)
    (now : Rat)
    (turn : Turn) :
    Judged (linting.take now turn).linting := by
  cases before : linting.phase.isClosed with
  | true =>
    obtain ⟨state_eq, diagnostics_eq, -⟩ := balanced.same_of_isClosed before (.take now turn)
    intro _
    rw [show (linting.take now turn).linting.state = linting.state from state_eq,
      show (linting.take now turn).linting.diagnostics = linting.diagnostics from diagnostics_eq]
    exact judged before
  | false =>
    intro closed
    cases taken linting now turn with
    | nothing idle nobody same =>
      rw [same, Progress.linting_start, before] at closed
      contradiction
    | begin isRun scheduled same =>
      rw [same] at closed ⊢
      cases (Progress.start linting).begun now with
      | stopped failure stops same =>
        rw [same] at closed
        contradiction
      | waiting goesOn some same =>
        rw [same] at closed
        contradiction
      | finished goesOn none same =>
        rw [same, Progress.linting_finish]
    | finish isRun settled same => rw [same, Progress.linting_finish]
    | member index own member isMember known same =>
      have followed := @Progress.followed_follow (.start linting) index member _ known
        (member.conduct_take linting.toSetting now own)
      rw [same, followed.phase_eq] at closed
      split at closed
      · contradiction
      · rw [Progress.linting_start, before] at closed
        contradiction

namespace Session

/-- The run of a session has ended: it has come to its end, or nothing can ever happen again. -/
structure HasEnded (session : Session) : Prop where
  started : session.linting.isStarted = true
  rests : session.linting.state.isTerminal = true ∨ session.IsExhausted

/-- A run that has ended has begun. -/
theorem HasEnded.begun
    {session : Session}
    (ended : session.HasEnded)
    (orderly : session.Orderly)
    (attended : session.Attended) :
    session.linting.phase.isEarly = false := by
  cases phase : session.linting.phase with
  | unstarted =>
    have started := ended.started
    simp [isStarted, phase] at started
  | scheduled =>
    rcases ended.rests with terminal | exhausted
    · rw [orderly.balanced.isTerminal_eq, phase] at terminal
      contradiction
    · have ready := attended.runReady (.inl phase)
      simp [entries_eq_nil_of_step? exhausted] at ready
  | _ => rfl

/-- A session that is to start its run, unless that is started. -/
structure Starts (session : Session) : Prop where
  start : .start ∈ session.requests ∨ session.linting.isStarted = true
  /-- A request that is not answered at once starts nothing. -/
  busy : session.caller ≠ .free → session.requests.head? ≠ some .start

namespace Starts

variable {session : Session}

/-- Answering what starts nothing leaves the start among the requests. -/
theorem answer
    (starts : session.Starts)
    (idle : session.requests.head? ≠ some .start)
    (reply : Reply) :
    (session.answer reply).Starts where
  start := by
    apply starts.start.imp_left
    intro known
    cases same : session.requests with
    | nil => simp [same] at known
    | cons next rest =>
      rw [same, List.mem_cons] at known
      refine known.elim (fun first => ?_) fun later => by simpa [Session.answer, same] using later
      rw [same, ← first] at idle
      exact absurd rfl idle
  busy := fun busy => absurd rfl busy

theorem follow
    {progress : Progress}
    (starts : session.Starts)
    (started : session.linting.isStarted = true → progress.linting.isStarted = true) :
    (session.follow progress).Starts where
  start := by
    rw [requests_follow, linting_follow]
    exact starts.start.imp_right started
  busy := by
    rw [requests_follow, caller_follow]
    exact starts.busy

theorem request
    {next : Request}
    (starts : session.Starts)
    (known : session.requests.head? = some next) :
    (session.request next).Starts := by
  cases next with
  | subscribe milestone observer =>
    refine (starts.follow ?_).answer ?_ _
    · simp [Linting.subscribe, isStarted]
    · rw [requests_follow, known]
      simp
  | misdirected word => exact starts.answer (by simp [known]) _
  | start =>
    refine ⟨.inr ?_, fun busy => absurd rfl busy⟩
    simp only [Session.request, Session.answer, linting_follow]
    exact isStarted_start session.linting
  | wait =>
    simp only [Session.request]
    split
    · exact starts.answer (by simp [known]) _
    · exact ⟨starts.start, fun _ => by simp [known]⟩
  | advance seconds => exact ⟨starts.start, fun _ => by simp [Session.request, known]⟩

theorem makeRequests
    {requests : List Request}
    (starts : session.Starts)
    (same : session.requests = requests) :
    (session.makeRequests requests).Starts := by
  induction requests generalizing session with
  | nil => exact starts
  | cons next rest ih =>
    have first := starts.request (by rw [same, List.head?_cons])
    simp only [Session.makeRequests]
    split
    · next free => exact ih first (requests_request same free)
    · exact first

theorem resume (starts : session.Starts) : session.resume.Starts := by
  have caught : session.catchUp.Starts := by
    unfold catchUp
    split
    · exact starts
    · next passing => exact starts.answer (starts.busy (by simp [passing])) _
    · next waiting =>
      split
      · exact starts.answer (starts.busy (by simp [waiting])) _
      · exact starts
  simp only [Session.resume]
  split
  · exact caught.makeRequests rfl
  · exact caught

theorem step
    {later : Session}
    (starts : session.Starts)
    (balanced : Balanced session.linting)
    (stepped : session.step? = some later) :
    later.Starts := by
  obtain ⟨⟨turn, schedule⟩, -, rfl⟩ := Option.map_eq_some_iff.mp stepped
  have popped : ({ session with schedule := schedule } : Session).Starts :=
    ⟨starts.start, starts.busy⟩
  cases turn with
  | linting turn =>
    apply popped.follow
    intro started
    rw [isStarted_take balanced]
    exact started
  | caller => exact popped.resume
  | wakeCaller => exact ⟨starts.start, starts.busy⟩

theorem goOn
    (starts : session.Starts)
    (orderly : session.Orderly)
    (turns : Nat) :
    (session.goOn turns).Starts := by
  suffices kept : (session.goOn turns).Starts ∧ (session.goOn turns).Orderly from kept.1
  exact @goOn_induction (fun session => session.Starts ∧ session.Orderly) (fun _ _ kept stepped =>
    ⟨kept.1.step kept.2.balanced stepped, kept.2.step stepped⟩) session ⟨starts, orderly⟩ turns

/-- When nothing can ever happen again, the run has been started. -/
theorem isStarted_of_isExhausted
    (starts : session.Starts)
    (attended : session.Attended)
    (exhausted : session.IsExhausted) :
    session.linting.isStarted = true := by
  rcases attended.exhausted exhausted with answered | ⟨-, unanswered⟩
  · apply starts.start.resolve_left
    simp [answered]
  · rw [isStarted, bne_iff_ne]
    intro unstarted
    rw [unstarted] at unanswered
    contradiction

end Starts

/-- What is known of a session whose run has begun: whether the run was stopped is decided, and the
state follows from the diagnostics. -/
structure Underway (session : Session) (goesThrough : Bool) : Prop where
  balanced : Balanced session.linting
  decided : Decided session.linting goesThrough
  judged : Judged session.linting

theorem Underway.step
    {session later : Session}
    {goesThrough : Bool}
    (underway : session.Underway goesThrough)
    (stepped : session.step? = some later) :
    later.Underway goesThrough := by
  have kept := @linting_step session (fun linting => Balanced linting ∧
    Decided linting goesThrough ∧ Judged linting) later ?_ ?_ ?_ stepped
    ⟨underway.balanced, underway.decided, underway.judged⟩
  · exact ⟨kept.1, kept.2.1, kept.2.2⟩
  · intro linting kept
    exact ⟨kept.1.start, kept.2.1.start, kept.2.2.start⟩
  · intro linting milestone observer kept
    refine ⟨kept.1.subscribe milestone observer, ?_, kept.2.2.subscribe milestone observer⟩
    obtain ⟨begun, invoked, stopped⟩ := kept.2.1
    refine ⟨?_, ?_, ?_⟩ <;> simpa [Linting.subscribe]
  · intro linting now turn kept
    exact ⟨kept.1.take now turn, kept.2.1.take now turn, kept.2.2.take kept.1 now turn⟩

theorem Underway.goOn
    {session : Session}
    {goesThrough : Bool}
    (underway : session.Underway goesThrough)
    (turns : Nat) :
    (session.goOn turns).Underway goesThrough :=
  @goOn_induction (Underway · goesThrough) (fun _ _ underway stepped => underway.step stepped) session
    underway turns

/-- From its beginning on, the run is under way. -/
theorem Unbegun.underway
    {linting : Linting}
    {session : Session}
    {schedule : Schedule SessionTurn}
    (unbegun : Unbegun linting session)
    (begins : session.Begins schedule)
    (turns : Nat) :
    (session.goOn (turns + 1)).Underway (linting.goesThrough schedule.now) := by
  have stepped := begins.step?
  have goes : session.linting.goesThrough schedule.now = linting.goesThrough schedule.now := by
    have each : session.linting.goesOn schedule.now = linting.goesOn schedule.now := by
      funext index
      rw [Bool.eq_iff_iff, goesOn_iff, goesOn_iff, unbegun.members_eq, unbegun.setting_eq]
    rw [goesThrough, goesThrough, each, unbegun.members_eq]
  have judged : Judged session.linting := by
    intro closed
    rw [begins.scheduled] at closed
    contradiction
  have begun := judged.take unbegun.balanced schedule.now .run
  simp only [Linting.take, Progress.take, Progress.linting_start, begins.scheduled] at begun
  simp only [Session.goOn, stepped]
  refine Underway.goOn ⟨(unbegun.toOrderly.step stepped).balanced, ?_, ?_⟩ turns
  · rw [linting_follow, ← goes]
    exact decided_begin unbegun.balanced begins.scheduled schedule.now
  · rw [linting_follow]
    exact begun

/-- How a session ends: whether waiting is answered, and with which state. -/
theorem Underway.ending
    {session : Session}
    {goesThrough : Bool}
    (underway : session.Underway goesThrough)
    (attended : session.Attended)
    (exhausted : session.IsExhausted) :
    session.linting.phase.isAnswered = (!goesThrough || session.linting.isDone) ∧
      session.linting.state =
        if goesThrough && session.linting.isDone then session.linting.diagnostics.state
        else .running := by
  obtain ⟨balanced, ⟨begun, invoked, stopped⟩, judged⟩ := underway
  have running : session.linting.phase.isClosed = false → session.linting.state = .running := by
    intro ahead
    rw [← balanced.isTerminal_eq] at ahead
    simpa [LintState.isTerminal] using ahead
  have done : session.linting.phase.isClosed = true → session.linting.isDone = true := by
    intro closed
    exact List.all_eq_true.mpr (balanced.isFinished_of_isClosed closed)
  unfold Judged at judged
  cases phase : session.linting.phase with
  | unstarted => simp [phase, Phase.isEarly] at begun
  | scheduled => simp [phase, Phase.isEarly] at begun
  | invoking => exact absurd phase invoked
  | settled =>
    have ready := attended.runReady (.inr phase)
    simp [entries_eq_nil_of_step? exhausted] at ready
  | waiting =>
    have goes : goesThrough = true := by
      rw [phase] at stopped
      simpa [Phase.isStopped] using stopped
    have undone : session.linting.isDone = false := by
      have counted := balanced.counted begun
      have some := balanced.waiting phase
      rw [← Bool.not_eq_true, isDone, List.all_eq_true]
      intro all
      have none : session.linting.unfinished = 0 := List.countP_eq_zero.mpr (by simpa using all)
      omega
    rw [running (by rw [phase]; rfl), goes, undone]
    exact ⟨rfl, rfl⟩
  | ended outcome =>
    cases outcome with
    | stopped failure =>
      have stops : goesThrough = false := by
        rw [phase] at stopped
        simpa [Phase.isStopped] using stopped
      rw [running (by rw [phase]; rfl), stops]
      exact ⟨rfl, rfl⟩
    | _ =>
      have closed : session.linting.phase.isClosed = true := by
        rw [phase]
        rfl
      have goes : goesThrough = true := by
        rw [phase] at stopped
        simpa [Phase.isStopped] using stopped
      rw [judged closed, goes, done closed]
      exact ⟨rfl, rfl⟩

end Session
end Linting
end MarkupLint
