import MarkupLint.Proofs.Linting.Heeding
import MarkupLint.Proofs.Linting.Immediate

/-!
# Lintings alone

Someone starts a linting and waits for its end.  If all instances do everything at once, that takes
three turns: the one in which the linting is started, the one in which it runs, and the one in which
the end is told.
-/

namespace MarkupLint
namespace Linting

variable {linting : Linting} {precedence : Precedence SessionTurn}

/-- A run that has come to its end, with observers that do not fail, has completed. -/
theorem Heeded.phase_of_isClosed
    {labels : List String}
    (heeded : Heeded labels linting)
    (closed : linting.phase.isClosed = true) :
    linting.phase = .ended .completed := by
  obtain ⟨outcome, ended⟩ := Phase.exists_ended_of_isClosed closed
  cases outcome with
  | completed => exact ended
  | failed group => exact absurd ended (heeded.unfailed group)
  | stopped failure =>
    rw [ended] at closed
    contradiction

namespace Session

/-- If a turn of the linting demands no other turn, only the caller who waits can have one: when the
run comes to its end. -/
theorem follow_of_turnless
    {session : Session}
    {progress : Progress}
    (waiting : session.caller = .waiting)
    (turnless : progress.turns = []) :
    ∃ calls logs, session.follow progress =
      { session with
        linting := progress.linting
        schedule := (ends progress.effects).foldl (fun schedule _ => schedule.soon .caller)
          session.schedule
        calls := calls
        logs := logs } := by
  have folded : ∀ (effects : List Effect) (session : Session), session.caller = .waiting →
      effects.filter Effect.isTurn = [] → ∃ calls logs, effects.foldl absorb session =
        { session with
          schedule := (ends effects).foldl (fun schedule _ => schedule.soon .caller) session.schedule
          calls := calls
          logs := logs } := by
    intro effects
    induction effects with
    | nil => exact fun session _ _ => ⟨_, _, rfl⟩
    | cons effect rest ih =>
      intro session waiting turnless
      cases effect with
      | soon turn => contradiction
      | after seconds turn => contradiction
      | cancel turn => contradiction
      | ended =>
        obtain ⟨calls, logs, same⟩ := ih { session with schedule := session.schedule.soon .caller }
          waiting turnless
        refine ⟨calls, logs, ?_⟩
        rw [List.foldl_cons, absorb, if_pos waiting, same]
        rfl
      | _ =>
        rw [List.foldl_cons]
        exact ih _ waiting turnless
  exact folded progress.effects { session with linting := progress.linting } waiting turnless

end Session

/-- A linting once it has been started, when no observer waits for that. -/
def scheduled (linting : Linting) : Linting :=
  { linting with phase := .scheduled, audience := ⟨true, false, [], []⟩ }

namespace Session

/-! ## The three turns -/

/-- A session once the linting has been started, when its end is waited for. -/
def launched (linting : Linting) (precedence : Precedence SessionTurn) : Session where
  linting := linting.scheduled
  schedule := (Schedule.empty linting.precision precedence).soon (.linting .run)
  caller := .waiting
  requests := [.wait]
  answers := [⟨.started, linting.scheduled, [], [], 0⟩]
  calls := []
  logs := []

/-- A session once the run has come to its end, when that is to be told. -/
def finishing
    (linting : Linting)
    (precedence : Precedence SessionTurn)
    (after : Linting)
    (calls : List ObservedCall)
    (logs : List LogRecord) :
    Session :=
  { launched linting precedence with
    linting := after
    schedule := (Schedule.empty linting.precision precedence).soon .caller
    calls := calls
    logs := logs }

/-- A session once the end of the run has been told. -/
def told
    (linting : Linting)
    (precedence : Precedence SessionTurn)
    (after : Linting)
    (calls : List ObservedCall)
    (logs : List LogRecord) :
    Session :=
  { finishing linting precedence after calls logs with
    schedule := .empty linting.precision precedence
    caller := .free
    requests := []
    answers := [⟨.finished after.state, after, calls, logs, 0⟩,
      ⟨.started, linting.scheduled, [], [], 0⟩]
    calls := []
    logs := [] }

theorem next?_new (starts : linting.start = (⟨linting.scheduled, [.soon .run]⟩, none)) :
    (new linting precedence [.start, .wait]).next? = some (launched linting precedence) := by
  change some (resume { new linting precedence [.start, .wait] with
    schedule := .empty linting.precision precedence }) =
    some (launched linting precedence)
  rw [resume, catchUp]
  simp only [new, if_true, makeRequests, request, starts]
  rfl

theorem exists_next?_launched
    {progress : Progress}
    (took : linting.scheduled.take 0 .run = progress)
    (turnless : progress.turns = [])
    (once : ends progress.effects = [()]) :
    ∃ calls logs,
      (launched linting precedence).next? =
        some (finishing linting precedence progress.linting calls logs) := by
  obtain ⟨calls, logs, followed⟩ := @follow_of_turnless
    { launched linting precedence with schedule := .empty linting.precision precedence } progress rfl
      turnless
  rw [once] at followed
  refine ⟨calls, logs, ?_⟩
  change some (follow { launched linting precedence with
    schedule := .empty linting.precision precedence } (linting.scheduled.take 0 .run)) = _
  rw [took, followed]
  rfl

theorem next?_finishing
    {after : Linting}
    (answered : after.answer? = some (.ok after.state))
    (calls : List ObservedCall)
    (logs : List LogRecord) :
    (finishing linting precedence after calls logs).next? =
      some (told linting precedence after calls logs) := by
  change some (resume { finishing linting precedence after calls logs with
    schedule := .empty linting.precision precedence }) = some (told linting precedence after calls logs)
  rw [resume, catchUp]
  simp only [finishing, launched, answered]
  rfl

end Session

/-- Someone who starts a linting alone and waits for its end is told the state, provided that all
instances do everything at once. -/
theorem answersOf_of_isImmediate
    (balanced : Balanced linting)
    (unstarted : linting.phase = .unstarted)
    (unheard : linting.audience = .empty)
    (immediate : linting.IsImmediate) :
    ∃ started last, Session.answersOf linting precedence [.start, .wait] = [started, last] ∧
      last.reply = .finished last.linting.state ∧ last.linting.EndedWith linting.forecast ∧
      last.linting.toSetting = linting.toSetting := by
  have starts : linting.start = (⟨linting.scheduled, [.soon .run]⟩, none) := by
    rw [start, isStarted, unstarted, unheard]
    rfl
  have kept : Balanced linting.scheduled := by
    have after := balanced.start
    rwa [starts] at after
  obtain ⟨ended, turnless⟩ := @endedWith_begin linting.scheduled kept rfl immediate 0
  have taken : linting.scheduled.take 0 .run = (Progress.start linting.scheduled).begin 0 := rfl
  rw [← taken] at ended turnless
  have setting_eq := setting_take linting.scheduled 0 .run
  have heeded : Heeded [] linting.scheduled := ⟨fun _ => rfl, fun _ => Phase.noConfusion⟩
  have completed := (heeded.take 0 .run).phase_of_isClosed ended.closed
  have ends_eq := ends_take linting.scheduled 0 .run
  rw [completed] at ends_eq
  generalize took : linting.scheduled.take 0 .run = progress
    at ended turnless setting_eq ends_eq completed
  have answered : progress.linting.answer? = some (.ok progress.linting.state) := by
    rw [answer?, completed]
  have cost_eq : (Session.new linting precedence [.start, .wait]).cost = 76 + linting.cost + 4 := by
    simp only [Session.cost, Session.new, List.length_cons, List.length_nil]
    omega
  obtain ⟨calls, logs, running⟩ :=
    @Session.exists_next?_launched linting precedence _ took turnless ends_eq
  refine ⟨⟨.started, linting.scheduled, [], [], 0⟩,
    ⟨.finished progress.linting.state, progress.linting, calls, logs, 0⟩, ?_, rfl, ended, setting_eq⟩
  simp only [Session.answersOf, cost_eq, Session.run, Session.next?_new starts, running,
    Session.next?_finishing answered]
  rfl

end Linting
end MarkupLint
