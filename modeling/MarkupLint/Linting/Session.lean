import MarkupLint.Linting.Run

/-!
# Sessions

In a session, a caller makes requests to one linting, one after another.  While the caller waits
for the end of the linting or lets time pass, the linting takes its turns.
-/

namespace MarkupLint
namespace Linting

/-- A request to a linting. -/
inductive Request where
  | subscribe (milestone : Milestone) (observer : Observer)
  /-- Subscribe to something that is no milestone. -/
  | misdirected (word : String)
  | start
  | wait
  /-- Let some seconds pass. -/
  | advance (seconds : Rat)
deriving Inhabited

/-- The answer to a request. -/
inductive Reply where
  | accepted
  /-- The linting itself. -/
  | started
  | finished (state : LintState)
  | refused (refusal : Refusal)
  /-- An observer that was called at once failed. -/
  | failed (failure : Failure)
  /-- The end can never be reached. -/
  | deadlock
deriving DecidableEq, Repr, Inhabited

/-- The call of an observer, with the state and the number of diagnostics that it saw. -/
structure ObservedCall where
  label : String
  state : LintState
  size : Nat
deriving DecidableEq, Repr, Inhabited

/-- An answered request, with what happened since the request before and what there is now. -/
structure Answer where
  reply : Reply
  linting : Linting
  calls : List ObservedCall
  logs : List LogRecord
  now : Rat
deriving Inhabited

/-- A turn of a session. -/
inductive SessionTurn where
  | linting (turn : Turn)
  | caller
  /-- The caller has let enough time pass. -/
  | wakeCaller
deriving DecidableEq, Repr, Inhabited

/-- What the caller does. -/
inductive CallerState where
  | free
  /-- The caller waits for the end of the linting. -/
  | waiting
  /-- The caller lets time pass. -/
  | passing
deriving DecidableEq, Repr, Inhabited

/-- A session between two turns. -/
structure Session where
  linting : Linting
  schedule : Schedule SessionTurn
  caller : CallerState
  requests : List Request
  /-- The answers so far, the last one first. -/
  answers : List Answer
  /-- What happened since the last answer. -/
  calls : List ObservedCall
  logs : List LogRecord
deriving Inhabited

namespace Session

/-- Have one effect of a turn of the linting. -/
def absorb (session : Session) : Effect → Session
  | .soon turn => { session with schedule := session.schedule.soon (.linting turn) }
  | .after seconds turn =>
    { session with schedule := session.schedule.after seconds (.linting turn) }
  | .cancel turn => { session with schedule := session.schedule.cancel (.linting turn) }
  | .log record => { session with logs := session.logs ++ [record] }
  | .invoked _ record => { session with logs := session.logs ++ [record] }
  | .called label state size => { session with calls := session.calls ++ [⟨label, state, size⟩] }
  | .ended =>
    if session.caller = .waiting then
      { session with schedule := session.schedule.soon .caller }
    else session

/-- Take over what a turn led to. -/
def follow (session : Session) (progress : Progress) : Session :=
  progress.effects.foldl absorb { session with linting := progress.linting }

/-- Answer the request at hand. -/
def answer (session : Session) (reply : Reply) : Session :=
  { session with
    caller := .free
    requests := session.requests.drop 1
    answers :=
      ⟨reply, session.linting, session.calls, session.logs, session.schedule.now⟩ ::
        session.answers
    calls := []
    logs := [] }

/-- The reply to waiting. -/
def waitReply : Except Refusal LintState → Reply
  | .ok state => .finished state
  | .error refusal => .refused refusal

/-- Make a request; it is answered at once unless the caller has to wait. -/
def request (session : Session) : Request → Session
  | .subscribe milestone observer =>
    let subscribed := session.linting.subscribe milestone observer
    (session.follow subscribed.1).answer ((subscribed.2.map .failed).getD .accepted)
  | .misdirected word => session.answer (.failed (Milestone.unknown word))
  | .start =>
    let started := session.linting.start
    (session.follow started.1).answer ((started.2.map .refused).getD .started)
  | .wait =>
    match session.linting.answer? with
    | some answer => session.answer (waitReply answer)
    | none => { session with caller := .waiting }
  | .advance seconds =>
    let schedule :=
      if seconds ≤ 0 then session.schedule.soon .caller
      else session.schedule.after seconds .wakeCaller
    { session with caller := .passing, schedule := schedule }

/-- Make requests until the caller has to wait or there are no more. -/
def makeRequests (session : Session) : List Request → Session
  | [] => session
  | next :: rest =>
    let session := session.request next
    if session.caller = .free then session.makeRequests rest else session

/-- Answer the request at hand if the caller need not wait for anything else. -/
def catchUp (session : Session) : Session :=
  match session.caller with
  | .free => session
  | .passing => session.answer .accepted
  | .waiting =>
    match session.linting.answer? with
    | some answer => session.answer (waitReply answer)
    | none => session

/-- Go on with the caller. -/
def resume (session : Session) : Session :=
  let session := session.catchUp
  if session.caller = .free then session.makeRequests session.requests else session

/-- Take a turn. -/
def take (session : Session) : SessionTurn → Session
  | .linting turn => session.follow (session.linting.take session.schedule.now turn)
  | .caller => session.resume
  | .wakeCaller => { session with schedule := session.schedule.soon .caller }

/-- Whether all requests have been answered. -/
def isOver (session : Session) : Bool := session.requests.isEmpty

/-- One turn, unless nothing can ever happen again. -/
def step? (session : Session) : Option Session :=
  session.schedule.next?.map fun next => { session with schedule := next.2 }.take next.1

/-- One turn of the session, unless it is over or can never go on. -/
def next? (session : Session) : Option Session :=
  if session.isOver then none else session.step?

/-- Take at most the given number of turns. -/
def run : Nat → Session → Session
  | 0, session => session
  | turns + 1, session =>
    match session.next? with
    | some session => run turns session
    | none => session

/-- A session before its first turn. -/
def new
    (linting : Linting)
    (precedence : Precedence SessionTurn)
    (requests : List Request) :
    Session where
  linting := linting
  schedule := (Schedule.empty linting.precision precedence).soon .caller
  caller := .free
  requests := requests
  answers := []
  calls := []
  logs := []

/-- The number of turns that a session may need, and more. -/
def cost (session : Session) : Nat :=
  64 + 8 * session.requests.length + session.linting.cost

/-- The answers of a session in order.  A request that can never be answered is the last one. -/
def answersOf
    (linting : Linting)
    (precedence : Precedence SessionTurn)
    (requests : List Request) :
    List Answer :=
  let session := new linting precedence requests
  let last := session.run session.cost
  (if last.isOver then last else last.answer .deadlock).answers.reverse

end Session
end Linting
end MarkupLint
