import MarkupLint.Proofs.Linting.Allotment
import MarkupLint.Proofs.Linting.Unobserved

/-!
# Sessions beside their shadows

The shadow of a session is the session in which nobody subscribes an observer.  Turn by turn, a session
does what its shadow does, and gives the same views of its linting.  So sessions that differ in their
observers only give the same views.
-/

namespace MarkupLint
namespace Linting

/-- Whether a request is one to the linting itself, and not one to observe it. -/
def Request.isOperation : Request → Bool
  | subscribe _ _ => false
  | misdirected _ => false
  | _ => true

/-- What can be seen of a linting at an instant. -/
structure View where
  isStarted : Bool
  state : LintState
  diagnostics : Collection
  errors : Nat
  warnings : Nat
  now : Rat
deriving DecidableEq, Repr

/-- What can be seen of the linting at an instant. -/
def view (linting : Linting) (now : Rat) : View where
  isStarted := linting.isStarted
  state := linting.state
  diagnostics := linting.diagnostics
  errors := linting.diagnostics.count .error
  warnings := linting.diagnostics.count .warn
  now := now

theorem view_unobserved (linting : Linting) (now : Rat) :
    linting.unobserved.view now = linting.view now := by
  rw [view, isStarted_unobserved]
  rfl

theorem view_eq_of_unobserved
    {first second : Linting}
    (same : first.unobserved = second.unobserved)
    (now : Rat) :
    first.view now = second.view now := by
  rw [← view_unobserved, same, view_unobserved]

/-- What can be seen of the linting when a request is answered. -/
def Answer.view (answer : Answer) : View := answer.linting.view answer.now

/-- What can be seen at first, and then behind each answer. -/
def viewsBehind (initial : View) (answers : List Answer) : List View :=
  initial :: answers.map Answer.view

/-- What can be seen behind the answers to operations. -/
def operationViews (requests : List Request) (answers : List Answer) : List View :=
  ((requests.zip answers).filter (·.1.isOperation)).map (·.2.view)

theorem operationViews_append
    {requests : List Request}
    {answers : List Answer}
    {request : Request}
    (asked : requests[answers.length]? = some request)
    (answer : Answer) :
    operationViews requests (answers ++ [answer]) =
      operationViews requests answers ++ if request.isOperation then [answer.view] else [] := by
  induction answers generalizing requests with
  | nil =>
    obtain ⟨rest, rfl⟩ : ∃ rest, requests = request :: rest := by
      cases requests with
      | nil => contradiction
      | cons first rest =>
        cases asked
        exact ⟨rest, rfl⟩
    simp only [operationViews, List.nil_append, List.zip_cons_cons, List.zip_nil_right,
      List.filter_cons, List.filter_nil, List.map_nil]
    split <;> rfl
  | cons first others ih =>
    cases requests with
    | nil => contradiction
    | cons next rest =>
      have later := @ih rest (by simpa using asked)
      simp only [operationViews] at later
      simp only [operationViews, List.cons_append, List.zip_cons_cons, List.filter_cons]
      split
      · simp only [List.map_cons, later, List.cons_append]
      · exact later

namespace Session

/-- What can be seen of the linting now. -/
def view (session : Session) : View := session.linting.view session.schedule.now

/-- What could be seen behind the last answer. -/
def lastView (initial : View) (session : Session) : View :=
  (session.answers.head?.map Answer.view).getD initial

theorem schedule_absorb_congr
    {first second : Session}
    (schedule_eq : first.schedule = second.schedule)
    (caller_eq : first.caller = second.caller)
    (effect : Effect) :
    (first.absorb effect).schedule = (second.absorb effect).schedule ∧
      (first.absorb effect).caller = (second.absorb effect).caller := by
  cases effect with
  | ended =>
    simp only [absorb, caller_eq]
    split <;> simp only [schedule_eq, caller_eq, and_self]
  | _ => simp only [absorb, schedule_eq, caller_eq, and_self]

/-- The calls of observers do not matter to the schedule. -/
theorem schedule_foldl_absorb_filter
    {first second : Session}
    (schedule_eq : first.schedule = second.schedule)
    (caller_eq : first.caller = second.caller)
    (effects : List Effect) :
    (effects.foldl absorb first).schedule =
      ((effects.filter (!·.isCall)).foldl absorb second).schedule := by
  induction effects generalizing first second with
  | nil => exact schedule_eq
  | cons effect rest ih =>
    cases call : effect.isCall
    · rw [List.filter_cons_of_pos (by simp [call]), List.foldl_cons, List.foldl_cons]
      obtain ⟨laterSchedule_eq, laterCaller_eq⟩ :=
        schedule_absorb_congr schedule_eq caller_eq effect
      exact ih laterSchedule_eq laterCaller_eq
    · rw [List.filter_cons_of_neg (by simp [call]), List.foldl_cons]
      refine ih ?_ ?_
      · cases effect <;> first | contradiction | exact schedule_eq
      · cases effect <;> first | contradiction | exact caller_eq

/-- A session beside its shadow, which makes the requests that are operations only.  A subscription is
answered when nothing has changed since the answer before. -/
structure Shadows
    (requests : List Request)
    (initial : View)
    (session shadow : Session) : Prop where
  schedule_eq : session.schedule = shadow.schedule
  caller_eq : session.caller = shadow.caller
  linting_eq : session.linting.unobserved = shadow.linting.unobserved
  left_eq : session.requests = requests.drop session.answers.length
  operations_eq : session.requests.filter Request.isOperation = shadow.requests
  busy : session.caller ≠ .free →
    ∃ next rest, session.requests = next :: rest ∧ next.isOperation = true
  views_eq : operationViews requests session.answers.reverse =
    shadow.answers.reverse.map Answer.view
  still : ∀ (index : Nat) (request : Request), requests[index]? = some request →
    request.isOperation = false → index < session.answers.length →
      (viewsBehind initial session.answers.reverse)[index + 1]? =
        (viewsBehind initial session.answers.reverse)[index]?

namespace Shadows

variable {requests : List Request} {initial : View} {session shadow : Session}

theorem view_eq (shadows : Shadows requests initial session shadow) : session.view = shadow.view := by
  rw [view, view, shadows.schedule_eq, view_eq_of_unobserved shadows.linting_eq]

theorem asked
    {next : Request}
    {rest : List Request}
    (shadows : Shadows requests initial session shadow)
    (same : session.requests = next :: rest) :
    requests[session.answers.length]? = some next := by
  rw [← List.head?_drop, ← shadows.left_eq, same, List.head?_cons]

/-- What is seen behind one more answer. -/
theorem still_answer
    {next : Request}
    {rest : List Request}
    (shadows : Shadows requests initial session shadow)
    (same : session.requests = next :: rest)
    (fresh : next.isOperation = false → session.view = session.lastView initial)
    (reply : Reply) :
    ∀ (index : Nat) (request : Request), requests[index]? = some request →
      request.isOperation = false → index < (session.answer reply).answers.length →
        (viewsBehind initial (session.answer reply).answers.reverse)[index + 1]? =
          (viewsBehind initial (session.answer reply).answers.reverse)[index]? := by
  intro index request asked observes bound
  have views_eq : viewsBehind initial (session.answer reply).answers.reverse =
      viewsBehind initial session.answers.reverse ++ [session.view] := by
    simp only [viewsBehind, Session.answer, List.reverse_cons, List.map_append, List.cons_append]
    rfl
  have length_eq : (viewsBehind initial session.answers.reverse).length =
      session.answers.length + 1 := by
    simp [viewsBehind]
  rw [Session.answer, List.length_cons] at bound
  rw [views_eq]
  rcases Nat.lt_or_ge index session.answers.length with before | last
  · rw [List.getElem?_append_left (by omega), List.getElem?_append_left (by omega)]
    exact shadows.still index request asked observes before
  · obtain rfl : index = session.answers.length := by omega
    obtain rfl := Option.some.inj ((shadows.asked same).symm.trans asked)
    rw [List.getElem?_append_right (by omega), List.getElem?_append_left (by omega), length_eq,
      Nat.sub_self, List.getElem?_cons_zero, fresh observes, lastView, viewsBehind]
    cases answers : session.answers with
    | nil => rfl
    | cons answer earlier => simp

/-- An operation is answered in the session and in its shadow. -/
theorem answer
    {next : Request}
    {rest : List Request}
    (shadows : Shadows requests initial session shadow)
    (same : session.requests = next :: rest)
    (operates : next.isOperation = true)
    (reply other : Reply) :
    Shadows requests initial (session.answer reply) (shadow.answer other) where
  schedule_eq := shadows.schedule_eq
  caller_eq := rfl
  linting_eq := shadows.linting_eq
  left_eq := by
    simp only [Session.answer, List.length_cons, shadows.left_eq, List.drop_drop]
  operations_eq := by
    have operations := shadows.operations_eq
    rw [same, List.filter_cons_of_pos operates] at operations
    simp only [Session.answer, same, ← operations, List.drop_succ_cons, List.drop_zero]
  busy := fun busy => absurd rfl busy
  views_eq := by
    have asked := shadows.asked same
    rw [← List.length_reverse] at asked
    have view_eq := shadows.view_eq
    simp only [Session.answer, List.reverse_cons, List.map_append, List.map_cons, List.map_nil,
      operationViews_append asked, operates, if_true, shadows.views_eq]
    exact congrArg (_ ++ [·]) view_eq
  still := shadows.still_answer same (fun observes => absurd operates (by simp [observes])) reply

/-- A subscription is answered in the session only. -/
theorem skip
    {next : Request}
    {rest : List Request}
    (shadows : Shadows requests initial session shadow)
    (free : session.caller = .free)
    (same : session.requests = next :: rest)
    (observes : next.isOperation = false)
    (fresh : session.view = session.lastView initial)
    (reply : Reply) :
    Shadows requests initial (session.answer reply) shadow where
  schedule_eq := shadows.schedule_eq
  caller_eq := free.symm.trans shadows.caller_eq
  linting_eq := shadows.linting_eq
  left_eq := by
    simp only [Session.answer, List.length_cons, shadows.left_eq, List.drop_drop]
  operations_eq := by
    have operations := shadows.operations_eq
    rw [same, List.filter_cons_of_neg (by simp [observes])] at operations
    simp only [Session.answer, same, List.drop_succ_cons, List.drop_zero, operations]
  busy := fun busy => absurd rfl busy
  views_eq := by
    have asked := shadows.asked same
    rw [← List.length_reverse] at asked
    simp only [Session.answer, List.reverse_cons, operationViews_append asked, observes,
      Bool.false_eq_true, if_false, List.append_nil]
    exact shadows.views_eq
  still := shadows.still_answer same (fun _ => fresh) reply

/-- The session and its shadow follow what differs in the calls of observers only. -/
theorem follow
    {progress other : Progress}
    (shadows : Shadows requests initial session shadow)
    (same : progress.unobserved = other.unobserved) :
    Shadows requests initial (session.follow progress) (shadow.follow other) := by
  have effects_eq := congrArg Progress.effects same
  have linting_eq := congrArg Progress.linting same
  simp only [Progress.unobserved] at effects_eq linting_eq
  refine ⟨?_, ?_, ?_, ?_, ?_, ?_, ?_, ?_⟩
  · rw [Session.follow, Session.follow]
    have first := @schedule_foldl_absorb_filter { session with linting := progress.linting }
      { shadow with linting := other.linting } shadows.schedule_eq shadows.caller_eq
      progress.effects
    have second := @schedule_foldl_absorb_filter { shadow with linting := other.linting }
      { shadow with linting := other.linting } rfl rfl other.effects
    rw [first, second, effects_eq]
  · rw [caller_follow, caller_follow, shadows.caller_eq]
  · rw [linting_follow, linting_follow, linting_eq]
  · rw [requests_follow, answers_follow, shadows.left_eq]
  · rw [requests_follow, requests_follow, shadows.operations_eq]
  · rw [caller_follow, requests_follow]
    exact shadows.busy
  · rw [answers_follow, answers_follow, shadows.views_eq]
  · rw [answers_follow]
    exact shadows.still

/-- Waiting has an answer in the session if it has one in its shadow. -/
theorem isSome_answer?_eq (shadows : Shadows requests initial session shadow) :
    session.linting.answer?.isSome = shadow.linting.answer?.isSome := by
  have phase_eq := congrArg (·.phase.isAnswered) shadows.linting_eq
  simp only [unobserved, Phase.isAnswered_unobserved] at phase_eq
  rw [isSome_answer?, isSome_answer?, phase_eq]

/-- Making a request that is an operation, the session does what its shadow does. -/
theorem request
    {next : Request}
    {rest : List Request}
    (shadows : Shadows requests initial session shadow)
    (same : session.requests = next :: rest)
    (operates : next.isOperation = true) :
    Shadows requests initial (session.request next) (shadow.request next) := by
  cases next with
  | subscribe milestone observer => contradiction
  | misdirected word => contradiction
  | start =>
    have started : session.linting.start.1.unobserved = shadow.linting.start.1.unobserved := by
      rw [unobserved_start, shadows.linting_eq, ← unobserved_start]
    have left := requests_follow session session.linting.start.1
    exact (shadows.follow started).answer (left.trans same) operates _ _
  | wait =>
    have answered := shadows.isSome_answer?_eq
    simp only [Session.request]
    cases own : session.linting.answer? <;> cases other : shadow.linting.answer?
    · exact { shadows with caller_eq := rfl, busy := fun _ => ⟨_, rest, same, operates⟩ }
    · simp [own, other] at answered
    · simp [own, other] at answered
    · exact shadows.answer same operates _ _
  | advance seconds =>
    refine { shadows with
      caller_eq := rfl, busy := fun _ => ⟨_, rest, same, operates⟩, schedule_eq := ?_ }
    simp only [Session.request, shadows.schedule_eq]

/-- When a request has been answered at once, what is seen is what is seen in the answer. -/
theorem view_request
    {next : Request}
    (free : (session.request next).caller = .free) :
    (session.request next).view = (session.request next).lastView initial := by
  cases next with
  | wait =>
    simp only [Session.request] at free ⊢
    split
    · rfl
    · next unanswered =>
      rw [unanswered] at free
      contradiction
  | advance seconds => contradiction
  | _ => rfl

/-- Making a request to observe, the session does what is of no account to its shadow. -/
theorem observe
    {next : Request}
    {rest : List Request}
    (shadows : Shadows requests initial session shadow)
    (free : session.caller = .free)
    (same : session.requests = next :: rest)
    (observes : next.isOperation = false)
    (fresh : session.view = session.lastView initial) :
    (session.request next).caller = .free ∧
      Shadows requests initial (session.request next) shadow := by
  cases next with
  | subscribe milestone observer =>
    refine ⟨rfl, ?_⟩
    have subscribed : (session.linting.subscribe milestone observer).1.unobserved =
        (Progress.start shadow.linting).unobserved := by
      rw [unobserved_subscribe, shadows.linting_eq, Progress.unobserved_start]
    have followed := shadows.follow subscribed
    have view_eq : (session.follow (session.linting.subscribe milestone observer).1).view =
        session.view := by
      rw [followed.view_eq, shadows.view_eq]
      rfl
    have left := requests_follow session (session.linting.subscribe milestone observer).1
    have caller_eq := caller_follow session (session.linting.subscribe milestone observer).1
    refine Shadows.skip followed (caller_eq.trans free) (left.trans same) observes ?_ _
    rw [view_eq, fresh, lastView, lastView, answers_follow]
  | misdirected word => exact ⟨rfl, shadows.skip free same observes fresh _⟩
  | _ => contradiction

/-- Making one request after another, the session does what its shadow does. -/
theorem makeRequests
    {left : List Request}
    (shadows : Shadows requests initial session shadow)
    (free : session.caller = .free)
    (same : session.requests = left)
    (fresh : left ≠ [] → session.view = session.lastView initial) :
    Shadows requests initial (session.makeRequests left)
      (shadow.makeRequests (left.filter Request.isOperation)) := by
  induction left generalizing session shadow with
  | nil => exact shadows
  | cons next rest ih =>
    cases operates : next.isOperation
    · obtain ⟨later, skipped⟩ :=
        shadows.observe free same operates (fresh (List.cons_ne_nil _ _))
      rw [List.filter_cons_of_neg (by simp [operates])]
      simp only [Session.makeRequests, later, if_true]
      exact ih skipped later (requests_request same later) fun _ => view_request later
    · have requested := shadows.request same operates
      rw [List.filter_cons_of_pos operates]
      simp only [Session.makeRequests, ← requested.caller_eq]
      split
      · next later =>
        exact ih requested later (requests_request same later) fun _ => view_request later
      · exact requested

/-- Going on, the caller of the session does what that of its shadow does. -/
theorem resume
    (shadows : Shadows requests initial session shadow)
    (fresh : session.caller = .free → session.requests ≠ [] →
      session.view = session.lastView initial) :
    Shadows requests initial session.resume shadow.resume := by
  have caught : Shadows requests initial session.catchUp shadow.catchUp ∧
      (session.catchUp.caller = .free → session.catchUp.requests ≠ [] →
        session.catchUp.view = session.catchUp.lastView initial) := by
    unfold Session.catchUp
    rw [← shadows.caller_eq]
    cases caller : session.caller with
    | free => exact ⟨shadows, fun _ => fresh caller⟩
    | passing =>
      obtain ⟨next, rest, same, operates⟩ := shadows.busy (by simp [caller])
      exact ⟨shadows.answer same operates _ _, fun _ _ => rfl⟩
    | waiting =>
      obtain ⟨next, rest, same, operates⟩ := shadows.busy (by simp [caller])
      have answered := shadows.isSome_answer?_eq
      dsimp only
      cases own : session.linting.answer? <;> cases other : shadow.linting.answer?
      · exact ⟨shadows, fun free => by simp [caller] at free⟩
      · simp [own, other] at answered
      · simp [own, other] at answered
      · exact ⟨shadows.answer same operates _ _, fun _ _ => rfl⟩
  obtain ⟨caught, fresh⟩ := caught
  simp only [Session.resume, ← caught.caller_eq, ← caught.operations_eq]
  split
  · next free => exact caught.makeRequests free rfl (fresh free)
  · exact caught

end Shadows
end Session
end Linting
end MarkupLint
