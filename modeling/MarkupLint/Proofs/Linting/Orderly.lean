import MarkupLint.Proofs.Linting.Attendance
import MarkupLint.Proofs.Schedule.Projection

/-!
# Sessions that go on

A session goes on turn by turn as long as something can happen, even when all requests have been
answered.  In an orderly session, the members of the linting are told apart by their rules and
indices, the counter is in balance, and the timers are in order.
-/

namespace MarkupLint
namespace Linting

namespace Session

/-- Take at most the given number of turns. -/
def goOn : Nat → Session → Session
  | 0, session => session
  | turns + 1, session =>
    match session.step? with
    | some later => goOn turns later
    | none => session

/-- What every turn keeps holds as a session goes on. -/
theorem goOn_induction
    {property : Session → Prop}
    (step : ∀ session later, property session → session.step? = some later → property later)
    {session : Session}
    (holds : property session)
    (turns : Nat) :
    property (session.goOn turns) := by
  induction turns generalizing session with
  | zero => exact holds
  | succ turns ih =>
    simp only [goOn]
    split
    · next later stepped => exact ih (step session later holds stepped)
    · exact holds

theorem goOn_succ_of_step
    {session later : Session}
    (stepped : session.step? = some later)
    (turns : Nat) :
    session.goOn (turns + 1) = later.goOn turns := by
  simp only [goOn, stepped]

theorem goOn_goOn (session : Session) (turns more : Nat) :
    (session.goOn turns).goOn more = session.goOn (turns + more) := by
  induction turns generalizing session with
  | zero => rw [Nat.zero_add, goOn]
  | succ turns ih =>
    rw [Nat.succ_add, goOn, goOn]
    cases stepped : session.step? with
    | some later => exact ih later
    | none =>
      cases more with
      | zero => rfl
      | succ more => simp only [goOn, stepped]

theorem goOn_succ (session : Session) (turns : Nat) :
    session.goOn (turns + 1) = ((session.goOn turns).step?).getD (session.goOn turns) := by
  rw [← goOn_goOn session turns 1, goOn]
  cases (session.goOn turns).step? with
  | none => rfl
  | some later => rfl

theorem Attended.goOn {session : Session} (attended : Attended session) (turns : Nat) :
    Attended (session.goOn turns) :=
  goOn_induction (fun _ _ attended stepped => attended.step stepped) attended turns

/-- Nothing can ever happen again. -/
def IsExhausted (session : Session) : Prop := session.step? = none

/-- A session that is exhausted stays as it is. -/
theorem goOn_of_isExhausted {session : Session} (exhausted : session.IsExhausted) (turns : Nat) :
    session.goOn turns = session := by
  cases turns with
  | zero => rfl
  | succ turns => simp only [goOn, show session.step? = none from exhausted]

/-- When every turn takes something of what is left, nothing can happen any more after as many turns
as are left. -/
theorem isExhausted_goOn_of_measure
    {measured : Session → Nat → Prop}
    (step : ∀ session later left, measured session left → session.step? = some later →
      ∃ less < left, measured later less)
    {session : Session}
    {left turns : Nat}
    (holds : measured session left)
    (enough : left ≤ turns) :
    (session.goOn turns).IsExhausted := by
  induction turns generalizing session left with
  | zero =>
    apply Option.eq_none_iff_forall_ne_some.mpr
    intro later stepped
    obtain ⟨less, fewer, -⟩ := step session later left holds stepped
    omega
  | succ turns ih =>
    simp only [goOn]
    split
    · next later stepped =>
      obtain ⟨less, fewer, still⟩ := step session later left holds stepped
      exact ih still (by omega)
    · next stuck => exact stuck

section

variable {session : Session} {property : Linting → Prop}

theorem linting_request
    (start : ∀ linting, property linting → property linting.start.1.linting)
    (subscribe : ∀ linting milestone observer, property linting →
      property (linting.subscribe milestone observer).1.linting)
    (request : Request)
    (holds : property session.linting) :
    property (session.request request).linting := by
  cases request with
  | subscribe milestone observer =>
    simp only [Session.request, answer, linting_follow]
    exact subscribe _ milestone observer holds
  | misdirected word => exact holds
  | start =>
    simp only [Session.request, answer, linting_follow]
    exact start _ holds
  | wait =>
    simp only [Session.request]
    split <;> exact holds
  | advance seconds => exact holds

theorem linting_makeRequests
    (start : ∀ linting, property linting → property linting.start.1.linting)
    (subscribe : ∀ linting milestone observer, property linting →
      property (linting.subscribe milestone observer).1.linting)
    (requests : List Request)
    (holds : property session.linting) :
    property (session.makeRequests requests).linting := by
  induction requests generalizing session with
  | nil => exact holds
  | cons next rest ih =>
    have first := linting_request start subscribe next holds
    simp only [Session.makeRequests]
    split
    · exact ih first
    · exact first

theorem linting_catchUp (session : Session) : session.catchUp.linting = session.linting := by
  unfold catchUp
  split
  · rfl
  · rfl
  · split <;> rfl

theorem linting_resume
    (start : ∀ linting, property linting → property linting.start.1.linting)
    (subscribe : ∀ linting milestone observer, property linting →
      property (linting.subscribe milestone observer).1.linting)
    (holds : property session.linting) :
    property session.resume.linting := by
  have caught : property session.catchUp.linting := by
    rw [linting_catchUp]
    exact holds
  simp only [resume]
  split
  · exact linting_makeRequests start subscribe _ caught
  · exact caught

/-- What requests and turns keep of a linting holds as a session goes on. -/
theorem linting_step
    {later : Session}
    (start : ∀ linting, property linting → property linting.start.1.linting)
    (subscribe : ∀ linting milestone observer, property linting →
      property (linting.subscribe milestone observer).1.linting)
    (take : ∀ linting now turn, property linting → property (linting.take now turn).linting)
    (stepped : session.step? = some later)
    (holds : property session.linting) :
    property later.linting := by
  obtain ⟨⟨turn, schedule⟩, -, rfl⟩ := Option.map_eq_some_iff.mp stepped
  cases turn with
  | linting turn =>
    simp only [Session.take, linting_follow]
    exact take _ _ turn holds
  | caller => exact linting_resume start subscribe holds
  | wakeCaller => exact holds

end

end Session

/-- The member whose turn a turn of a session is, with that turn. -/
def SessionTurn.member? : SessionTurn → Option (Nat × Member.Turn)
  | linting (.member index turn) => some (index, turn)
  | _ => none

/-- A property of a schedule that turns of others than members do not affect. -/
structure Indifferent (property : Schedule SessionTurn → Prop) : Prop where
  soon : ∀ schedule turn, turn.member? = none → property schedule →
    property (schedule.soon turn)
  after : ∀ schedule seconds turn, turn.member? = none → property schedule →
    property (schedule.after seconds turn)
  cancel : ∀ schedule turn, turn.member? = none → property schedule →
    property (schedule.cancel turn)

namespace Session

variable {session : Session} {property : Schedule SessionTurn → Prop}

theorem schedule_foldl_absorb
    {effects : List Effect}
    (indifferent : Indifferent property)
    (foreign : effects.filterMap Effect.member? = [])
    (holds : property session.schedule) :
    property (effects.foldl absorb session).schedule := by
  induction effects generalizing session with
  | nil => exact holds
  | cons effect rest ih =>
    rw [List.filterMap_cons] at foreign
    split at foreign
    · next unknown =>
      rw [List.foldl_cons]
      apply ih foreign
      cases effect with
      | soon turn =>
        cases turn with
        | run => exact indifferent.soon _ _ rfl holds
        | member index turn => contradiction
      | after seconds turn =>
        cases turn with
        | run => exact indifferent.after _ _ _ rfl holds
        | member index turn => contradiction
      | cancel turn =>
        cases turn with
        | run => exact indifferent.cancel _ _ rfl holds
        | member index turn => contradiction
      | ended =>
        simp only [absorb]
        split
        · exact indifferent.soon _ _ rfl holds
        · exact holds
      | log record => exact holds
      | invoked index record => exact holds
      | called label state size => exact holds
    · contradiction

theorem schedule_request
    (indifferent : Indifferent property)
    (request : Request)
    (holds : property session.schedule) :
    property (session.request request).schedule := by
  cases request with
  | subscribe milestone observer =>
    refine schedule_foldl_absorb indifferent ?_ holds
    simp [Linting.subscribe, Progress.effects_called, Progress.start, Effect.member?]
  | misdirected word => exact holds
  | start =>
    refine schedule_foldl_absorb indifferent ?_ holds
    simp only [Linting.start]
    split
    · rfl
    · simp [Progress.effects_called, Progress.emit, Progress.modify, Progress.start, Effect.member?]
  | wait =>
    simp only [Session.request]
    split <;> exact holds
  | advance seconds =>
    simp only [Session.request]
    split
    · exact indifferent.soon _ _ rfl holds
    · exact indifferent.after _ _ _ rfl holds

theorem schedule_makeRequests
    (indifferent : Indifferent property)
    (requests : List Request)
    (holds : property session.schedule) :
    property (session.makeRequests requests).schedule := by
  induction requests generalizing session with
  | nil => exact holds
  | cons next rest ih =>
    have first := schedule_request indifferent next holds
    simp only [Session.makeRequests]
    split
    · exact ih first
    · exact first

/-- Going on with the caller does not affect the turns of members. -/
theorem schedule_resume
    (indifferent : Indifferent property)
    (holds : property session.schedule) :
    property session.resume.schedule := by
  have caught : session.catchUp.schedule = session.schedule := by
    unfold catchUp
    split
    · rfl
    · rfl
    · split <;> rfl
  simp only [resume]
  split
  · apply schedule_makeRequests indifferent _
    rw [caught]
    exact holds
  · rw [caught]
    exact holds

/-- Turns take no time. -/
theorem now_foldl_absorb (session : Session) (effects : List Effect) :
    (effects.foldl absorb session).schedule.now = session.schedule.now := by
  induction effects generalizing session with
  | nil => rfl
  | cons effect rest ih =>
    refine (ih _).trans ?_
    cases effect with
    | ended =>
      simp only [absorb]
      split <;> rfl
    | _ => rfl

theorem precision_foldl_absorb (session : Session) (effects : List Effect) :
    (effects.foldl absorb session).schedule.precision = session.schedule.precision := by
  induction effects generalizing session with
  | nil => rfl
  | cons effect rest ih =>
    refine (ih _).trans ?_
    cases effect with
    | ended =>
      simp only [absorb]
      split <;> rfl
    | _ => rfl

/-- Timers stay in order. -/
theorem sorted_foldl_absorb (sorted : session.schedule.Sorted) (effects : List Effect) :
    (effects.foldl absorb session).schedule.Sorted := by
  induction effects generalizing session with
  | nil => exact sorted
  | cons effect rest ih =>
    apply ih
    cases effect with
    | soon turn => exact sorted.soon _
    | after seconds turn => exact sorted.after _ _
    | cancel turn => exact sorted.cancel _
    | ended =>
      simp only [absorb]
      split
      · exact sorted.soon _
      · exact sorted
    | log record => exact sorted
    | invoked index record => exact sorted
    | called label state size => exact sorted

theorem indifferent_sorted : Indifferent Schedule.Sorted where
  soon := fun _ turn _ sorted => sorted.soon turn
  after := fun _ seconds turn _ sorted => sorted.after seconds turn
  cancel := fun _ turn _ sorted => sorted.cancel turn

theorem sorted_step
    {later : Session}
    (sorted : session.schedule.Sorted)
    (stepped : session.step? = some later) :
    later.schedule.Sorted := by
  obtain ⟨⟨turn, schedule⟩, next, rfl⟩ := Option.map_eq_some_iff.mp stepped
  have rest := Schedule.sorted_of_next? sorted next
  cases turn with
  | linting turn => exact sorted_foldl_absorb rest _
  | caller => exact schedule_resume indifferent_sorted rest
  | wakeCaller => exact rest.soon _

end Session

/-- The setting never changes. -/
theorem setting_take (linting : Linting) (now : Rat) (turn : Turn) :
    (linting.take now turn).linting.toSetting = linting.toSetting := by
  cases Heard.take linting now turn with
  | nothing setting_eq _ _ _ => exact setting_eq
  | ended setting_eq _ _ _ _ _ => exact setting_eq

/-- A run that has begun stays so. -/
theorem isEarly_take
    {linting : Linting}
    (begun : linting.phase.isEarly = false)
    (now : Rat)
    (turn : Turn) :
    (linting.take now turn).linting.phase.isEarly = false := by
  cases taken linting now turn with
  | nothing idle nobody same =>
    rw [same]
    exact begun
  | begin isRun scheduled same =>
    rw [scheduled] at begun
    contradiction
  | finish isRun settled same =>
    rw [same, Progress.linting_finish]
    rfl
  | member index own member isMember known same =>
    have followed := @Progress.followed_follow (.start linting) index member _ known
      (member.conduct_take linting.toSetting now own)
    rw [same, followed.phase_eq]
    split
    · rfl
    · exact begun

/-- The rule and the index of a member. -/
def Member.key (member : Member) : String × Int := (member.reporter.rule, member.reporter.index)

/-- What a member does does not change its key. -/
theorem Member.Conduct.key_eq
    {member : Member}
    {course : Member.Course}
    (conduct : member.Conduct course) :
    course.member.key = member.key := by
  rw [key, key, conduct.rule_eq, conduct.index_eq]

/-- The keys of the members, in order. -/
def keys (linting : Linting) : List (String × Int) := linting.members.map Member.key

theorem getElem?_keys
    {linting : Linting}
    {index : Nat}
    {member : Member}
    (known : linting.members[index]? = some member) :
    linting.keys[index]? = some member.key := by
  rw [keys, List.getElem?_map, known, Option.map_some]

theorem Progress.Followed.keys_eq
    {before after : Linting}
    {index : Nat}
    {member : Member}
    {course : Member.Course}
    (followed : Progress.Followed before after index course)
    (known : before.members[index]? = some member)
    (conduct : member.Conduct course) :
    after.keys = before.keys := by
  obtain ⟨bound, found⟩ := List.getElem?_eq_some_iff.mp (getElem?_keys known)
  rw [keys, followed.members_eq, List.map_set, conduct.key_eq, ← found]
  exact List.set_getElem_self bound

theorem keys_invoke (progress : Progress) (index : Nat) (now : Rat) :
    (progress.invoke index now).1.linting.keys = progress.linting.keys := by
  cases progress.invoked index now with
  | nobody unknown same => rw [same]
  | member member record known same =>
    rw [same]
    have conduct := member.conduct_invoke progress.linting.toSetting now
    exact (@Progress.followed_follow (progress.emit (.invoked index record)) index member _ known
      conduct).keys_eq known conduct

/-- What invoking members, following one of them and freezing the diagnostics keep of the members and
the diagnostics holds when a turn is taken. -/
theorem take_induction
    {property : List Member → Collection → Prop}
    {linting : Linting}
    {now : Rat}
    {turn : Turn}
    (freeze : ∀ members collection, property members collection → property members collection.freeze)
    (invoke : ∀ (progress : Progress) (index : Nat),
      property progress.linting.members progress.linting.diagnostics →
        property (progress.invoke index now).1.linting.members
          (progress.invoke index now).1.linting.diagnostics)
    (follow : ∀ index own member, linting.members[index]? = some member →
      property ((Progress.start linting).follow index
          (member.take linting.toSetting now own)).linting.members
        ((Progress.start linting).follow index
          (member.take linting.toSetting now own)).linting.diagnostics)
    (holds : property linting.members linting.diagnostics) :
    property (linting.take now turn).linting.members (linting.take now turn).linting.diagnostics := by
  have finished : ∀ progress : Progress,
      property progress.linting.members progress.linting.diagnostics →
        property progress.finish.linting.members progress.finish.linting.diagnostics := by
    intro progress holds
    rw [Progress.linting_finish]
    exact freeze _ _ holds
  cases taken linting now turn with
  | nothing idle nobody same =>
    rw [same]
    exact holds
  | begin isRun scheduled same =>
    have every := @Progress.invokeAll_induction (fun progress =>
      property progress.linting.members progress.linting.diagnostics) now
      invoke (Progress.start linting).enter holds (List.range linting.members.length)
    rw [same]
    cases (Progress.start linting).begun now with
    | stopped failure stops same =>
      rw [same]
      exact every
    | waiting goesOn some same =>
      rw [same]
      exact every
    | finished goesOn none same =>
      rw [same]
      exact finished _ every
  | finish isRun settled same =>
    rw [same]
    exact finished _ holds
  | member index own member isMember known same =>
    rw [same]
    exact follow index own member known

/-- Members keep their keys. -/
theorem keys_take (linting : Linting) (now : Rat) (turn : Turn) :
    (linting.take now turn).linting.keys = linting.keys := by
  refine @take_induction (fun members _ => members.map Member.key = linting.keys) linting now turn
    (fun _ _ same => same) (fun progress index same => ?_) (fun index own member known => ?_) rfl
  · exact (keys_invoke progress index now).trans same
  · have conduct := member.conduct_take linting.toSetting now own
    exact (@Progress.followed_follow (.start linting) index member _ known conduct).keys_eq known
      conduct

theorem keys_start (linting : Linting) : linting.start.1.linting.keys = linting.keys := by
  simp only [Linting.start]
  split
  · rfl
  · simp [keys]

theorem keys_subscribe (linting : Linting) (milestone : Milestone) (observer : Observer) :
    (linting.subscribe milestone observer).1.linting.keys = linting.keys := by
  simp [Linting.subscribe, keys]

end Linting
end MarkupLint
