import MarkupLint.Proofs.Linting.Work

/-!
# Sessions come to rest

When instances may be idle as long as they like, every turn of a session takes some of the work that
is left, so after finitely many turns nothing can happen any more.
-/

namespace MarkupLint
namespace Linting

/-- The work of a turn of a session, with that of the turns that it leads to. -/
def SessionTurn.work : SessionTurn → Nat
  | linting turn => turn.work
  | caller => 1
  | wakeCaller => 2

namespace Session

/-- The work that is left of the caller. -/
def callerWork (session : Session) : Nat :=
  match session.caller with
  | .free => 4 * session.requests.length + 3
  | _ => 4 * (session.requests.length - 1) + 4

/-- The work that is on the schedule. -/
def scheduledWork (session : Session) : Nat :=
  (session.schedule.entries.map SessionTurn.work).sum

/-- The work that is left of a session. -/
def work (session : Session) : Nat :=
  session.scheduledWork + session.linting.work + session.callerWork

theorem scheduledWork_soon (session : Session) (turn : SessionTurn) :
    scheduledWork { session with schedule := session.schedule.soon turn } =
      session.scheduledWork + turn.work := by
  have entries := ((Schedule.entries_soon session.schedule turn).map SessionTurn.work).sum_nat
  simp only [scheduledWork, entries, List.map_cons, List.sum_cons]
  omega

theorem scheduledWork_after (session : Session) (seconds : Rat) (turn : SessionTurn) :
    scheduledWork { session with schedule := session.schedule.after seconds turn } =
      session.scheduledWork + turn.work := by
  have entries :=
    ((Schedule.entries_after session.schedule seconds turn).map SessionTurn.work).sum_nat
  simp only [scheduledWork, entries, List.map_cons, List.sum_cons]
  omega

theorem scheduledWork_absorb (session : Session) (effect : Effect) :
    scheduledWork (session.absorb effect) ≤ session.scheduledWork + effect.work := by
  cases effect with
  | soon turn => exact (session.scheduledWork_soon _).le
  | after seconds turn => exact (session.scheduledWork_after seconds _).le
  | cancel turn =>
    exact ((Schedule.sublist_entries_cancel session.schedule _).map _).sum_le_sum fun _ _ =>
      Nat.zero_le _
  | ended =>
    simp only [absorb]
    split
    · exact (session.scheduledWork_soon _).le
    · exact Nat.le_add_right _ _
  | _ => exact Nat.le_refl _

theorem scheduledWork_foldl_absorb (session : Session) (effects : List Effect) :
    scheduledWork (effects.foldl absorb session) ≤
      session.scheduledWork + (effects.map Effect.work).sum := by
  induction effects generalizing session with
  | nil => exact Nat.le_refl _
  | cons effect rest ih =>
    have first := session.scheduledWork_absorb effect
    have others := ih (session.absorb effect)
    rw [List.foldl_cons, List.map_cons, List.sum_cons]
    omega

/-- What a turn brings is on the schedule then, or left to the linting. -/
theorem work_follow (session : Session) (progress : Progress) :
    (session.follow progress).work + session.linting.work ≤ session.work + progress.work := by
  have scheduled : (session.follow progress).scheduledWork ≤
      session.scheduledWork + (progress.effects.map Effect.work).sum :=
    scheduledWork_foldl_absorb { session with linting := progress.linting } progress.effects
  have caller_eq : (session.follow progress).callerWork = session.callerWork := by
    rw [callerWork, callerWork, caller_follow, requests_follow]
  have linting_eq : (session.follow progress).linting.work = progress.linting.work := by
    rw [linting_follow]
  simp only [work, caller_eq, linting_eq, Progress.work]
  omega

/-- Answering a request takes what is left of it. -/
theorem work_answer (session : Session) (reply : Reply) :
    (session.answer reply).work ≤ session.work := by
  have caller : (session.answer reply).callerWork ≤ session.callerWork := by
    simp only [callerWork, answer, List.length_drop]
    split <;> omega
  exact Nat.add_le_add_left caller _

theorem work_request
    {session : Session}
    (free : session.caller = .free)
    (some : session.requests ≠ [])
    (request : Request) :
    (session.request request).work ≤ session.work := by
  have more := List.length_pos_iff.mpr some
  cases request with
  | subscribe milestone observer =>
    have followed := session.work_follow (session.linting.subscribe milestone observer).1
    rw [work_subscribe] at followed
    refine (work_answer _ _).trans ?_
    omega
  | misdirected word => exact session.work_answer _
  | start =>
    have followed := session.work_follow session.linting.start.1
    have started := work_start session.linting
    refine (work_answer _ _).trans ?_
    omega
  | wait =>
    simp only [Session.request]
    split
    · exact session.work_answer _
    · refine Nat.add_le_add_left ?_ _
      simp only [callerWork, free]
      omega
  | advance seconds =>
    have caller : callerWork (session.request (.advance seconds)) + 2 ≤ session.callerWork := by
      simp only [callerWork, Session.request, free]
      omega
    have scheduled : scheduledWork (session.request (.advance seconds)) ≤
        session.scheduledWork + 2 := by
      simp only [Session.request]
      split
      · exact (session.scheduledWork_soon .caller).le.trans (by simp [SessionTurn.work])
      · exact (session.scheduledWork_after seconds .wakeCaller).le
    have linting_eq : (session.request (.advance seconds)).linting = session.linting := rfl
    simp only [work, linting_eq]
    omega

theorem work_makeRequests
    {session : Session}
    {requests : List Request}
    (free : session.caller = .free)
    (same : session.requests = requests) :
    (session.makeRequests requests).work ≤ session.work := by
  induction requests generalizing session with
  | nil => exact Nat.le_refl _
  | cons next rest ih =>
    have made := work_request free (by simp [same]) next
    simp only [Session.makeRequests]
    split
    · next still =>
      exact (ih still (requests_request same still)).trans made
    · exact made

theorem work_resume (session : Session) : session.resume.work ≤ session.work := by
  have caught : session.catchUp.work ≤ session.work := by
    unfold catchUp
    split
    · exact Nat.le_refl _
    · exact session.work_answer _
    · split
      · exact session.work_answer _
      · exact Nat.le_refl _
  simp only [resume]
  split
  · next free => exact (work_makeRequests free rfl).trans caught
  · exact caught

/-- A turn of the caller or of the run takes some of the work that is left; one of a member takes what
the member does. -/
theorem work_step
    {session : Session}
    {turn : SessionTurn}
    {schedule : Schedule SessionTurn}
    (balanced : Balanced session.linting)
    (next : session.schedule.next? = some (turn, schedule)) :
    ((({ session with schedule := schedule } : Session).take turn).work < session.work ∧
        ∀ index own, turn = .linting (.member index own) →
          session.linting.members[index]? = none) ∨
      ∃ index own member, turn = .linting (.member index own) ∧
        session.linting.members[index]? = some member ∧
        (({ session with schedule := schedule } : Session).take turn).work + own.work +
            member.work ≤
          session.work + ((member.take session.linting.toSetting schedule.now own).work +
            (member.take session.linting.toSetting schedule.now own).member.work) := by
  have entries := ((Schedule.entries_next? next).map SessionTurn.work).sum_nat
  have popped : work { session with schedule := schedule } + turn.work = session.work := by
    simp only [work, scheduledWork, entries, List.map_cons, List.sum_cons]
    simp only [callerWork]
    omega
  cases turn with
  | linting turn =>
    have followed := work_follow { session with schedule := schedule }
      (session.linting.take schedule.now turn)
    simp only [SessionTurn.work] at popped
    simp only [Session.take]
    dsimp only at followed
    rcases work_take balanced schedule.now turn with
      ⟨less, nobody⟩ | ⟨index, own, member, rfl, known, taken⟩
    · exact .inl ⟨by omega, fun index own same => nobody index own (SessionTurn.linting.inj same)⟩
    · refine .inr ⟨index, own, member, rfl, known, ?_⟩
      simp only [Turn.work] at popped
      omega
  | caller =>
    have resumed := work_resume { session with schedule := schedule }
    simp only [SessionTurn.work] at popped
    simp only [Session.take]
    exact .inl ⟨by omega, by simp⟩
  | wakeCaller =>
    have woken := scheduledWork_soon { session with schedule := schedule } .caller
    have later_eq : work { session with schedule := schedule.soon .caller } =
        work { session with schedule := schedule } + 1 := by
      simp only [work] at woken ⊢
      rw [woken]
      simp only [SessionTurn.work, callerWork]
      omega
    simp only [SessionTurn.work] at popped
    simp only [Session.take]
    exact .inl ⟨by omega, by simp⟩

/-- When instances may be idle as long as they like, every turn takes some of the work that is left. -/
theorem work_lt_of_calm
    {session later : Session}
    (calm : Calm session.linting)
    (stepped : session.step? = some later) :
    later.work < session.work := by
  obtain ⟨⟨turn, schedule⟩, next, rfl⟩ := Option.map_eq_some_iff.mp stepped
  rcases work_step calm.balanced next with ⟨less, -⟩ | ⟨index, own, member, -, known, taken⟩
  · exact less
  · have acted := Member.acted session.linting.toSetting schedule.now member own
    have less := acted.work_lt fun since _ _ => Member.left?_of_unbounded calm.unbounded _ since member
    dsimp only
    omega

/-- After as many turns as there is work, nothing can happen any more. -/
theorem isExhausted_goOn_of_calm
    {session : Session}
    {turns : Nat}
    (calm : Calm session.linting)
    (enough : session.work ≤ turns) :
    (session.goOn turns).IsExhausted := by
  refine @isExhausted_goOn_of_measure (fun session left => Calm session.linting ∧ session.work = left)
    ?_ session _ turns ⟨calm, rfl⟩ enough
  rintro session later _ ⟨calm, rfl⟩ stepped
  refine ⟨later.work, work_lt_of_calm calm stepped, ?_, rfl⟩
  exact linting_step (fun _ calm => calm.start)
    (fun _ milestone observer calm => calm.subscribe milestone observer)
    (fun _ now turn calm => calm.take now turn) stepped calm

/-- After finitely many turns, nothing can happen any more. -/
theorem exists_isExhausted_goOn
    {session : Session}
    (calm : Calm session.linting) :
    ∃ turns, (session.goOn turns).IsExhausted :=
  ⟨session.work, isExhausted_goOn_of_calm calm le_rfl⟩

end Session

end Linting
end MarkupLint
