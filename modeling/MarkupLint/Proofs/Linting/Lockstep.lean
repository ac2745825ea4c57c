import MarkupLint.Proofs.Linting.Beginning
import MarkupLint.Proofs.Schedule.Precedence

/-!
# Before a run begins

Until its run begins, a session does not depend on its members.  Two sessions with the same requests
take the same turns, and their runs begin at the same instant.
-/

namespace MarkupLint

/-- A schedule on which no turn is known looks as if nothing were to do. -/
theorem Schedule.project_of_forall_unknown
    {Turn Own : Type}
    {schedule : Schedule Turn}
    {part : Part Turn Own}
    (unknown : ∀ turn ∈ schedule.entries, part.own? turn = none) :
    schedule.project part =
      { Schedule.empty schedule.precision (part.precedence schedule.precedence) with
        now := schedule.now } := by
  simp only [entries, List.mem_append, List.mem_map] at unknown
  have current : schedule.current.filterMap part.own? = [] :=
    List.filterMap_eq_nil_iff.mpr fun turn known => unknown turn (.inl (.inl known))
  have upcoming : schedule.upcoming.filterMap part.own? = [] :=
    List.filterMap_eq_nil_iff.mpr fun turn known => unknown turn (.inl (.inr known))
  have timers : schedule.timers.filterMap
      (fun timer => (part.own? timer.2).map (timer.1, ·)) = [] := by
    apply List.filterMap_eq_nil_iff.mpr
    intro timer known
    rw [unknown timer.2 (.inr ⟨timer, known, rfl⟩)]
    rfl
  simp only [project, current, upcoming, timers, empty]

namespace Linting
namespace Session

/-- A session whose run has not begun: neither its members nor its diagnostics have been touched, and
none but the caller and the run has turns. -/
structure Unbegun (linting : Linting) (session : Session) : Prop extends session.Orderly where
  early : session.linting.phase.isEarly = true
  quiet : ∀ turn ∈ session.schedule.entries, turn.member? = none
  setting_eq : session.linting.toSetting = linting.toSetting
  members_eq : session.linting.members = linting.members
  diagnostics_eq : session.linting.diagnostics = linting.diagnostics

/-- The run begins in the next turn, which leaves a schedule. -/
structure Begins (session : Session) (schedule : Schedule SessionTurn) : Prop where
  next : session.schedule.next? = some (.linting .run, schedule)
  scheduled : session.linting.phase = .scheduled

theorem indifferent_quiet :
    Indifferent fun schedule => ∀ turn ∈ schedule.entries, turn.member? = none where
  soon := by
    intro schedule turn foreign quiet other known
    rcases List.mem_cons.mp ((Schedule.entries_soon _ _).mem_iff.mp known) with rfl | known
    · exact foreign
    · exact quiet other known
  after := by
    intro schedule seconds turn foreign quiet other known
    rcases List.mem_cons.mp ((Schedule.entries_after _ _ _).mem_iff.mp known) with rfl | known
    · exact foreign
    · exact quiet other known
  cancel := fun schedule turn _ quiet other known =>
    quiet other ((Schedule.sublist_entries_cancel schedule turn).mem known)

/-- A run that has not begun stays so until it begins. -/
theorem Unbegun.step
    {linting : Linting}
    {session later : Session}
    (unbegun : Unbegun linting session)
    (stepped : session.step? = some later) :
    Unbegun linting later ∨ ∃ schedule, session.Begins schedule := by
  have orderly := unbegun.toOrderly.step stepped
  obtain ⟨⟨turn, schedule⟩, next, rfl⟩ := Option.map_eq_some_iff.mp stepped
  have entries := Schedule.entries_next? next
  have quiet : ∀ turn ∈ schedule.entries, turn.member? = none := by
    intro turn known
    exact unbegun.quiet turn (entries.mem_iff.mpr (List.mem_cons_of_mem _ known))
  cases turn with
  | caller =>
    obtain ⟨setting_eq, members_eq, diagnostics_eq⟩ :=
      untouched_resume { session with schedule := schedule }
    refine .inl ⟨orderly, ?_, ?_, setting_eq.trans unbegun.setting_eq,
      members_eq.trans unbegun.members_eq, diagnostics_eq.trans unbegun.diagnostics_eq⟩
    · refine @linting_resume { session with schedule := schedule }
        (fun linting => linting.phase.isEarly = true) ?_ ?_ unbegun.early
      · intro linting early
        simp only [Linting.start]
        split
        · exact early
        · simp [Phase.isEarly]
      · intro linting milestone observer early
        simpa [Linting.subscribe] using early
    · exact @schedule_resume { session with schedule := schedule } _ indifferent_quiet quiet
  | wakeCaller =>
    exact .inl ⟨orderly, unbegun.early, indifferent_quiet.soon _ _ rfl quiet, unbegun.setting_eq,
      unbegun.members_eq, unbegun.diagnostics_eq⟩
  | linting turn =>
    cases turn with
    | member index own =>
      have foreign := unbegun.quiet _ (entries.mem_iff.mpr List.mem_cons_self)
      contradiction
    | run =>
      simp only [Session.take] at orderly ⊢
      cases taken session.linting schedule.now .run with
      | nothing idle nobody same =>
        rw [same] at orderly ⊢
        exact .inl ⟨orderly, unbegun.early, quiet, unbegun.setting_eq, unbegun.members_eq,
          unbegun.diagnostics_eq⟩
      | begin isRun scheduled same => exact .inr ⟨schedule, next, scheduled⟩
      | finish isRun settled same =>
        have early := unbegun.early
        rw [settled] at early
        contradiction
      | member index own member isMember known same => contradiction

theorem schedule_foldl_called
    (session : Session)
    (labels : List String)
    (state : LintState)
    (size : Nat) :
    ((labels.map (Effect.called · state size)).foldl absorb session).schedule = session.schedule := by
  induction labels generalizing session with
  | nil => rfl
  | cons label rest ih => exact ih (session.absorb (.called label state size))

theorem schedule_subscribe (session : Session) (milestone : Milestone) (observer : Observer) :
    (session.follow (session.linting.subscribe milestone observer).1).schedule =
      session.schedule := by
  simp only [follow, Linting.subscribe, Progress.effects_called, Progress.start, List.nil_append]
  exact schedule_foldl_called _ _ _ _

theorem schedule_start (session : Session) :
    (session.follow session.linting.start.1).schedule =
      if session.linting.phase = .unstarted then session.schedule.soon (.linting .run)
      else session.schedule := by
  simp only [Linting.start, isStarted, bne_iff_ne]
  by_cases unstarted : session.linting.phase = .unstarted
  · rw [if_neg (by simpa using unstarted), if_pos unstarted]
    simp only [follow, Progress.effects_called, Progress.emit, Progress.modify, Progress.start,
      List.nil_append, List.singleton_append, List.foldl_cons]
    exact schedule_foldl_called _ _ _ _
  · rw [if_pos (by simpa using unstarted), if_neg unstarted]
    rfl

theorem phase_start (linting : Linting) :
    linting.start.1.linting.phase =
      if linting.phase = .unstarted then .scheduled else linting.phase := by
  simp only [Linting.start, isStarted, bne_iff_ne]
  by_cases unstarted : linting.phase = .unstarted
  · rw [if_neg (by simpa using unstarted), if_pos unstarted]
    simp
  · rw [if_pos (by simpa using unstarted), if_neg unstarted]
    rfl

/-- Two sessions that may differ in their members and in the order of the timers of one instant, as far
as the caller and the run are concerned. -/
structure Akin (precedence other : Precedence SessionTurn) (first second : Session) : Prop where
  precedence_eq : first.schedule.precedence = precedence
  /-- Whoever sets timers is the caller. -/
  timers : ∀ timer ∈ first.schedule.timers, timer.2 = .wakeCaller
  schedule_eq : second.schedule = first.schedule.withPrecedence other
  caller_eq : first.caller = second.caller
  requests_eq : first.requests = second.requests
  phase_eq : first.linting.phase = second.linting.phase

namespace Akin

variable {precedence other : Precedence SessionTurn} {first second : Session}

theorem answer (akin : Akin precedence other first second) (reply last : Reply) :
    Akin precedence other (first.answer reply) (second.answer last) where
  precedence_eq := akin.precedence_eq
  timers := akin.timers
  schedule_eq := akin.schedule_eq
  caller_eq := rfl
  requests_eq := congrArg (List.drop 1) akin.requests_eq
  phase_eq := akin.phase_eq

theorem request (akin : Akin precedence other first second) (request : Request) :
    Akin precedence other (first.request request) (second.request request) := by
  have precedence_eq := akin.precedence_eq
  have timers := akin.timers
  cases request with
  | subscribe milestone observer =>
    refine answer ⟨?_, ?_, ?_, ?_, ?_, ?_⟩ _ _
    · rwa [schedule_subscribe]
    · rwa [schedule_subscribe]
    · rw [schedule_subscribe, schedule_subscribe, akin.schedule_eq]
    · rw [caller_follow, caller_follow, akin.caller_eq]
    · rw [requests_follow, requests_follow, akin.requests_eq]
    · rw [linting_follow, linting_follow]
      simpa [Linting.subscribe] using akin.phase_eq
  | misdirected word => exact akin.answer _ _
  | start =>
    refine answer ⟨?_, ?_, ?_, ?_, ?_, ?_⟩ _ _
    · rw [schedule_start]
      split <;> exact precedence_eq
    · rw [schedule_start]
      split <;> exact timers
    · rw [schedule_start, schedule_start, akin.schedule_eq, akin.phase_eq]
      split <;> rfl
    · rw [caller_follow, caller_follow, akin.caller_eq]
    · rw [requests_follow, requests_follow, akin.requests_eq]
    · rw [linting_follow, linting_follow, phase_start, phase_start, akin.phase_eq]
  | wait =>
    have answered : first.linting.answer?.isSome = second.linting.answer?.isSome := by
      rw [isSome_answer?, isSome_answer?, akin.phase_eq]
    simp only [Session.request]
    cases early : first.linting.answer? <;> cases late : second.linting.answer?
    · exact { akin with caller_eq := rfl }
    · simp [early, late] at answered
    · simp [early, late] at answered
    · exact akin.answer _ _
  | advance seconds =>
    refine ⟨?_, ?_, ?_, rfl, akin.requests_eq, akin.phase_eq⟩
    · simp only [Session.request]
      split <;> exact precedence_eq
    · simp only [Session.request]
      split
      · exact timers
      · intro timer known
        rcases List.mem_cons.mp ((Schedule.insertTimer_perm _ _ _ _).mem_iff.mp known) with rfl |
          earlier
        · rfl
        · exact timers timer earlier
    · simp only [Session.request, akin.schedule_eq]
      split
      · rfl
      · exact Schedule.after_withPrecedence_of_forall timers seconds other

theorem makeRequests (akin : Akin precedence other first second) (requests : List Request) :
    Akin precedence other (first.makeRequests requests) (second.makeRequests requests) := by
  induction requests generalizing first second with
  | nil => exact akin
  | cons next rest ih =>
    have requested := akin.request next
    simp only [Session.makeRequests, requested.caller_eq]
    split
    · exact ih requested
    · exact requested

theorem catchUp (akin : Akin precedence other first second) :
    Akin precedence other first.catchUp second.catchUp := by
  have answered : first.linting.answer?.isSome = second.linting.answer?.isSome := by
    rw [isSome_answer?, isSome_answer?, akin.phase_eq]
  have caller_eq := akin.caller_eq
  unfold Session.catchUp
  rw [caller_eq]
  split
  · exact akin
  · exact akin.answer _ _
  · cases early : first.linting.answer? <;> cases late : second.linting.answer?
    · exact akin
    · simp [early, late] at answered
    · simp [early, late] at answered
    · exact akin.answer _ _

theorem resume (akin : Akin precedence other first second) :
    Akin precedence other first.resume second.resume := by
  have caught := akin.catchUp
  simp only [Session.resume, caught.caller_eq, caught.requests_eq]
  split
  · exact caught.makeRequests _
  · exact caught

/-- The next turns of both are the same. -/
theorem next?
    {turn : SessionTurn}
    {schedule : Schedule SessionTurn}
    (akin : Akin precedence other first second)
    (next : first.schedule.next? = some (turn, schedule)) :
    second.schedule.next? = some (turn, schedule.withPrecedence other) ∧
      Akin precedence other { first with schedule := schedule }
        { second with schedule := schedule.withPrecedence other } := by
  refine ⟨?_, (Schedule.precedence_of_next? next).trans akin.precedence_eq, fun timer known => ?_, rfl,
    akin.caller_eq, akin.requests_eq, akin.phase_eq⟩
  · rw [akin.schedule_eq, Schedule.next?_withPrecedence, next]
    rfl
  · exact akin.timers timer (Schedule.mem_timers_of_next? next known)

theorem begins
    {schedule : Schedule SessionTurn}
    (akin : Akin precedence other first second)
    (begins : first.Begins schedule) :
    second.Begins (schedule.withPrecedence other) where
  next := (akin.next? begins.next).1
  scheduled := akin.phase_eq.symm.trans begins.scheduled

/-- As long as their runs do not begin, akin sessions take the same turns. -/
theorem step
    {linting : Linting}
    {later : Session}
    (akin : Akin precedence other first second)
    (unbegun : Unbegun linting first)
    (waits : ¬∃ schedule, first.Begins schedule)
    (stepped : first.step? = some later) :
    ∃ next, second.step? = some next ∧ Akin precedence other later next := by
  obtain ⟨⟨turn, schedule⟩, next, rfl⟩ := Option.map_eq_some_iff.mp stepped
  obtain ⟨otherNext, popped⟩ := akin.next? next
  refine ⟨{ second with schedule := schedule.withPrecedence other }.take turn,
    Option.map_eq_some_iff.mpr ⟨_, otherNext, rfl⟩, ?_⟩
  cases turn with
  | caller => exact popped.resume
  | wakeCaller => exact { popped with schedule_eq := rfl }
  | linting turn =>
    cases turn with
    | member index own =>
      have known := (Schedule.entries_next? next).mem_iff.mpr List.mem_cons_self
      have foreign := unbegun.quiet _ known
      contradiction
    | run =>
      have early := unbegun.early
      cases phase : first.linting.phase with
      | scheduled => exact absurd ⟨schedule, next, phase⟩ waits
      | unstarted =>
        have otherPhase := akin.phase_eq.symm.trans phase
        simp only [Session.take, Linting.take, Progress.take, Progress.linting_start, phase,
          otherPhase]
        exact popped
      | _ => simp [phase, Phase.isEarly] at early

end Akin

/-- A session whose run has begun is one that was about to begin it, some turns later. -/
theorem Unbegun.exists_earlier
    {linting : Linting}
    {session : Session}
    {turns : Nat}
    (unbegun : Unbegun linting session)
    (begun : (session.goOn turns).linting.phase.isEarly = false) :
    ∃ early schedule left, Unbegun linting early ∧ early.Begins schedule ∧
      session.goOn turns = early.goOn (left + 1) := by
  induction turns generalizing session with
  | zero =>
    rw [Session.goOn, unbegun.early] at begun
    contradiction
  | succ turns ih =>
    by_cases begins : ∃ schedule, session.Begins schedule
    · obtain ⟨schedule, begins⟩ := begins
      exact ⟨session, schedule, turns, unbegun, begins, rfl⟩
    · cases stepped : session.step? with
      | none =>
        rw [Session.goOn, stepped, unbegun.early] at begun
        contradiction
      | some later =>
        simp only [Session.goOn, stepped] at begun ⊢
        exact ih ((unbegun.step stepped).resolve_right begins) begun

end Session

/-- The member with an index, on its own, at the instant of a schedule, when it has not been invoked. -/
def Solo.idle (index : Nat) (member : Member) (schedule : Schedule SessionTurn) : Solo where
  member := member
  schedule :=
    { Schedule.empty schedule.precision
        ((Session.ownPart index).precedence schedule.precedence) with
      now := schedule.now }
  diagnostics := []

/-- Who is invoked depends on the members and the setting only. -/
theorem invokees_congr
    {first second : Linting}
    (setting_eq : first.toSetting = second.toSetting)
    (members_eq : first.members = second.members) :
    first.invokees = second.invokees := by
  funext now
  have goes : first.goesOn now = second.goesOn now := by
    funext index
    simp only [goesOn, Progress.invoke, Progress.member?, Progress.linting_start, members_eq,
      setting_eq]
    split <;> rfl
  rw [invokees, invokees, goes, members_eq]

theorem isEarly_begin (progress : Progress) (now : Rat) :
    (progress.begin now).linting.phase.isEarly = false := by
  cases progress.begun now with
  | stopped failure stops same =>
    rw [same]
    rfl
  | waiting goesOn some same =>
    rw [same]
    rfl
  | finished goesOn none same =>
    rw [same, Progress.linting_finish]
    rfl

namespace Session

theorem Begins.step?
    {session : Session}
    {schedule : Schedule SessionTurn}
    (begins : session.Begins schedule) :
    session.step? = some (({ session with schedule := schedule } : Session).follow
      ((Progress.start session.linting).begin schedule.now)) := by
  refine Option.map_eq_some_iff.mpr ⟨_, begins.next, ?_⟩
  simp only [Session.take, Linting.take, Progress.take, Progress.linting_start, begins.scheduled]

/-- In the turn in which the run begins, the setting does not change. -/
theorem Unbegun.begun
    {linting : Linting}
    {session : Session}
    {schedule : Schedule SessionTurn}
    (unbegun : Unbegun linting session)
    (begins : session.Begins schedule) :
    let after := ({ session with schedule := schedule } : Session).follow
      ((Progress.start session.linting).begin schedule.now)
    session.step? = some after ∧ after.linting.phase.isEarly = false ∧
      after.linting.toSetting = linting.toSetting := by
  have kept := setting_take session.linting schedule.now .run
  simp only [Linting.take, Progress.take, Progress.linting_start, begins.scheduled] at kept
  refine ⟨begins.step?, ?_, ?_⟩
  · rw [linting_follow]
    exact isEarly_begin _ _
  · rw [linting_follow, kept, unbegun.setting_eq]

/-- When the run begins, a session shows of a member that is invoked what that member does on its own,
and of another one that it is left alone. -/
theorem Unbegun.shows_begin
    {linting : Linting}
    {session : Session}
    {schedule : Schedule SessionTurn}
    {index : Nat}
    {member : Member}
    (unbegun : Unbegun linting session)
    (begins : session.Begins schedule)
    (known : linting.members[index]? = some member)
    (unattributed : linting.diagnostics.attributed member.key = []) :
    (({ session with schedule := schedule } : Session).follow
      ((Progress.start session.linting).begin schedule.now)).Shows index
        (if index ∈ linting.invokees schedule.now
          then (Solo.idle index member schedule).follow
            (member.invoke linting.toSetting schedule.now).1
          else Solo.idle index member schedule) := by
  have entries := Schedule.entries_next? begins.next
  have popped : ({ session with schedule := schedule } : Session).Orderly :=
    ⟨unbegun.balanced, Schedule.sorted_of_next? unbegun.sorted begins.next, unbegun.distinct⟩
  have schedule_eq : ({ session with schedule := schedule } : Session).ownSchedule index =
      (Solo.idle index member schedule).schedule := by
    refine Schedule.project_of_forall_unknown fun turn waits => own?_eq_none ?_
    exact unbegun.quiet turn (entries.mem_iff.mpr (List.mem_cons_of_mem _ waits))
  have shown : ({ session with schedule := schedule } : Session).Shows index
      (Solo.idle index member schedule) := by
    refine ⟨?_, ?_, ?_, le_refl _⟩
    · rw [unbegun.members_eq, known]
      rfl
    · rw [schedule_eq]
      exact .refl _
    · rw [unbegun.diagnostics_eq]
      exact unattributed
  have began := shown.begin schedule_eq popped begins.scheduled schedule.now
  have called : session.linting.invokees schedule.now = linting.invokees schedule.now := by
    rw [invokees_congr unbegun.setting_eq unbegun.members_eq]
  rw [called, unbegun.setting_eq] at began
  split
  · next invoked => exact began.1 invoked
  · next spared => exact began.2 spared

/-- Once the run has begun, a session shows of a member that was invoked what that member has done
on its own since, and of another one that it was left alone. -/
theorem Unbegun.shows
    {linting : Linting}
    {session : Session}
    {schedule : Schedule SessionTurn}
    {index : Nat}
    {member : Member}
    (unbegun : Unbegun linting session)
    (begins : session.Begins schedule)
    (known : linting.members[index]? = some member)
    (unattributed : linting.diagnostics.attributed member.key = [])
    (turns : Nat) :
    ∃ last, (session.goOn (turns + 1)).Shows index last ∧
      Solo.Reaches linting.toSetting
        (if index ∈ linting.invokees schedule.now
          then (Solo.idle index member schedule).follow
            (member.invoke linting.toSetting schedule.now).1
          else Solo.idle index member schedule) last := by
  obtain ⟨stepped, early, setting_eq⟩ := unbegun.begun begins
  have began := unbegun.shows_begin begins known unattributed
  obtain ⟨last, lastShown, path⟩ := began.goOn (unbegun.toOrderly.step stepped) early turns
  rw [setting_eq] at path
  simp only [Session.goOn, stepped]
  exact ⟨last, lastShown, path⟩

/-- What a session shows of a member bears the key of that member. -/
theorem Unbegun.key_eq
    {linting : Linting}
    {session : Session}
    {index turns : Nat}
    {member : Member}
    {solo : Solo}
    (unbegun : Unbegun linting session)
    (known : linting.members[index]? = some member)
    (shown : (session.goOn turns).Shows index solo) :
    solo.member.key = member.key := by
  have own := getElem?_keys shown.member_eq
  rw [keys_goOn, keys, unbegun.members_eq, List.getElem?_map, known] at own
  exact (Option.some.inj own).symm

end Session
end Linting
end MarkupLint
