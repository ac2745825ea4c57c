import MarkupLint.Proofs.Linting.Chronicle
import MarkupLint.Proofs.Schedule.Entries

/-!
# Attending to the caller

Turns that are ready stay on the schedule of a session until they are taken or cancelled.  A caller
who need not wait any longer is attended to: there is a turn for the caller on the schedule.
-/

namespace MarkupLint
namespace Linting

/-- Whether waiting for the end has an answer. -/
def Phase.isAnswered : Phase → Bool
  | unstarted => true
  | ended _ => true
  | _ => false

theorem isSome_answer? (linting : Linting) : linting.answer?.isSome = linting.phase.isAnswered := by
  unfold answer?
  cases linting.phase with
  | ended outcome => cases outcome <;> rfl
  | _ => rfl

/-- Whether an effect puts the turn on the schedule. -/
def Effect.Brings (turn : Turn) : Effect → Prop
  | .soon other => other = turn
  | .after _ other => other = turn
  | _ => False

namespace Session

theorem foldl_absorb (session : Session) (effects : List Effect) :
    let after := effects.foldl absorb session
    after.linting = session.linting ∧ after.caller = session.caller ∧
      after.requests = session.requests ∧ after.answers = session.answers ∧
      after.calls = session.calls ++ observed effects := by
  induction effects generalizing session with
  | nil => simp [observed]
  | cons effect rest ih =>
    obtain ⟨linting_eq, caller_eq, requests_eq, answers_eq, calls_eq⟩ := ih (session.absorb effect)
    simp only [List.foldl_cons]
    rw [linting_eq, caller_eq, requests_eq, answers_eq, calls_eq]
    cases effect with
    | ended =>
      simp only [absorb]
      split <;> simp [observed, Effect.observed?, List.filterMap_cons]
    | _ => simp [absorb, observed, Effect.observed?, List.filterMap_cons]

theorem linting_follow (session : Session) (progress : Progress) :
    (session.follow progress).linting = progress.linting :=
  (foldl_absorb { session with linting := progress.linting } progress.effects).1

theorem requests_follow (session : Session) (progress : Progress) :
    (session.follow progress).requests = session.requests :=
  (foldl_absorb { session with linting := progress.linting } progress.effects).2.2.1

theorem caller_follow (session : Session) (progress : Progress) :
    (session.follow progress).caller = session.caller :=
  (foldl_absorb { session with linting := progress.linting } progress.effects).2.1

theorem answers_follow (session : Session) (progress : Progress) :
    (session.follow progress).answers = session.answers :=
  (foldl_absorb { session with linting := progress.linting } progress.effects).2.2.2.1

variable {session : Session} {turn : SessionTurn}

theorem mem_entries_absorb
    {effect : Effect}
    (known : turn ∈ session.schedule.entries)
    (kept : ∀ own, turn = .linting own → effect ≠ .cancel own) :
    turn ∈ (session.absorb effect).schedule.entries := by
  cases effect with
  | soon own =>
    exact (Schedule.entries_soon _ _).mem_iff.mpr (List.mem_cons_of_mem _ known)
  | after seconds own =>
    exact (Schedule.entries_after _ _ _).mem_iff.mpr (List.mem_cons_of_mem _ known)
  | cancel own =>
    have different : turn ≠ .linting own := fun same => kept own same rfl
    exact (Schedule.mem_entries_cancel different).mpr known
  | ended =>
    simp only [absorb]
    split
    · exact (Schedule.entries_soon _ _).mem_iff.mpr (List.mem_cons_of_mem _ known)
    · exact known
  | log record => exact known
  | invoked index record => exact known
  | called label state size => exact known

/-- A turn that is on the schedule, or is put on it, stays there unless it is cancelled. -/
theorem mem_entries_foldl_absorb
    {effects : List Effect}
    (known : turn ∈ session.schedule.entries ∨
      ∃ own, turn = .linting own ∧ ∃ effect ∈ effects, effect.Brings own)
    (kept : ∀ own, turn = .linting own → .cancel own ∉ effects) :
    turn ∈ (effects.foldl absorb session).schedule.entries := by
  induction effects generalizing session with
  | nil => simpa using known
  | cons effect rest ih =>
    rw [List.foldl_cons]
    have later : ∀ own, turn = .linting own → .cancel own ∉ rest := by
      intro own same told
      exact kept own same (List.mem_cons_of_mem _ told)
    refine ih ?_ later
    rcases known with early | ⟨own, same, brought, told, brings⟩
    · refine .inl (mem_entries_absorb early ?_)
      rintro own same rfl
      exact kept own same List.mem_cons_self
    · rcases List.mem_cons.mp told with rfl | told
      · refine .inl ?_
        subst same
        cases brought with
        | soon other =>
          cases brings
          exact (Schedule.entries_soon _ _).mem_iff.mpr List.mem_cons_self
        | after seconds other =>
          cases brings
          exact (Schedule.entries_after _ _ _).mem_iff.mpr List.mem_cons_self
        | _ => exact brings.elim
      · exact .inr ⟨own, same, brought, told, brings⟩

theorem caller_mem_entries_foldl_absorb
    {effects : List Effect}
    (ended : .ended ∈ effects)
    (waiting : session.caller = .waiting) :
    .caller ∈ (effects.foldl absorb session).schedule.entries := by
  induction effects generalizing session with
  | nil => simp at ended
  | cons effect rest ih =>
    rw [List.foldl_cons]
    rcases List.mem_cons.mp ended with rfl | later
    · refine mem_entries_foldl_absorb (.inl ?_) (by simp)
      simp only [absorb, waiting, if_true]
      exact (Schedule.entries_soon _ _).mem_iff.mpr List.mem_cons_self
    · apply ih later
      cases effect with
      | ended => simp [absorb, waiting]
      | _ => exact waiting

end Session

/-- What a turn of a linting leads to: the turn that begins or ends the run is not cancelled, it is
made ready when all members are done, and the end is announced to the caller. -/
structure Punctual (before : Linting) (turn : Turn) (after : Progress) : Prop where
  kept : .cancel .run ∉ after.effects
  scheduled : after.linting.phase = .scheduled → before.phase = .scheduled ∧ turn ≠ .run
  settled : after.linting.phase = .settled →
    before.phase = .settled ∧ turn ≠ .run ∨ .soon .run ∈ after.effects
  ended : before.phase.isAnswered = false → after.linting.phase.isAnswered = true →
    .ended ∈ after.effects

namespace Punctual

variable {linting : Linting}

/-- Invoking a member cancels no run. -/
theorem kept_invoke
    {progress : Progress}
    (index : Nat)
    (now : Rat)
    (kept : .cancel .run ∉ progress.effects) :
    .cancel .run ∉ (progress.invoke index now).1.effects := by
  cases progress.invoked index now with
  | nobody unknown same =>
    rw [same]
    exact kept
  | member member record known same =>
    obtain ⟨extra, extra_eq, -, extraKept, -⟩ := Progress.exists_effects_follow
      (progress.emit (.invoked index record)) index (member.invoke progress.linting.toSetting now).1
    rw [same, extra_eq, List.mem_append, not_or]
    exact ⟨by simpa [Progress.emit] using kept, extraKept⟩

theorem finish
    {progress : Progress}
    (kept : .cancel .run ∉ progress.effects)
    (turn : Turn) :
    Punctual linting turn progress.finish := by
  obtain ⟨extra, extra_eq, -, extraKept⟩ := progress.exists_effects_finish
  have phase_eq := congrArg Linting.phase progress.linting_finish
  refine ⟨?_, ?_, ?_, fun _ _ => ?_⟩
  · simp [extra_eq, kept, extraKept]
  · rw [phase_eq]
    simp
  · rw [phase_eq]
    simp
  · simp [extra_eq]

theorem begin (now : Rat) : Punctual linting .run ((Progress.start linting).begin now) := by
  have kept : .cancel .run ∉ ((Progress.start linting).invokeEvery now).1.effects :=
    @Progress.invokeAll_induction (fun progress => .cancel .run ∉ progress.effects) now
      (fun _ index kept => kept_invoke index now kept) _ List.not_mem_nil _
  cases (Progress.start linting).begun now with
  | stopped failure stops same =>
    rw [same]
    refine ⟨?_, ?_, ?_, fun _ _ => ?_⟩ <;>
      simp [Progress.close, Progress.emit, Progress.modify, kept]
  | waiting goesOn some same =>
    rw [same]
    exact ⟨kept, by simp, by simp, by simp [Phase.isAnswered]⟩
  | finished goesOn none same =>
    rw [same]
    exact finish kept .run

/-- Turns are punctual. -/
theorem take (linting : Linting) (now : Rat) (turn : Turn) :
    Punctual linting turn (linting.take now turn) := by
  cases taken linting now turn with
  | nothing idle nobody same =>
    rw [same]
    refine ⟨List.not_mem_nil, fun scheduled => ⟨scheduled, fun isRun => ?_⟩,
      fun settled => .inl ⟨settled, fun isRun => ?_⟩, fun unanswered answered => ?_⟩
    · exact (idle isRun).1 scheduled
    · exact (idle isRun).2 settled
    · exact absurd (unanswered.symm.trans answered) (by simp)
  | begin isRun scheduled same =>
    rw [same, isRun]
    exact begin now
  | finish isRun settled same =>
    rw [same]
    exact finish List.not_mem_nil turn
  | member index own member isMember known same =>
    have followed := @Progress.followed_follow (.start linting) index member _ known
      (member.conduct_take linting.toSetting now own)
    have phase_eq := followed.phase_eq
    obtain ⟨extra, extra_eq, -, kept, settled⟩ := Progress.exists_effects_follow (.start linting)
      index (member.take linting.toSetting now own)
    rw [← same] at phase_eq extra_eq settled
    refine ⟨by simpa [extra_eq, Progress.start] using kept, fun scheduled => ?_, fun settles => ?_,
      fun unanswered answered => ?_⟩
    · rw [phase_eq] at scheduled
      split at scheduled
      · contradiction
      · exact ⟨scheduled, by simp [isMember]⟩
    · rw [extra_eq]
      refine (settled settles).imp (fun early => ⟨early, by simp [isMember]⟩) fun soon => ?_
      exact List.mem_append_right _ soon
    · rw [phase_eq] at answered
      split at answered
      · contradiction
      · exact absurd (unanswered.symm.trans answered) (by simp)

end Punctual

namespace Session

/-- An answer was given before, or it is the one that has just been given. -/
theorem getElem?_reverse_cons
    {answers : List Answer}
    {last answer : Answer}
    {index : Nat}
    (known : (last :: answers).reverse[index]? = some answer) :
    answers.reverse[index]? = some answer ∨ index = answers.length ∧ answer = last := by
  rw [List.reverse_cons] at known
  rcases Nat.lt_or_ge index answers.length with early | late
  · rw [List.getElem?_append_left (by simpa using early)] at known
    exact .inl known
  · rw [List.getElem?_append_right (by simpa using late), List.length_reverse,
      List.getElem?_singleton] at known
    split at known
    · next first => exact .inr ⟨by omega, (Option.some.inj known).symm⟩
    · contradiction

/-- Something can happen as long as there are turns on the schedule. -/
theorem entries_eq_nil_of_step? {session : Session} (last : session.step? = none) :
    session.schedule.entries = [] :=
  (Schedule.next?_eq_none_iff _).mp (Option.map_eq_none_iff.mp last)

/-- A request is left over only if it is not answered. -/
theorem requests_request
    {session : Session}
    {next : Request}
    {rest : List Request}
    (same : session.requests = next :: rest)
    (free : (session.request next).caller = .free) :
    (session.request next).requests = rest := by
  cases next with
  | subscribe milestone observer =>
    simp [Session.request, Session.answer, requests_follow, same]
  | misdirected word => simp [Session.request, Session.answer, same]
  | start => simp [Session.request, Session.answer, requests_follow, same]
  | wait =>
    simp only [Session.request] at free ⊢
    split
    · simp [Session.answer, same]
    · next unanswered =>
      rw [unanswered] at free
      contradiction
  | advance seconds =>
    simp only [Session.request] at free
    contradiction

/-- A caller who is free has made all requests. -/
theorem requests_makeRequests_of_free
    {session : Session}
    {left : List Request}
    (same : session.requests = left)
    (free : (session.makeRequests left).caller = .free) :
    (session.makeRequests left).requests = [] := by
  induction left generalizing session with
  | nil => exact same
  | cons next rest ih =>
    simp only [Session.makeRequests] at free ⊢
    split at free
    · next goesOn =>
      rw [if_pos goesOn]
      exact ih (requests_request same goesOn) free
    · contradiction

theorem requests_resume_of_free
    {session : Session}
    (free : session.resume.caller = .free) :
    session.resume.requests = [] := by
  simp only [resume] at free ⊢
  split at free
  · next goesOn =>
    rw [if_pos goesOn]
    exact requests_makeRequests_of_free rfl free
  · contradiction

/-- As long as the run is about to begin or to end, there is a turn for it on the schedule. -/
def RunReady (session : Session) : Prop :=
  session.linting.phase = .scheduled ∨ session.linting.phase = .settled →
    .linting .run ∈ session.schedule.entries

/-- A caller who need not wait any longer has a turn on the schedule. -/
structure Attended (session : Session) : Prop where
  runReady : session.RunReady
  free : session.caller = .free → session.requests = [] ∨ .caller ∈ session.schedule.entries
  passing : session.caller = .passing →
    .caller ∈ session.schedule.entries ∨ .wakeCaller ∈ session.schedule.entries
  waiting : session.caller = .waiting → session.linting.phase.isAnswered = true →
    .caller ∈ session.schedule.entries

theorem RunReady.request
    {session : Session}
    (ready : session.RunReady)
    (request : Request) :
    (session.request request).RunReady := by
  cases request with
  | subscribe milestone observer =>
    intro phase
    simp only [Session.request, Session.answer, linting_follow] at phase ⊢
    have same : (session.linting.subscribe milestone observer).1.linting.phase =
        session.linting.phase := by simp [Linting.subscribe]
    rw [same] at phase
    refine mem_entries_foldl_absorb (.inl (ready phase)) ?_
    simp [Linting.subscribe, Progress.effects_called, Progress.start]
  | misdirected word => exact ready
  | start =>
    intro phase
    simp only [Session.request, Session.answer, linting_follow] at phase ⊢
    simp only [Linting.start] at phase ⊢
    split
    · next started =>
      rw [if_pos started] at phase
      exact ready phase
    · refine mem_entries_foldl_absorb (.inr ⟨.run, rfl, .soon .run, ?_, rfl⟩) ?_ <;>
        simp [Progress.effects_called, Progress.emit, Progress.modify, Progress.start]
  | wait =>
    simp only [Session.request]
    split <;> exact ready
  | advance seconds =>
    intro phase
    simp only [Session.request]
    split
    · exact (Schedule.entries_soon _ _).mem_iff.mpr (List.mem_cons_of_mem _ (ready phase))
    · exact (Schedule.entries_after _ _ _).mem_iff.mpr (List.mem_cons_of_mem _ (ready phase))

namespace Attended

variable {session : Session}

theorem new
    {linting : Linting}
    (unstarted : linting.phase = .unstarted)
    (precedence : Precedence SessionTurn)
    (requests : List Request) :
    Attended (.new linting precedence requests) := by
  have ready : (SessionTurn.caller) ∈ (Session.new linting precedence requests).schedule.entries :=
    (Schedule.entries_soon _ _).mem_iff.mpr List.mem_cons_self
  refine ⟨fun phase => ?_, fun _ => .inr ready, fun _ => .inl ready, fun _ _ => ready⟩
  simp [Session.new, unstarted] at phase

/-- A request that is not answered at once leaves the caller attended to. -/
theorem request
    (ready : session.RunReady)
    (request : Request)
    (busy : (session.request request).caller ≠ .free) :
    Attended (session.request request) := by
  refine ⟨ready.request request, fun free => absurd free busy, ?_, ?_⟩
  · intro passing
    cases request with
    | wait =>
      simp only [Session.request] at passing
      split at passing <;> contradiction
    | advance seconds =>
      simp only [Session.request]
      split
      · exact .inl ((Schedule.entries_soon _ _).mem_iff.mpr List.mem_cons_self)
      · exact .inr ((Schedule.entries_after _ _ _).mem_iff.mpr List.mem_cons_self)
    | _ => exact absurd rfl busy
  · intro waiting answered
    cases request with
    | wait =>
      simp only [Session.request] at waiting answered
      split at waiting
      · contradiction
      · next unanswered =>
        rw [unanswered] at answered
        rw [← isSome_answer?, unanswered] at answered
        contradiction
    | advance seconds =>
      simp only [Session.request] at waiting
      contradiction
    | _ => exact absurd rfl busy

theorem makeRequests
    {left : List Request}
    (ready : session.RunReady)
    (free : session.caller = .free)
    (same : session.requests = left) :
    Attended (session.makeRequests left) := by
  induction left generalizing session with
  | nil => exact ⟨ready, fun _ => .inl same, by simp [Session.makeRequests, free],
      by simp [Session.makeRequests, free]⟩
  | cons next rest ih =>
    simp only [Session.makeRequests]
    split
    · next later => exact ih (ready.request next) later (requests_request same later)
    · next busy => exact request ready next busy

/-- Behind catching up, the caller waits only if there is no answer. -/
theorem caller_catchUp (session : Session) :
    session.catchUp.caller = .free ∨
      session.catchUp.caller = .waiting ∧ session.catchUp.linting.phase.isAnswered = false := by
  unfold Session.catchUp
  split
  · next free => exact .inl free
  · exact .inl rfl
  · next waiting =>
    split
    · exact .inl rfl
    · next unanswered =>
      refine .inr ⟨waiting, ?_⟩
      rw [← isSome_answer?, unanswered]
      rfl

/-- Having gone on, the caller is attended to. -/
theorem resume (ready : session.RunReady) : Attended session.resume := by
  have still : session.catchUp.RunReady := by
    unfold Session.catchUp
    split
    · exact ready
    · exact ready
    · split <;> exact ready
  simp only [Session.resume]
  split
  · next free => exact makeRequests still free rfl
  · next busy =>
    obtain ⟨waiting, unanswered⟩ := (caller_catchUp session).resolve_left busy
    refine ⟨still, fun free => absurd free busy, ?_, ?_⟩
    · simp [waiting]
    · simp [unanswered]

/-- Every turn that is taken leaves the caller attended to. -/
theorem step
    {later : Session}
    (attended : Attended session)
    (stepped : session.step? = some later) :
    Attended later := by
  obtain ⟨⟨turn, schedule⟩, next, rfl⟩ := Option.map_eq_some_iff.mp stepped
  have left : ∀ other, other ∈ session.schedule.entries → other ≠ turn → other ∈ schedule.entries := by
    intro other known different
    have moved := (Schedule.entries_next? next).mem_iff.mp known
    exact (List.mem_cons.mp moved).resolve_left different
  cases turn with
  | caller =>
    exact resume fun phase => left _ (attended.runReady phase) (by simp)
  | wakeCaller =>
    have ready : (SessionTurn.caller) ∈ (schedule.soon .caller).entries :=
      (Schedule.entries_soon _ _).mem_iff.mpr List.mem_cons_self
    refine ⟨fun phase => ?_, fun _ => .inr ready, fun _ => .inl ready, fun _ _ => ready⟩
    exact (Schedule.entries_soon _ _).mem_iff.mpr
      (List.mem_cons_of_mem _ (left _ (attended.runReady phase) (by simp)))
  | linting turn =>
    have punctual := Punctual.take session.linting schedule.now turn
    have stays : ∀ other, other ∈ session.schedule.entries → (∀ own, other ≠ .linting own) →
        other ∈ ({ session with schedule := schedule }.take (.linting turn)).schedule.entries := by
      intro other known foreign
      exact mem_entries_foldl_absorb (.inl (left other known (foreign turn)))
        fun own same => absurd same (foreign own)
    refine ⟨?_, ?_, ?_, ?_⟩
    · intro phase
      rw [Session.take, linting_follow] at phase
      have kept : ∀ own, SessionTurn.linting .run = .linting own →
          .cancel own ∉ (session.linting.take schedule.now turn).effects := by
        rintro own ⟨⟩
        exact punctual.kept
      have waits : (session.linting.phase = .scheduled ∨ session.linting.phase = .settled) →
          turn ≠ .run → .linting .run ∈ schedule.entries := by
        intro early different
        refine left _ (attended.runReady early) fun same => different ?_
        cases same
        rfl
      refine mem_entries_foldl_absorb ?_ kept
      rcases phase with scheduled | settled
      · obtain ⟨early, different⟩ := punctual.scheduled scheduled
        exact .inl (waits (.inl early) different)
      · rcases punctual.settled settled with ⟨early, different⟩ | soon
        · exact .inl (waits (.inr early) different)
        · exact .inr ⟨.run, rfl, .soon .run, soon, rfl⟩
    · intro free
      rw [Session.take, caller_follow] at free
      rw [Session.take, requests_follow]
      exact (attended.free free).imp_right fun known => stays _ known (by simp)
    · intro passing
      rw [Session.take, caller_follow] at passing
      exact (attended.passing passing).imp (fun known => stays _ known (by simp))
        fun known => stays _ known (by simp)
    · intro waiting answered
      rw [Session.take, caller_follow] at waiting
      rw [Session.take, linting_follow] at answered
      cases early : session.linting.phase.isAnswered
      · exact caller_mem_entries_foldl_absorb (punctual.ended early answered) waiting
      · exact stays _ (attended.waiting waiting early) (by simp)

/-- When nothing can ever happen again, all requests have been answered, or the caller waits for an
end that has not come. -/
theorem exhausted
    (attended : Attended session)
    (last : session.step? = none) :
    session.requests = [] ∨
      session.caller = .waiting ∧ session.linting.phase.isAnswered = false := by
  have spent := entries_eq_nil_of_step? last
  cases caller : session.caller with
  | free =>
    refine .inl ((attended.free caller).resolve_right ?_)
    simp [spent]
  | passing =>
    have waits := attended.passing caller
    simp [spent] at waits
  | waiting =>
    refine .inr ⟨rfl, ?_⟩
    rw [← Bool.not_eq_true]
    intro answered
    have waits := attended.waiting caller answered
    simp [spent] at waits

end Attended
end Session
end Linting
end MarkupLint
