import MarkupLint.Proofs.Linting.Hosting
import MarkupLint.Proofs.Linting.Isolation

/-!
# Sessions that complete their runs

A session hosts its linting.  So when the run has been started, all instances have ended, and none of
them failed with what nobody handles in what it did at once, the session brings the run to its end.  An
instance that fails so stops the run, which then stays undecided.
-/

namespace MarkupLint
namespace Linting

namespace Session

/-- A session that is reached is reached after a number of turns. -/
theorem exists_goOn_of_reaches
    {session last : Session}
    (path : Relation.ReflTransGen (fun before after : Session => before.step? = some after)
      session last) :
    ∃ turns, last = session.goOn turns := by
  induction path using Relation.ReflTransGen.head_induction_on with
  | refl => exact ⟨0, rfl⟩
  | head stepped path ih =>
    obtain ⟨turns, rfl⟩ := ih
    exact ⟨turns + 1, by simp only [goOn, stepped]⟩

/-- Effects make turns ready behind those that are. -/
theorem ready_absorb (session : Session) (effect : Effect) :
    session.schedule.ready <+: (session.absorb effect).schedule.ready := by
  cases effect with
  | soon turn =>
    simp only [absorb, Schedule.ready_soon]
    exact List.prefix_append _ _
  | ended =>
    simp only [absorb]
    split
    · simp only [Schedule.ready_soon]
      exact List.prefix_append _ _
    · exact List.prefix_rfl
  | _ => exact List.prefix_rfl

theorem ready_foldl_absorb (session : Session) (effects : List Effect) :
    session.schedule.ready <+: (effects.foldl absorb session).schedule.ready := by
  induction effects generalizing session with
  | nil => exact List.prefix_rfl
  | cons effect rest ih => exact (session.ready_absorb effect).trans (ih _)

theorem ready_follow (session : Session) (progress : Progress) :
    session.schedule.ready <+: (session.follow progress).schedule.ready :=
  ready_foldl_absorb { session with linting := progress.linting } progress.effects

/-- What a turn makes ready is ready when the session has followed it. -/
theorem mem_ready_follow
    {progress : Progress}
    {turn : Turn}
    (known : .soon turn ∈ progress.effects)
    (session : Session) :
    .linting turn ∈ (session.follow progress).schedule.ready := by
  obtain ⟨before, behind, same⟩ := List.append_of_mem known
  rw [follow, same, List.foldl_append, List.foldl_cons]
  apply (ready_foldl_absorb _ behind).mem
  simp [absorb]

/-- What requests do: they let the linting alone but for its audience, and start it if it has not
been started. -/
structure Requested (before after : Session) : Prop where
  same : after.linting =
    { before.linting with phase := after.linting.phase, audience := after.linting.audience }
  phase : after.linting.phase = before.linting.phase ∨
    before.linting.phase = .unstarted ∧ after.linting.phase = .scheduled ∧
      .linting .run ∈ after.schedule.ready
  ready : before.schedule.ready <+: after.schedule.ready

namespace Requested

theorem refl (session : Session) : Requested session session := ⟨rfl, .inl rfl, List.prefix_rfl⟩

theorem trans
    {first second third : Session}
    (early : Requested first second)
    (late : Requested second third) :
    Requested first third where
  same := by
    rw [late.same, early.same]
  phase := by
    rcases late.phase with same | ⟨unstarted, scheduled, ready⟩
    · rw [same]
      exact early.phase.imp_right fun ⟨unstarted, scheduled, ready⟩ =>
        ⟨unstarted, scheduled, late.ready.mem ready⟩
    · rcases early.phase with same | ⟨-, scheduled, -⟩
      · exact .inr ⟨same ▸ unstarted, scheduled, ready⟩
      · rw [scheduled] at unstarted
        contradiction
  ready := early.ready.trans late.ready

theorem answer (session : Session) (reply : Reply) : Requested session (session.answer reply) :=
  ⟨rfl, .inl rfl, List.prefix_rfl⟩

theorem request (session : Session) (request : Request) :
    Requested session (session.request request) := by
  cases request with
  | subscribe milestone observer =>
    have followed : Requested session
        (session.follow (session.linting.subscribe milestone observer).1) := by
      refine ⟨?_, .inl ?_, ready_follow _ _⟩ <;> simp [linting_follow, Linting.subscribe]
    exact followed.trans (answer _ _)
  | misdirected word => exact answer _ _
  | start =>
    have followed : Requested session (session.follow session.linting.start.1) := by
      refine ⟨?_, ?_, ready_follow _ _⟩
      · simp only [linting_follow, Linting.start]
        split
        · rfl
        · simp
      · rw [linting_follow, phase_start, schedule_start]
        split
        · next unstarted => exact .inr ⟨unstarted, rfl, by simp⟩
        · exact .inl rfl
    exact followed.trans (answer _ _)
  | wait =>
    simp only [Session.request]
    split
    · exact answer _ _
    · exact ⟨rfl, .inl rfl, List.prefix_rfl⟩
  | advance seconds =>
    refine ⟨rfl, .inl rfl, ?_⟩
    simp only [Session.request]
    split
    · rw [Schedule.ready_soon]
      exact List.prefix_append _ _
    · exact List.prefix_rfl

theorem makeRequests (session : Session) (requests : List Request) :
    Requested session (session.makeRequests requests) := by
  induction requests generalizing session with
  | nil => exact refl session
  | cons next rest ih =>
    simp only [Session.makeRequests]
    split
    · exact (request session next).trans (ih _)
    · exact request session next

theorem resume (session : Session) : Requested session session.resume := by
  have caught : Requested session session.catchUp := by
    unfold catchUp
    split
    · exact refl session
    · exact answer _ _
    · split
      · exact answer _ _
      · exact refl session
  simp only [Session.resume]
  split
  · exact caught.trans (makeRequests _ _)
  · exact caught

/-- A linting that has been started is let alone but for its audience. -/
theorem linting_eq
    {before after : Session}
    (requested : Requested before after)
    (started : before.linting.isStarted = true) :
    after.linting = { before.linting with audience := after.linting.audience } := by
  have phase_eq : after.linting.phase = before.linting.phase := by
    refine requested.phase.resolve_right fun ⟨unstarted, _⟩ => ?_
    simp [isStarted, unstarted] at started
  refine requested.same.trans ?_
  rw [phase_eq]

end Requested

/-- In each turn, turns become ready behind those that are. -/
theorem ready_take (session : Session) (turn : SessionTurn) :
    session.schedule.ready <+: (session.take turn).schedule.ready := by
  cases turn with
  | linting turn => exact ready_follow session _
  | caller => exact (Requested.resume session).ready
  | wakeCaller =>
    simp only [Session.take, Schedule.ready_soon]
    exact List.prefix_append _ _

/-- Turns take no time. -/
theorem now_take (session : Session) (turn : SessionTurn) :
    (session.take turn).schedule.now = session.schedule.now := by
  cases turn with
  | linting turn => exact now_follow session _
  | caller =>
    exact @schedule_resume session (·.now = session.schedule.now)
      ⟨fun _ _ _ same => same, fun _ _ _ _ same => same, fun _ _ _ same => same⟩ rfl
  | wakeCaller => rfl

/-- No time passes as long as a turn is ready. -/
theorem now_step
    {session later : Session}
    (stepped : session.step? = some later)
    (ready : session.schedule.ready ≠ []) :
    later.schedule.now = session.schedule.now := by
  obtain ⟨⟨turn, schedule⟩, next, rfl⟩ := Option.map_eq_some_iff.mp stepped
  rw [now_take]
  exact Schedule.now_next? next ready

/-- A turn that is ready is taken after some others. -/
theorem exists_next?_of_mem_ready
    {session : Session}
    {turn : SessionTurn}
    (known : turn ∈ session.schedule.ready) :
    ∃ turns schedule, (session.goOn turns).schedule.next? = some (turn, schedule) := by
  by_contra never
  push Not at never
  refine (@Schedule.exists_of_mem_ready SessionTurn Session
    (fun before after => before.step? = some after) Session.schedule
    (fun later => ∃ turns, later = session.goOn turns) (fun _ => False) turn ?_ session ⟨0, rfl⟩
    known).elim fun _ impossible => impossible.2
  rintro _ first rest ⟨turns, rfl⟩ next
  have stepped : (session.goOn turns).step? =
      some (({ session.goOn turns with schedule := rest } : Session).take first) := by
    rw [Session.step?, next, Option.map_some]
  refine ⟨_, stepped, .inr ⟨⟨turns + 1, ?_⟩, ?_, ?_⟩⟩
  · rw [goOn_succ, stepped, Option.getD_some]
  · rintro rfl
    exact never turns rest next
  · exact ready_take { session.goOn turns with schedule := rest } first

/-- What a member that is invoked keeps in each of its turns, it keeps. -/
theorem present_goOn
    {session : Session}
    {index : Nat}
    {property : Member → Prop}
    (keeps : ∀ setting now turn member, property member →
      property (member.take setting now turn).member)
    (present : Hosts.Present session.linting index property)
    (turns : Nat) :
    Hosts.Present (session.goOn turns).linting index property := by
  refine @goOn_induction (fun session => Hosts.Present session.linting index property) ?_ session
    present turns
  intro session later present stepped
  refine @linting_step session (Hosts.Present · index property) later ?_ ?_ ?_ stepped present
  · rintro linting ⟨begun, held⟩
    simp only [Linting.start]
    split
    · exact ⟨begun, held⟩
    · next unstarted =>
      have early : linting.phase = .unstarted := by simpa [isStarted] using unstarted
      rw [early] at begun
      contradiction
  · intro linting milestone observer present
    simpa [Linting.subscribe, Hosts.Present] using present
  · rintro linting now turn ⟨begun, member, known, holds⟩
    obtain ⟨after, found, acts⟩ := exists_member_take begun known now turn
    refine ⟨isEarly_take begun now turn, after, found, ?_⟩
    rcases acts with ⟨own, -, rfl⟩ | ⟨-, rfl⟩
    · exact keeps _ _ _ _ holds
    · exact holds

/-- A session in which the turns that the linting needs are ready. -/
structure Attentive (session : Session) : Prop where
  balanced : Balanced session.linting
  tended : session.linting.Tended fun turn => .linting turn ∈ session.schedule.ready

namespace Attentive

variable {session later : Session}

theorem requested
    (attentive : session.Attentive)
    (balanced : Balanced later.linting)
    (requested : Requested session later) :
    later.Attentive where
  balanced := balanced
  tended := by
    have members_eq : later.linting.members = session.linting.members := by rw [requested.same]
    refine ⟨fun due => ?_, fun index member known => ?_⟩
    · rcases requested.phase with same | ⟨-, -, ready⟩
      · exact requested.ready.mem (attentive.tended.run (same ▸ due))
      · exact ready
    · rw [members_eq] at known
      exact (attentive.tended.member index member known).mono fun _ ready => requested.ready.mem ready

/-- When a turn has been taken off the schedule, the linting misses no other turn. -/
theorem took
    {schedule : Schedule SessionTurn}
    {turn : Turn}
    (attentive : session.Attentive)
    (next : session.schedule.next? = some (.linting turn, schedule)) :
    (({ session with schedule := schedule } : Session).take (.linting turn)).Attentive where
  balanced := by
    rw [Session.take, linting_follow]
    exact attentive.balanced.take _ _
  tended := by
    rw [Session.take, linting_follow]
    refine (attentive.tended.take attentive.balanced schedule.now turn).mono fun other needed => ?_
    rcases needed with ⟨different, ready⟩ | soon
    · refine (ready_follow { session with schedule := schedule } _).mem
        (Schedule.mem_ready_next? next ready ?_)
      simpa using different
    · exact mem_ready_follow soon _

theorem foreign
    {schedule : Schedule SessionTurn}
    {first : SessionTurn}
    (attentive : session.Attentive)
    (next : session.schedule.next? = some (first, schedule))
    (foreign : ∀ turn, first ≠ .linting turn) :
    ({ session with schedule := schedule } : Session).Attentive where
  balanced := attentive.balanced
  tended := attentive.tended.mono fun turn ready =>
    Schedule.mem_ready_next? next ready (foreign turn).symm

theorem step
    (attentive : session.Attentive)
    (stepped : session.step? = some later) :
    later.Attentive := by
  have balanced : Balanced later.linting := linting_step (fun _ balanced => balanced.start)
    (fun _ milestone observer balanced => balanced.subscribe milestone observer)
    (fun _ now turn balanced => balanced.take now turn) stepped attentive.balanced
  obtain ⟨⟨turn, schedule⟩, next, rfl⟩ := Option.map_eq_some_iff.mp stepped
  cases turn with
  | linting turn => exact attentive.took next
  | caller =>
    exact (attentive.foreign next (by simp)).requested balanced (.resume _)
  | wakeCaller =>
    exact (attentive.foreign next (by simp)).requested balanced
      ⟨rfl, .inl rfl, ready_take { session with schedule := schedule } .wakeCaller⟩

theorem goOn (attentive : session.Attentive) (turns : Nat) : (session.goOn turns).Attentive :=
  goOn_induction (fun _ _ attentive stepped => attentive.step stepped) attentive turns

/-- A member that has been touched has been invoked. -/
theorem present
    {index : Nat}
    {member : Member}
    {property : Member → Prop}
    (attentive : session.Attentive)
    (known : session.linting.members[index]? = some member)
    (touched : ¬member.Untouched)
    (holds : property member) :
    Hosts.Present session.linting index property := by
  refine ⟨?_, member, known, holds⟩
  by_contra early
  exact touched (attentive.balanced.untouched (by simpa using early) member
    (List.mem_of_getElem? known))

/-- A new session is attentive. -/
theorem new
    (document : Document)
    (rules : RuleSet)
    (timeout? : Option Binary64)
    (precision : Precision)
    (precedence : Precedence SessionTurn)
    (requests : List Request) :
    (Session.new (.new document rules timeout? precision) precedence requests).Attentive where
  balanced := Balanced.new document rules timeout? precision
  tended := .of_unstarted (Balanced.new document rules timeout? precision) rfl

theorem isStarted_step
    (attentive : session.Attentive)
    (stepped : session.step? = some later)
    (started : session.linting.isStarted = true) :
    later.linting.isStarted = true := by
  obtain ⟨⟨turn, schedule⟩, next, rfl⟩ := Option.map_eq_some_iff.mp stepped
  cases turn with
  | linting turn =>
    rw [Session.take, linting_follow, isStarted_take attentive.balanced]
    exact started
  | caller =>
    have requested := Requested.resume { session with schedule := schedule }
    rw [Session.take, requested.linting_eq started]
    exact started
  | wakeCaller => exact started

/-- Attentive sessions host their lintings. -/
theorem hosts :
    Hosts (fun session later : Session => session.step? = some later) Session.schedule
      Session.linting SessionTurn.linting
      fun session => session.Attentive ∧ session.linting.isStarted = true where
  injective _ _ same := SessionTurn.linting.inj same
  balanced _ valid := valid.1.balanced
  started _ valid := valid.2
  tended _ valid := valid.1.tended
  step := by
    rintro session first rest ⟨attentive, started⟩ next
    have stepped : session.step? = some ({ session with schedule := rest }.take first) := by
      rw [Session.step?, next, Option.map_some]
    refine ⟨_, stepped, ⟨attentive.step stepped, ?_⟩, ?_, ?_⟩
    · exact attentive.isStarted_step stepped started
    · exact ready_take { session with schedule := rest } first
    · cases first with
      | linting turn => exact .took turn rfl (linting_follow _ _)
      | caller =>
        have requested := Requested.resume { session with schedule := rest }
        exact .rested (by simp) _ (requested.linting_eq started)
      | wakeCaller => exact .rested (by simp) _ rfl

end Attentive

/-- Requests do not stop a run. -/
theorem Requested.unstopped
    {before after : Session}
    (requested : Requested before after)
    (unstopped : before.linting.Unstopped) :
    after.linting.Unstopped := by
  obtain ⟨goesThrough, decided⟩ := unstopped
  have early : after.linting.phase.isEarly = before.linting.phase.isEarly := by
    rcases requested.phase with same | ⟨unstarted, scheduled, -⟩
    · rw [same]
    · rw [unstarted, scheduled]
      rfl
  have members_eq : after.linting.members = before.linting.members := by rw [requested.same]
  have setting_eq : after.linting.toSetting = before.linting.toSetting := by rw [requested.same]
  refine ⟨fun still now => ?_, fun begun => ?_⟩
  · rw [goesThrough_congr setting_eq members_eq]
    exact goesThrough (early ▸ still) now
  · have underway := decided (early ▸ begun)
    rcases requested.phase with same | ⟨unstarted, -, -⟩
    · exact ⟨same ▸ underway.begun, same ▸ underway.invoked, same ▸ underway.stopped⟩
    · have begun := underway.begun
      rw [unstarted] at begun
      contradiction

/-- A session that brings its run to its end: nothing stops the run, and the turns that it needs are
ready. -/
structure Diligent (session : Session) : Prop extends Attentive session where
  unstopped : session.linting.Unstopped

namespace Diligent

variable {session later : Session}

theorem step
    (diligent : session.Diligent)
    (stepped : session.step? = some later) :
    later.Diligent where
  toAttentive := diligent.toAttentive.step stepped
  unstopped := by
    obtain ⟨⟨turn, schedule⟩, next, rfl⟩ := Option.map_eq_some_iff.mp stepped
    cases turn with
    | linting turn =>
      rw [Session.take, linting_follow]
      exact diligent.unstopped.take diligent.balanced _ _
    | caller =>
      exact (Requested.resume { session with schedule := schedule }).unstopped diligent.unstopped
    | wakeCaller => exact diligent.unstopped

theorem goOn (diligent : session.Diligent) (turns : Nat) : (session.goOn turns).Diligent :=
  goOn_induction (fun _ _ diligent stepped => diligent.step stepped) diligent turns

/-- A new session is diligent unless what an instance does at once ends with a failure that nobody
handles. -/
theorem new
    {document : Document}
    {rules : RuleSet}
    {timeout? : Option Binary64}
    {precision : Precision}
    {precedence : Precedence SessionTurn}
    (contained : rules.IsContained document)
    (requests : List Request) :
    (Session.new (.new document rules timeout? precision) precedence requests).Diligent where
  toAttentive := .new document rules timeout? precision precedence requests
  unstopped := by
    refine ⟨fun _ now => goesThrough_new.mpr contained, fun begun => ?_⟩
    contradiction

/-- A diligent session whose members have all ended reaches the end of its run. -/
theorem exists_isClosed
    (diligent : session.Diligent)
    (started : session.linting.isStarted = true)
    (ended : session.linting.AllEnded) :
    ∃ more, (session.goOn more).linting.isStarted = true ∧
      (session.goOn more).linting.phase.isClosed = true := by
  obtain ⟨last, path, ⟨-, still⟩, closed⟩ :=
    Attentive.hosts.exists_isClosed ⟨diligent.toAttentive, started⟩ diligent.unstopped ended
  obtain ⟨more, rfl⟩ := exists_goOn_of_reaches path
  exact ⟨more, still, closed⟩

end Diligent

/-- After a number of turns, a session has completed its run: all instances have been invoked, each
once and in order, the state is final, and the end has been announced. -/
structure Completes (rules : RuleSet) (session : Session) (turns : Nat) : Prop where
  invoked : InvokedFirst rules (session.acts turns)
  terminal : (session.goOn turns).linting.state.isTerminal = true
  announced : (session.goOn turns).linting.audience.hasReached .done = true

end Session

section

variable {document : Document} {rules : RuleSet} {timeout? : Option Binary64} {precision : Precision}
  {precedence : Precedence SessionTurn}
  {requests : List Request} {turns : Nat}

/-- An instance that fails with what nobody handles in what it does at once stops the run, which then is
never decided: the failure passes by what reports the failures of instances. -/
theorem running_of_escape
    (distinct : rules.keys.Nodup)
    (uncontained : ¬rules.IsContained document)
    (requests : List Request)
    (turns : Nat) :
    ((Session.new (.new document rules timeout? precision) precedence requests).goOn turns).linting.state =
      .running := by
  have unbegun := @Session.Unbegun.new document rules timeout? precision precedence distinct requests
  have orderly := unbegun.toOrderly.goOn turns
  have unclosed : ((Session.new (.new document rules timeout? precision) precedence requests).goOn
      turns).linting.phase.isClosed = false := by
    cases early : ((Session.new (.new document rules timeout? precision) precedence requests).goOn
        turns).linting.phase.isEarly with
    | true =>
      generalize ((Session.new (.new document rules timeout? precision) precedence requests).goOn
        turns).linting.phase = phase at early
      cases phase <;> trivial
    | false =>
      obtain ⟨first, schedule, left, earlyUnbegun, begins, same⟩ := unbegun.exists_earlier early
      have underway := earlyUnbegun.underway begins left
      have stopped : (first.goOn (left + 1)).linting.phase.isStopped = true := by
        rw [underway.decided.stopped, Bool.not_eq_true', ← Bool.not_eq_true, goesThrough_new]
        exact uncontained
      rw [same]
      generalize (first.goOn (left + 1)).linting.phase = phase at stopped
      cases phase with
      | ended outcome => cases outcome <;> trivial
      | _ => contradiction
  have terminal := orderly.balanced.isTerminal_eq
  rw [unclosed] at terminal
  simpa [LintState.isTerminal] using terminal

end

end Linting
end MarkupLint
