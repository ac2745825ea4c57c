import MarkupLint.Proofs.Linting.Ending
import MarkupLint.Proofs.Linting.Tending
import MarkupLint.Proofs.Schedule.Entries

/-!
# Runs that come to their end

A machine hosts a linting when the turns of the linting are on the schedule of the machine, beside
others that let the linting alone.  When all members of the linting have ended, and none of them
stops the run, the machine brings the run to its end after finitely many steps.
-/

namespace MarkupLint
namespace Linting

/-- No member stops the run: it is to go on behind all of them, or it has gone on. -/
structure Unstopped (linting : Linting) : Prop where
  goesThrough : linting.phase.isEarly = true → ∀ now, linting.goesThrough now = true
  decided : linting.phase.isEarly = false → Decided linting true

theorem goesThrough_congr
    {first second : Linting}
    (setting_eq : first.toSetting = second.toSetting)
    (members_eq : first.members = second.members)
    (now : Rat) :
    first.goesThrough now = second.goesThrough now := by
  have each : first.goesOn now = second.goesOn now := by
    funext index
    rw [Bool.eq_iff_iff, goesOn_iff, goesOn_iff, members_eq, setting_eq]
  rw [goesThrough, goesThrough, each, members_eq]

/-- What a turn makes of a member that is invoked already: in its own turn, it goes on. -/
theorem exists_member_take
    {linting : Linting}
    {index : Nat}
    {member : Member}
    (begun : linting.phase.isEarly = false)
    (known : linting.members[index]? = some member)
    (now : Rat)
    (turn : Turn) :
    ∃ after, (linting.take now turn).linting.members[index]? = some after ∧
      ((∃ own, turn = .member index own ∧
          after = (member.take linting.toSetting now own).member) ∨
        (∀ own, turn ≠ .member index own) ∧ after = member) := by
  cases taken linting now turn with
  | nothing idle nobody same =>
    rw [same]
    refine ⟨member, known, .inr ⟨?_, rfl⟩⟩
    rintro own rfl
    rw [nobody index own rfl] at known
    contradiction
  | begin isRun scheduled same =>
    rw [scheduled] at begun
    contradiction
  | finish isRun settled same =>
    rw [same, Progress.linting_finish]
    exact ⟨member, known, .inr ⟨by simp [isRun], rfl⟩⟩
  | member other own actor isMember found same =>
    have followed := @Progress.followed_follow (.start linting) other actor _ found
      (actor.conduct_take linting.toSetting now own)
    obtain ⟨bound, -⟩ := List.getElem?_eq_some_iff.mp found
    rw [same, followed.members_eq, List.getElem?_set, Progress.linting_start, isMember, if_pos bound]
    split
    · next here =>
      subst here
      rw [known] at found
      cases found
      exact ⟨_, rfl, .inl ⟨own, rfl, rfl⟩⟩
    · next elsewhere => exact ⟨member, known, .inr ⟨by simp [elsewhere], rfl⟩⟩

theorem length_members_take (linting : Linting) (now : Rat) (turn : Turn) :
    (linting.take now turn).linting.members.length = linting.members.length := by
  have same := congrArg List.length (keys_take linting now turn)
  rwa [keys, keys, List.length_map, List.length_map] at same

/-- As long as the run has not begun, only the turn in which it begins changes anything. -/
theorem linting_take_of_isEarly
    {linting : Linting}
    (balanced : Balanced linting)
    (early : linting.phase.isEarly = true)
    (now : Rat)
    (turn : Turn) :
    linting.phase = .scheduled ∧ turn = .run ∧
        linting.take now turn = (Progress.start linting).begin now ∨
      (linting.take now turn).linting = linting := by
  cases taken linting now turn with
  | nothing idle nobody same =>
    rw [same]
    exact .inr rfl
  | begin isRun scheduled same => exact .inl ⟨scheduled, isRun, same⟩
  | finish isRun settled same =>
    rw [settled] at early
    contradiction
  | member index own member isMember known same =>
    have untouched := balanced.untouched early member (List.mem_of_getElem? known)
    have kept : linting.members.set index member = linting.members := by
      obtain ⟨bound, rfl⟩ := List.getElem?_eq_some_iff.mp known
      exact List.set_getElem_self bound
    rw [same, untouched.take]
    refine .inr ?_
    change { linting with members := linting.members.set index member } = linting
    rw [kept]

/-- All members have ended. -/
def AllEnded (linting : Linting) : Prop := ∀ member ∈ linting.members, member.HasEnded

instance (linting : Linting) : Decidable linting.AllEnded :=
  inferInstanceAs (Decidable (∀ member ∈ linting.members, member.HasEnded))

/-- Members that have not been invoked have not ended, so there are none. -/
theorem AllEnded.members_eq_nil
    {linting : Linting}
    (ended : linting.AllEnded)
    (balanced : Balanced linting)
    (early : linting.phase.isEarly = true) :
    linting.members = [] := by
  apply List.eq_nil_iff_forall_not_mem.mpr
  intro member known
  exact (ended member known).touched (balanced.untouched early member known)

theorem AllEnded.take
    {linting : Linting}
    (ended : linting.AllEnded)
    (balanced : Balanced linting)
    (now : Rat)
    (turn : Turn) :
    (linting.take now turn).linting.AllEnded := by
  intro member known
  obtain ⟨index, found⟩ := List.mem_iff_getElem?.mp known
  cases early : linting.phase.isEarly with
  | true =>
    have length_eq := length_members_take linting now turn
    rw [ended.members_eq_nil balanced early, List.length_nil, List.length_eq_zero_iff] at length_eq
    simp [length_eq] at known
  | false =>
    have length_eq := length_members_take linting now turn
    obtain ⟨bound, -⟩ := List.getElem?_eq_some_iff.mp found
    have before := List.getElem?_eq_getElem (length_eq ▸ bound)
    obtain ⟨after, same, acts⟩ := exists_member_take early before now turn
    rw [found] at same
    cases same
    rcases acts with ⟨own, -, rfl⟩ | ⟨-, rfl⟩
    · exact (ended _ (List.mem_of_getElem? before)).take _ _ _
    · exact ended _ (List.mem_of_getElem? before)

theorem Unstopped.take
    {linting : Linting}
    (unstopped : linting.Unstopped)
    (balanced : Balanced linting)
    (now : Rat)
    (turn : Turn) :
    (linting.take now turn).linting.Unstopped := by
  cases early : linting.phase.isEarly with
  | true =>
    rcases linting_take_of_isEarly balanced early now turn with ⟨scheduled, -, same⟩ | same
    · have decided := decided_begin balanced scheduled now
      rw [unstopped.goesThrough early now] at decided
      rw [same]
      refine ⟨fun still => ?_, fun _ => decided⟩
      rw [isEarly_begin] at still
      contradiction
    · rw [same]
      exact unstopped
  | false =>
    have begun := isEarly_take early now turn
    refine ⟨fun still => ?_, fun _ => (unstopped.decided early).take now turn⟩
    rw [begun] at still
    contradiction

/-- The audience does not stop a run. -/
theorem Unstopped.withAudience
    {linting : Linting}
    (unstopped : linting.Unstopped)
    (audience : Audience) :
    Unstopped { linting with audience := audience } where
  goesThrough early now :=
    (@goesThrough_congr { linting with audience := audience } linting rfl rfl now).trans
      (unstopped.goesThrough early now)
  decided begun := by
    have underway := unstopped.decided begun
    exact ⟨underway.begun, underway.invoked, underway.stopped⟩

/-- What a linting has come to. -/
structure Verdict where
  name : String
  state : LintState
  diagnostics : Collection
deriving DecidableEq, Repr, Inhabited

/-- What the linting has come to so far. -/
def verdict (linting : Linting) : Verdict := ⟨linting.name, linting.state, linting.diagnostics⟩

/-- What a linting has come to at its end never changes. -/
theorem Balanced.verdict_take
    {linting : Linting}
    (balanced : Balanced linting)
    (closed : linting.phase.isClosed = true)
    (now : Rat)
    (turn : Turn) :
    (linting.take now turn).linting.verdict = linting.verdict := by
  obtain ⟨state_eq, diagnostics_eq, -⟩ := balanced.same_of_isClosed closed (.take now turn)
  have name_eq := congrArg Setting.name (setting_take linting now turn)
  exact (Verdict.mk.injEq ..).mpr ⟨name_eq, state_eq, diagnostics_eq⟩

/-- What a step of a machine does with the linting: the linting takes a turn, or is let alone but for
its audience. -/
inductive Served (embed : Turn → Own) (first : Own) (now : Rat) (before after : Linting) : Prop where
  | took
      (turn : Turn)
      (isTurn : first = embed turn)
      (same : after = (before.take now turn).linting)
  | rested
      (foreign : ∀ turn, first ≠ embed turn)
      (audience : Audience)
      (same : after = { before with audience := audience })

/-- A machine hosts a linting that has been started: the turns that the linting needs are ready on the
schedule of the machine, and a step takes one of the turns that are ready. -/
structure Hosts
    {State Own : Type}
    (Step : State → State → Prop)
    (schedule : State → Schedule Own)
    (linting : State → Linting)
    (embed : Turn → Own)
    (valid : State → Prop) : Prop where
  injective : Function.Injective embed
  balanced : ∀ state, valid state → Balanced (linting state)
  started : ∀ state, valid state → (linting state).isStarted = true
  tended : ∀ state, valid state →
    (linting state).Tended fun turn => embed turn ∈ (schedule state).ready
  step : ∀ state first rest, valid state → (schedule state).next? = some (first, rest) →
    ∃ later, Step state later ∧ valid later ∧ rest.ready <+: (schedule later).ready ∧
      Served embed first rest.now (linting state) (linting later)

namespace Hosts

variable {State Own : Type} {Step : State → State → Prop} {schedule : State → Schedule Own}
  {linting : State → Linting} {embed : Turn → Own} {valid : State → Prop} {state : State}

/-- What turns keep of a linting holds while a machine hosts it. -/
theorem and
    (hosts : Hosts Step schedule linting embed valid)
    {property : Linting → Prop}
    (take : ∀ linting now turn, Balanced linting → property linting →
      property (linting.take now turn).linting)
    (congr : ∀ (linting : Linting) (audience : Audience), property linting →
      property { linting with audience := audience }) :
    Hosts Step schedule linting embed fun state => valid state ∧ property (linting state) where
  injective := hosts.injective
  balanced state holds := hosts.balanced state holds.1
  started state holds := hosts.started state holds.1
  tended state holds := hosts.tended state holds.1
  step state first rest holds next := by
    obtain ⟨later, stepped, kept, left, served⟩ := hosts.step state first rest holds.1 next
    refine ⟨later, stepped, ⟨kept, ?_⟩, left, served⟩
    cases served with
    | took turn isTurn same =>
      rw [same]
      exact take _ _ _ (hosts.balanced state holds.1) holds.2
    | rested foreign audience same =>
      rw [same]
      exact congr _ audience holds.2

/-- A turn of the linting that is ready comes: what holds until the linting takes it, and brings
something about when it does, does so after finitely many steps. -/
theorem exists_of_ready
    (hosts : Hosts Step schedule linting embed valid)
    {before after : Linting → Prop}
    {turn : Turn}
    (take : ∀ linting now next, Balanced linting → before linting →
      if next = turn then after (linting.take now next).linting
      else before (linting.take now next).linting ∨ after (linting.take now next).linting)
    (congr : ∀ (linting : Linting) (audience : Audience), before linting →
      before { linting with audience := audience })
    (holds : valid state)
    (begins : before (linting state))
    (ready : embed turn ∈ (schedule state).ready) :
    ∃ later, Relation.ReflTransGen Step state later ∧ valid later ∧ after (linting later) := by
  refine @Schedule.exists_of_mem_ready Own State Step schedule
    (fun state => valid state ∧ before (linting state))
    (fun state => valid state ∧ after (linting state)) (embed turn) ?_ state ⟨holds, begins⟩ ready
  rintro state first rest ⟨held, during⟩ next
  obtain ⟨later, stepped, kept, left, served⟩ := hosts.step state first rest held next
  refine ⟨later, stepped, ?_⟩
  cases served with
  | took own isTurn same =>
    have taken := take (linting state) rest.now own (hosts.balanced state held) during
    rw [← same] at taken
    by_cases here : own = turn
    · rw [if_pos here] at taken
      exact .inl ⟨kept, taken⟩
    · rw [if_neg here] at taken
      rcases taken with still | done
      · refine .inr ⟨⟨kept, still⟩, ?_, left⟩
        rw [isTurn]
        exact fun equal => here (hosts.injective equal)
      · exact .inl ⟨kept, done⟩
  | rested foreign audience same =>
    refine .inr ⟨⟨kept, ?_⟩, foreign turn, left⟩
    rw [same]
    exact congr _ audience during

/-- A run that has been started begins. -/
theorem exists_begun
    (hosts : Hosts Step schedule linting embed valid)
    (holds : valid state) :
    ∃ later, Relation.ReflTransGen Step state later ∧ valid later ∧
      (linting later).phase.isEarly = false := by
  cases phase : (linting state).phase with
  | unstarted =>
    have started := hosts.started state holds
    simp [isStarted, phase] at started
  | scheduled =>
    refine @exists_of_ready State Own Step schedule linting embed valid state hosts
      (fun linting => linting.phase = .scheduled) (fun linting => linting.phase.isEarly = false)
      .run ?_ (fun _ _ scheduled => scheduled) holds phase ((hosts.tended state holds).run (.inl phase))
    intro linting now next balanced scheduled
    have early : linting.phase.isEarly = true := by rw [scheduled]; rfl
    have happens := linting_take_of_isEarly balanced early now next
    split
    · next isRun =>
      subst isRun
      simp only [Linting.take, Progress.take, Progress.linting_start, scheduled]
      exact isEarly_begin _ _
    · next other =>
      rcases happens with ⟨-, isRun, -⟩ | same
      · exact absurd isRun other
      · rw [same]
        exact .inl scheduled
  | _ =>
    refine ⟨state, .refl, holds, ?_⟩
    rw [phase]
    rfl

/-- The member with an index, in a run that has begun. -/
def Present (linting : Linting) (index : Nat) (property : Member → Prop) : Prop :=
  linting.phase.isEarly = false ∧ ∃ member, linting.members[index]? = some member ∧ property member

/-- What all turns of a member but one keep of it, and that one brings about, comes about. -/
theorem exists_present
    (hosts : Hosts Step schedule linting embed valid)
    {before after : Member → Prop}
    {index : Nat}
    {own : Member.Turn}
    (take : ∀ setting now next member, before member →
      if next = own then after (member.take setting now next).member
      else before (member.take setting now next).member ∨
        after (member.take setting now next).member)
    (holds : valid state)
    (present : Present (linting state) index before)
    (ready : embed (.member index own) ∈ (schedule state).ready) :
    ∃ later, Relation.ReflTransGen Step state later ∧ valid later ∧
      Present (linting later) index after := by
  refine @exists_of_ready State Own Step schedule linting embed valid state hosts
    (Present · index before) (Present · index after) (.member index own) ?_
    (fun _ _ present => present) holds present ready
  rintro linting now next balanced ⟨begun, member, known, held⟩
  have goesOn := isEarly_take begun now next
  obtain ⟨later, found, acts⟩ := exists_member_take begun known now next
  rcases acts with ⟨turn, rfl, rfl⟩ | ⟨foreign, rfl⟩
  · have taken := take linting.toSetting now turn member held
    simp only [Turn.member.injEq, true_and]
    split at taken
    · next here =>
      rw [if_pos here]
      exact ⟨goesOn, _, found, taken⟩
    · next other =>
      rw [if_neg other]
      exact taken.imp (fun still => ⟨goesOn, _, found, still⟩) fun done => ⟨goesOn, _, found, done⟩
  · rw [if_neg (foreign own)]
    exact .inl ⟨goesOn, later, found, held⟩

/-- A supervisor that has a turn ends when the task has ended. -/
theorem exists_settled_of_isReady
    (hosts : Hosts Step schedule linting embed valid)
    (holds : valid state)
    {index : Nat}
    (present : Present (linting state) index fun member =>
      member.task.ending?.isSome = true ∧ member.supervision.isReady = true) :
    ∃ later, Relation.ReflTransGen Step state later ∧ valid later ∧
      Present (linting later) index fun member => member.supervision = .ended := by
  have ⟨begun, member, known, ended, ready⟩ := present
  have tended := (hosts.tended state holds).member index member known
  refine hosts.exists_present ?_ holds present (tended.due ready)
  rintro setting now next member ⟨ended, ready⟩
  rcases Member.take_of_isReady ended ready setting now next with
    ⟨isSupervisor, settled⟩ | ⟨other, supervision_eq⟩
  · rw [if_pos isSupervisor]
    exact settled
  · rw [if_neg other, Member.ending?_take ended, supervision_eq]
    exact .inl ⟨ended, ready⟩

/-- A supervisor that waits is woken when the task has ended. -/
theorem exists_isReady_of_waiting
    (hosts : Hosts Step schedule linting embed valid)
    (holds : valid state)
    {index : Nat}
    {since : Rat}
    (present : Present (linting state) index fun member =>
      member.task.ending?.isSome = true ∧ member.supervision = .waiting since) :
    ∃ later, Relation.ReflTransGen Step state later ∧ valid later ∧
      Present (linting later) index fun member =>
        member.task.ending?.isSome = true ∧ member.supervision.isReady = true := by
  have ⟨begun, member, known, ended, waiting⟩ := present
  have tended := (hosts.tended state holds).member index member known
  refine hosts.exists_present ?_ holds present (tended.noticed since waiting ended)
  rintro setting now next member ⟨ended, waiting⟩
  rw [Member.ending?_take ended]
  rcases Member.take_of_waiting ended waiting setting now next with woken | ⟨other, still⟩
  · have ready : (member.take setting now next).member.supervision.isReady = true := by
      rw [woken]
      rfl
    split
    · exact ⟨ended, ready⟩
    · exact .inr ⟨ended, ready⟩
  · rw [if_neg other]
    exact .inl ⟨ended, still⟩

/-- When the task has ended, the supervisor ends. -/
theorem exists_settled
    (hosts : Hosts Step schedule linting embed valid)
    (holds : valid state)
    {index : Nat}
    (present : Present (linting state) index fun member => member.task.ending?.isSome = true) :
    ∃ later, Relation.ReflTransGen Step state later ∧ valid later ∧
      Present (linting later) index fun member => member.supervision = .ended := by
  obtain ⟨begun, member, known, ended⟩ := present
  have tended := (hosts.tended state holds).member index member known
  cases supervision : member.supervision with
  | absent =>
    rw [tended.absent supervision] at ended
    contradiction
  | fresh =>
    exact hosts.exists_settled_of_isReady holds
      ⟨begun, member, known, ended, by rw [supervision]; rfl⟩
  | woken since =>
    exact hosts.exists_settled_of_isReady holds
      ⟨begun, member, known, ended, by rw [supervision]; rfl⟩
  | ended => exact ⟨state, .refl, holds, begun, member, known, supervision⟩
  | waiting since =>
    obtain ⟨middle, path, kept, noticed⟩ :=
      hosts.exists_isReady_of_waiting holds ⟨begun, member, known, ended, supervision⟩
    obtain ⟨later, others, last, settled⟩ := hosts.exists_settled_of_isReady kept noticed
    exact ⟨later, path.trans others, last, settled⟩

/-- A member that has ended becomes done. -/
theorem exists_isFinished
    (hosts : Hosts Step schedule linting embed valid)
    (holds : valid state)
    {index : Nat}
    (present : Present (linting state) index Member.HasEnded) :
    ∃ later, Relation.ReflTransGen Step state later ∧ valid later ∧
      Present (linting later) index fun member => member.reporter.isFinished = true := by
  obtain ⟨begun, member, known, finished | ended⟩ := present
  · exact ⟨state, .refl, holds, begun, member, known, finished⟩
  · obtain ⟨later, path, kept, still, own, found, settled⟩ :=
      hosts.exists_settled holds ⟨begun, member, known, ended⟩
    have tended := (hosts.tended later kept).member index own found
    exact ⟨later, path, kept, still, own, found, tended.ended settled⟩

/-- The first members are done, in a run that has begun and whose members have all ended. -/
structure DoneUpTo (count : Nat) (linting : Linting) : Prop where
  begun : linting.phase.isEarly = false
  ended : linting.AllEnded
  finished : ∀ index < count, ∀ member, linting.members[index]? = some member →
    member.reporter.isFinished = true

theorem DoneUpTo.take
    {count : Nat}
    {linting : Linting}
    (done : DoneUpTo count linting)
    (balanced : Balanced linting)
    (now : Rat)
    (turn : Turn) :
    DoneUpTo count (linting.take now turn).linting where
  begun := isEarly_take done.begun now turn
  ended := done.ended.take balanced now turn
  finished index early member found := by
    have length_eq := length_members_take linting now turn
    obtain ⟨bound, -⟩ := List.getElem?_eq_some_iff.mp found
    have before := List.getElem?_eq_getElem (length_eq ▸ bound)
    have finished := done.finished index early _ before
    obtain ⟨after, same, acts⟩ := exists_member_take done.begun before now turn
    rw [found] at same
    cases same
    rcases acts with ⟨own, -, rfl⟩ | ⟨-, rfl⟩
    · exact (Member.conduct_take _ _ _ _).isFinished_of_isFinished finished
    · exact finished

/-- The members become done one after another. -/
theorem exists_doneUpTo
    (hosts : Hosts Step schedule linting embed valid)
    (holds : valid state)
    (begins : DoneUpTo 0 (linting state))
    (count : Nat) :
    ∃ later, Relation.ReflTransGen Step state later ∧ valid later ∧
      DoneUpTo count (linting later) := by
  induction count with
  | zero => exact ⟨state, .refl, holds, begins⟩
  | succ count ih =>
    obtain ⟨middle, path, kept, done⟩ := ih
    have keeping : Hosts Step schedule linting embed fun state =>
        valid state ∧ DoneUpTo count (linting state) :=
      hosts.and (fun _ now turn balanced done => done.take balanced now turn)
        fun _ _ done => ⟨done.begun, done.ended, done.finished⟩
    cases known : (linting middle).members[count]? with
    | none =>
      refine ⟨middle, path, kept, done.begun, done.ended, fun index early member found => ?_⟩
      rcases Nat.lt_succ_iff_lt_or_eq.mp early with before | rfl
      · exact done.finished index before member found
      · rw [known] at found
        contradiction
    | some member =>
      obtain ⟨later, others, ⟨last, still⟩, begun, own, found, finished⟩ :=
        keeping.exists_isFinished ⟨kept, done⟩
          ⟨done.begun, member, known, done.ended member (List.mem_of_getElem? known)⟩
      refine ⟨later, path.trans others, last, begun, still.ended, fun index early other same => ?_⟩
      rcases Nat.lt_succ_iff_lt_or_eq.mp early with before | rfl
      · exact still.finished index before other same
      · rw [found] at same
        cases same
        exact finished

/-- A run whose members are all done comes to its end. -/
theorem exists_isClosed_of_isDone
    (hosts : Hosts Step schedule linting embed valid)
    (holds : valid state)
    (unstopped : (linting state).Unstopped)
    (begun : (linting state).phase.isEarly = false)
    (done : (linting state).isDone = true) :
    ∃ later, Relation.ReflTransGen Step state later ∧ valid later ∧
      (linting later).phase.isClosed = true := by
  have balanced := hosts.balanced state holds
  have decided := unstopped.decided begun
  cases phase : (linting state).phase with
  | unstarted => simp [phase, Phase.isEarly] at begun
  | scheduled => simp [phase, Phase.isEarly] at begun
  | invoking => exact absurd phase decided.invoked
  | waiting =>
    have counted := balanced.counted begun
    have some := balanced.waiting phase
    have none : (linting state).unfinished = 0 :=
      List.countP_eq_zero.mpr (by simpa [isDone] using done)
    omega
  | settled =>
    refine @exists_of_ready State Own Step schedule linting embed valid state hosts
      (fun linting => linting.phase = .settled) (fun linting => linting.phase.isClosed = true)
      .run ?_ (fun _ _ settled => settled) holds phase ((hosts.tended state holds).run (.inr phase))
    intro linting now next balanced settled
    cases taken linting now next with
    | nothing idle nobody same =>
      rw [if_neg fun isRun => (idle isRun).2 settled, same]
      exact .inl settled
    | begin isRun scheduled same =>
      rw [settled] at scheduled
      contradiction
    | finish isRun settled same =>
      rw [if_pos isRun, same, Progress.linting_finish]
      exact Progress.isClosed_outcomeOf _ _
    | member index own member isMember known same =>
      have followed := @Progress.followed_follow (.start linting) index member _ known
        (member.conduct_take linting.toSetting now own)
      rw [if_neg (by simp [isMember]), same, followed.phase_eq, Progress.linting_start, if_neg]
      · exact .inl settled
      · simp [settled]
  | ended outcome =>
    refine ⟨state, .refl, holds, ?_⟩
    have stopped := decided.stopped
    rw [phase] at stopped ⊢
    cases outcome with
    | stopped failure => contradiction
    | _ => rfl

/-- When all members have ended and none of them stops the run, a run that has been started comes to
its end. -/
theorem exists_isClosed
    (hosts : Hosts Step schedule linting embed valid)
    (holds : valid state)
    (unstopped : (linting state).Unstopped)
    (ended : (linting state).AllEnded) :
    ∃ later, Relation.ReflTransGen Step state later ∧ valid later ∧
      (linting later).phase.isClosed = true := by
  have lasting : Hosts Step schedule linting embed fun state =>
      valid state ∧ (linting state).Unstopped :=
    hosts.and (fun _ now turn balanced unstopped => unstopped.take balanced now turn)
      fun _ audience unstopped => unstopped.withAudience audience
  have keeping : Hosts Step schedule linting embed fun state =>
      (valid state ∧ (linting state).Unstopped) ∧ (linting state).AllEnded :=
    lasting.and (fun _ now turn balanced ended => ended.take balanced now turn) fun _ _ ended => ended
  obtain ⟨early, begins, ⟨held, all⟩, begun⟩ := keeping.exists_begun ⟨⟨holds, unstopped⟩, ended⟩
  have sized : ∀ total, Hosts Step schedule linting embed fun state =>
      (valid state ∧ (linting state).Unstopped) ∧ (linting state).members.length = total :=
    fun total => @Hosts.and State Own Step schedule linting embed _ lasting (·.members.length = total)
      (fun linting now turn _ same => (length_members_take linting now turn).trans same)
      fun _ _ same => same
  obtain ⟨middle, path, ⟨⟨kept, still⟩, length_eq⟩, done⟩ := (sized _).exists_doneUpTo ⟨held, rfl⟩
    ⟨begun, all, by simp⟩ (linting early).members.length
  have isDone : (linting middle).isDone = true := by
    apply List.all_eq_true.mpr
    intro member known
    obtain ⟨index, found⟩ := List.mem_iff_getElem?.mp known
    obtain ⟨bound, -⟩ := List.getElem?_eq_some_iff.mp found
    exact done.finished index (length_eq ▸ bound) member found
  obtain ⟨later, others, last, closed⟩ :=
    hosts.exists_isClosed_of_isDone kept still done.begun isDone
  exact ⟨later, (begins.trans path).trans others, last, closed⟩

end Hosts
end Linting
end MarkupLint
