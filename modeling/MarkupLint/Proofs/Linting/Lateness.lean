import MarkupLint.Proofs.Linting.Standing

/-!
# Failures that come too late

When a script has let its reporter be done and fails later on, nothing is reported any more.  What the
linting makes of the failure depends on who comes first: if the supervisor has ended before the task,
the linting remarks the failure, and otherwise its own report of the failure is ignored.  The
supervisor comes first if any time passes in between.  It does not if the script fails in the very
turn in which it lets the reporter be done, or in the first turn of what is awaited.
-/

namespace MarkupLint
namespace Linting

open Incident

namespace Session

variable {session later : Session} {index : Nat} {schedule : Schedule SessionTurn}

/-- The remarks about a member in its own turn, and what happens with it. -/
theorem next_own
    {member : Member}
    {own : Member.Turn}
    (next : session.schedule.next? = some (.linting (.member index own), schedule))
    (known : session.linting.members[index]? = some member) :
    session.nextRemarks.of index =
        Member.remarks (member.take session.linting.toSetting schedule.now own).effects ∧
      session.nextIncidents index =
        member.incidents session.linting.toSetting schedule.now own := by
  simp only [nextRemarks, nextIncidents, next, turnRemarks, turnIncidents, known, Remarks.of_map,
    if_true, and_self]

/-- Unless the run begins, nothing happens with a member in the turn of another one. -/
theorem next_foreign
    {turn : SessionTurn}
    (next : session.schedule.next? = some (turn, schedule))
    (foreign : turn.own? index = none)
    (waits : ¬∃ schedule, session.Begins schedule) :
    session.nextRemarks.of index = [] ∧ session.nextIncidents index = [] := by
  cases turn with
  | caller => simp only [nextRemarks, nextIncidents, next, Remarks.of_nil, and_self]
  | wakeCaller => simp only [nextRemarks, nextIncidents, next, Remarks.of_nil, and_self]
  | linting turn =>
    simp only [nextRemarks, nextIncidents, next]
    cases turn with
    | run =>
      have idle : session.linting.phase ≠ .scheduled := fun scheduled =>
        waits ⟨schedule, next, scheduled⟩
      refine ⟨rfl, ?_⟩
      cases known : session.linting.members[index]? <;> simp [turnIncidents, known, idle]
    | member other own =>
      have different : other ≠ index := by
        rintro rfl
        rw [(own?_eq_some_iff other _ own).mpr rfl] at foreign
        contradiction
      constructor
      · simp only [turnRemarks]
        split
        · rw [Remarks.of_map, if_neg different]
        · rfl
      · cases known : session.linting.members[index]? <;> simp [turnIncidents, known, different]

/-- What a member makes ready in its own turn is ready then. -/
theorem mem_ready_take_own
    {member : Member}
    {own turn : Member.Turn}
    (known : session.linting.members[index]? = some member)
    (soon : .soon turn ∈
      (member.take session.linting.toSetting session.schedule.now own).effects) :
    .linting (.member index turn) ∈
      (session.take (.linting (.member index own))).schedule.ready := by
  refine mem_ready_follow ?_ session
  cases taken session.linting session.schedule.now (.member index own) with
  | nothing idle nobody same =>
    rw [nobody index own rfl] at known
    contradiction
  | begin isRun => contradiction
  | finish isRun => contradiction
  | member other own actor isMember found same =>
    obtain ⟨rfl, rfl⟩ := Turn.member.inj isMember
    cases found.symm.trans known
    rw [same]
    exact Progress.soon_follow.2 turn soon

/-- The supervisor of the instance with an index ends while the task of the instance goes on. -/
def LeavesBehind (session : Session) (index : Nat) : Prop :=
  ∃ turns member, (session.goOn turns).linting.members[index]? = some member ∧
    member.supervision = .ended ∧ member.task.ending? = none

/-- A session whose run has begun, which shows a solo of the member with an index, and whose linting
keeps up with the member. -/
structure Overseen
    (first : Session)
    (index : Nat)
    (session : Session)
    (solo : Solo)
    (remarks : List LogRecord)
    (incidents : List Incident) :
    Prop where
  orderly : session.Orderly
  begun : session.linting.phase.isEarly = false
  setting_eq : session.linting.toSetting = first.linting.toSetting
  shown : session.Shows index solo
  opens : solo.Opens
  standing : Standing first.linting.name solo.member (solo.schedule.entries.count .late) remarks
    incidents
  ready : 0 < solo.schedule.entries.count .late →
    .linting (.member index .late) ∈ session.schedule.ready
  /-- The first session tells of tasks that have been left to themselves. -/
  left : solo.member.isLate = true → first.LeavesBehind index

section

variable {first : Session} {solo : Solo} {remarks : List LogRecord} {incidents : List Incident}
  {member : Member}

/-- When the run begins, the linting begins to keep up with the member. -/
theorem Overseen.begins
    (unbegun : Unbegun first.linting session)
    (begins : session.Begins schedule)
    (known : first.linting.members[index]? = some member)
    (unattributed : first.linting.diagnostics.attributed member.key = []) :
    ∃ solo, Overseen first index (({ session with schedule := schedule } : Session).follow
        ((Progress.start session.linting).begin schedule.now)) solo
      (session.nextRemarks.of index) (session.nextIncidents index) := by
  obtain ⟨stepped, begun, setting_eq⟩ := unbegun.begun begins
  have orderly := unbegun.toOrderly.step stepped
  have shown := unbegun.shows_begin begins known unattributed
  have untouched := unbegun.balanced.untouched unbegun.early member
    (unbegun.members_eq ▸ List.mem_of_getElem? known)
  have silent : session.nextRemarks.of index = [] := by
    simp only [nextRemarks, begins.next, turnRemarks, Remarks.of_nil]
  have called : session.linting.invokees schedule.now = first.linting.invokees schedule.now := by
    rw [invokees_congr unbegun.setting_eq unbegun.members_eq]
  have happens : session.nextIncidents index =
      if index ∈ first.linting.invokees schedule.now then
        member.invocationIncidents first.linting.toSetting schedule.now
      else [] := by
    simp only [nextIncidents, begins.next, turnIncidents, unbegun.members_eq, known,
      begins.scheduled, called, unbegun.setting_eq, true_and]
  rw [silent, happens]
  split at shown
  · next invoked =>
    obtain ⟨standing, none, timely⟩ := Standing.invoke untouched first.linting.toSetting schedule
    rw [if_pos invoked]
    refine ⟨_, orderly, begun, setting_eq, shown, Solo.opens_invoke untouched _ _, standing,
      fun some => ?_, fun late => ?_⟩
    · omega
    · rw [timely] at late
      contradiction
  · next spared =>
    rw [if_neg spared]
    refine ⟨_, orderly, begun, setting_eq, shown, fun steps fresh => ?_, .idle untouched _ schedule,
      fun some => absurd some (Nat.lt_irrefl 0), fun late => ?_⟩ <;>
    · obtain ⟨rule, number, script, rfl⟩ := untouched
      contradiction

/-- The linting keeps up with a member in the turn of anybody else. -/
theorem Overseen.foreign
    {turn : SessionTurn}
    (overseen : Overseen first index session solo remarks incidents)
    (next : session.schedule.next? = some (turn, schedule))
    (foreign : turn.own? index = none) :
    Overseen first index (({ session with schedule := schedule } : Session).take turn) solo
      (remarks ++ session.nextRemarks.of index) (incidents ++ session.nextIncidents index) := by
  obtain ⟨orderly, begun, setting_eq, shown, opens, standing, ready, left⟩ := overseen
  have stepped : session.step? = some (({ session with schedule := schedule } : Session).take turn) :=
    Option.map_eq_some_iff.mpr ⟨_, next, rfl⟩
  have waits : ¬∃ schedule, session.Begins schedule := by
    rintro ⟨schedule, begins⟩
    rw [begins.scheduled] at begun
    contradiction
  obtain ⟨still, kept⟩ := begun_step begun stepped
  obtain ⟨silent, nothing⟩ := next_foreign next foreign waits
  rw [silent, nothing, List.append_nil, List.append_nil]
  refine ⟨orderly.step stepped, still, kept.trans setting_eq,
    shown.step_other orderly begun next foreign, opens, standing, fun due => ?_, left⟩
  refine (ready_take { session with schedule := schedule } turn).mem
    (Schedule.mem_ready_next? next (ready due) ?_)
  rintro rfl
  rw [(own?_eq_some_iff index _ .late).mpr rfl] at foreign
  contradiction

/-- The linting keeps up with a member in its own turn. -/
theorem Overseen.own
    {own : Member.Turn}
    (overseen : Overseen first index session solo remarks incidents)
    (next : session.schedule.next? = some (.linting (.member index own), schedule))
    (reached : ∃ turns, ({ session with schedule := schedule } : Session).take
      (.linting (.member index own)) = first.goOn turns) :
    ∃ after, Overseen first index (({ session with schedule := schedule } : Session).take
        (.linting (.member index own))) after
      (remarks ++ session.nextRemarks.of index) (incidents ++ session.nextIncidents index) := by
  obtain ⟨orderly, begun, setting_eq, shown, opens, standing, ready, left⟩ := overseen
  have stepped : session.step? = some (({ session with schedule := schedule } : Session).take
      (.linting (.member index own))) := Option.map_eq_some_iff.mpr ⟨_, next, rfl⟩
  obtain ⟨still, kept⟩ := begun_step begun stepped
  obtain ⟨alone, popped, now_eq, shownLater⟩ := shown.step_own orderly next
  obtain ⟨made, happens⟩ := next_own next shown.member_eq
  have counted := @Solo.count_late_take session.linting.toSetting solo _ alone popped
  have due : own = .late → 0 < solo.schedule.entries.count .late := by
    rintro rfl
    rw [(Schedule.entries_next? popped).count_eq, List.count_cons_self]
    exact Nat.succ_pos _
  have once := standing.pending_le
  rw [← setting_eq] at standing
  rw [now_eq] at counted
  rw [made, happens]
  refine ⟨_, orderly.step stepped, still, kept.trans setting_eq, shownLater, opens.take popped, ?_,
    fun needed => ?_, fun late => ?_⟩
  · rw [← setting_eq, Solo.take, now_eq]
    rw [Solo.take, now_eq] at counted
    exact standing.take due counted
  · -- The turn is brought now, or it has been ready before: it is not there twice.
    by_cases brought : 0 < (solo.member.take session.linting.toSetting schedule.now
        own).turns.countP (·.brings .late)
    · obtain ⟨effect, known, brings⟩ := List.countP_pos_iff.mp brought
      have keeps := List.all_eq_true.mp (solo.member.keepsLate_take _ _ own) effect known
      rw [Member.Effect.eq_soon_of_brings keeps brings, Member.mem_turns] at known
      exact @mem_ready_take_own { session with schedule := schedule } _ _ _ _ shown.member_eq known
    · have other : own ≠ .late := by
        intro same
        rw [if_pos same] at counted
        omega
      rw [if_neg other] at counted
      refine (ready_take { session with schedule := schedule } _).mem
        (Schedule.mem_ready_next? next (ready (by omega)) ?_)
      simpa using other.symm
  · obtain ⟨turns, same⟩ := reached
    rcases Member.isLate_take late with early | ⟨settled, goesOn⟩
    · exact left early
    · exact ⟨turns, _, same ▸ shownLater.member_eq, settled, goesOn⟩

/-- What has become of the member with an index in a session that has gone on, with the remarks about
the member and what has happened with it. -/
inductive Tracked
    (first : Session)
    (index : Nat)
    (session : Session)
    (remarks : List LogRecord)
    (incidents : List Incident) :
    Prop where
  | unbegun
      (member : Member)
      (unbegun : Unbegun first.linting session)
      (known : first.linting.members[index]? = some member)
      (unattributed : first.linting.diagnostics.attributed member.key = [])
      (remarks_eq : remarks = [])
      (incidents_eq : incidents = [])
  | begun
      (solo : Solo)
      (overseen : Overseen first index session solo remarks incidents)

theorem Tracked.step
    (tracked : Tracked first index session remarks incidents)
    (stepped : session.step? = some later)
    (reached : ∃ turns, later = first.goOn turns) :
    Tracked first index later (remarks ++ session.nextRemarks.of index)
      (incidents ++ session.nextIncidents index) := by
  have taken := stepped
  obtain ⟨⟨turn, schedule⟩, next, rfl⟩ := Option.map_eq_some_iff.mp stepped
  cases tracked with
  | unbegun member unbegun known unattributed remarks_eq incidents_eq =>
    subst remarks_eq incidents_eq
    rw [List.nil_append, List.nil_append]
    by_cases begins : ∃ schedule, session.Begins schedule
    · obtain ⟨schedule, begins⟩ := begins
      obtain ⟨solo, overseen⟩ := Overseen.begins unbegun begins known unattributed
      rw [begins.step?, Option.some.injEq] at taken
      exact taken ▸ .begun solo overseen
    · have foreign : turn.own? index = none :=
        own?_eq_none (unbegun.quiet turn
          ((Schedule.entries_next? next).mem_iff.mpr List.mem_cons_self))
      obtain ⟨silent, nothing⟩ := next_foreign next foreign begins
      exact .unbegun member ((unbegun.step taken).resolve_right begins) known unattributed silent
        nothing
  | begun solo overseen =>
    cases isOwn : turn.own? index with
    | none => exact .begun solo (overseen.foreign next isOwn)
    | some own =>
      obtain rfl := (own?_eq_some_iff index turn own).mp isOwn
      obtain ⟨after, still⟩ := overseen.own next reached
      exact .begun after still

end

/-- The remarks and the incidents of one turn more. -/
theorem records_succ (session : Session) (index turns : Nat) :
    session.remarks (turns + 1) = session.remarks turns ++ (session.goOn turns).nextRemarks ∧
      session.incidents index (turns + 1) =
        session.incidents index turns ++ (session.goOn turns).nextIncidents index := by
  rw [remarks_add, incidents_add]
  constructor <;> congr 1
  · rw [remarks]
    cases (session.goOn turns).step? <;> exact List.append_nil _
  · rw [incidents]
    cases (session.goOn turns).step? <;> exact List.append_nil _

theorem Tracked.goOn
    {first : Session}
    (tracked : Tracked first index first [] [])
    (turns : Nat) :
    Tracked first index (first.goOn turns) ((first.remarks turns).of index)
      (first.incidents index turns) := by
  induction turns with
  | zero => exact tracked
  | succ turns ih =>
    obtain ⟨remarks_eq, incidents_eq⟩ := first.records_succ index turns
    rw [remarks_eq, incidents_eq, Remarks.of_append]
    cases stepped : (first.goOn turns).step? with
    | some later =>
      have same : first.goOn (turns + 1) = later := by rw [goOn_succ, stepped, Option.getD_some]
      rw [same]
      exact ih.step stepped ⟨_, same.symm⟩
    | none =>
      have same : first.goOn (turns + 1) = first.goOn turns := by
        rw [goOn_succ, stepped, Option.getD_none]
      rw [same, nextRemarks_of_isExhausted stepped, nextIncidents_of_isExhausted stepped,
        Remarks.of_nil, List.append_nil, List.append_nil]
      exact ih

/-- A session that has been new, with the instance with an index, which has a key. -/
structure Traced (session : Session) (index : Nat) (key : String × Int) : Prop where
  attentive : session.Attentive
  keyed : session.linting.keys[index]? = some key
  tracked : ∀ turns, Tracked session index (session.goOn turns) ((session.remarks turns).of index)
    (session.incidents index turns)
  accounted : ∀ turns, Accounted (session.goOn turns).linting (session.account turns)

namespace Traced

variable {key : String × Int} {turns early late : Nat} {member : Member}

theorem new
    {document : Document}
    {rules : RuleSet}
    {timeout? : Option Binary64}
    {precision : Precision}
    {precedence : Precedence SessionTurn}
    (distinct : rules.keys.Nodup)
    (known : rules.instanceKeys[index]? = some key)
    (requests : List Request) :
    (Session.new (.new document rules timeout? precision) precedence requests).Traced index key := by
  have unbegun := @Unbegun.new document rules timeout? precision precedence distinct requests
  rw [← @keys_new document rules timeout? precision] at known
  refine ⟨.new document rules timeout? precision precedence requests, known, fun turns => ?_,
    fun turns => ?_⟩
  · rw [keys, List.getElem?_map] at known
    obtain ⟨member, found, -⟩ := Option.map_eq_some_iff.mp known
    exact Tracked.goOn (.unbegun member unbegun found (attributed_new _) rfl rfl) turns
  · rw [← List.nil_append (Session.account _ _)]
    exact accounted_goOn (.new document rules timeout? precision) unbegun.toOrderly turns

theorem exists_member (traced : session.Traced index key) (turns : Nat) :
    ∃ member, (session.goOn turns).linting.members[index]? = some member := by
  have own := traced.keyed
  rw [← keys_goOn session turns, keys, List.getElem?_map] at own
  obtain ⟨member, found, -⟩ := Option.map_eq_some_iff.mp own
  exact ⟨member, found⟩

theorem key_eq
    (traced : session.Traced index key)
    (known : (session.goOn turns).linting.members[index]? = some member) :
    member.key = key := by
  have own := getElem?_keys known
  rw [keys_goOn, traced.keyed] at own
  exact (Option.some.inj own).symm

theorem exists_standing
    (traced : session.Traced index key)
    (known : (session.goOn turns).linting.members[index]? = some member)
    (touched : ¬member.Untouched) :
    ∃ pending, Standing session.linting.name member pending ((session.remarks turns).of index)
        (session.incidents index turns) ∧
      (0 < pending → .linting (.member index .late) ∈ (session.goOn turns).schedule.ready) ∧
      (member.isLate = true → session.LeavesBehind index) := by
  cases traced.tracked turns with
  | unbegun other unbegun =>
    have untouched := unbegun.balanced.untouched unbegun.early member (List.mem_of_getElem? known)
    exact absurd untouched touched
  | begun solo overseen =>
    cases known.symm.trans overseen.shown.member_eq
    exact ⟨_, overseen.standing, overseen.ready, overseen.left⟩

/-- A task that has not begun has a supervisor that has not begun. -/
theorem supervision_of_fresh
    {steps : List Step}
    (traced : session.Traced index key)
    (known : (session.goOn turns).linting.members[index]? = some member)
    (fresh : member.task = .fresh steps) :
    member.supervision = .fresh := by
  cases traced.tracked turns with
  | unbegun other unbegun =>
    obtain ⟨rule, number, script, rfl⟩ :=
      unbegun.balanced.untouched unbegun.early member (List.mem_of_getElem? known)
    contradiction
  | begun solo overseen =>
    cases known.symm.trans overseen.shown.member_eq
    exact (overseen.opens steps fresh).2

/-- What a member keeps in each of its turns, it keeps. -/
theorem kept
    {property : Member → Prop}
    (traced : session.Traced index key)
    (known : (session.goOn early).linting.members[index]? = some member)
    (touched : ¬member.Untouched)
    (holds : property member)
    (keeps : ∀ setting now turn member, property member →
      property (member.take setting now turn).member)
    (behind : early ≤ late) :
    ∃ after, (session.goOn late).linting.members[index]? = some after ∧ property after := by
  obtain ⟨more, rfl⟩ := Nat.exists_eq_add_of_le behind
  have present := (traced.attentive.goOn early).present known touched holds
  rw [← goOn_goOn]
  exact (present_goOn keeps present more).2

/-- A task that has ended stays so. -/
theorem kept_task
    {ending : Ending}
    (traced : session.Traced index key)
    (known : (session.goOn early).linting.members[index]? = some member)
    (ended : member.task = .ended ending)
    (behind : early ≤ late) :
    ∃ after, (session.goOn late).linting.members[index]? = some after ∧
      after.task = .ended ending := by
  refine @kept session index key early late member (·.task = .ended ending) traced known
    (Member.HasEnded.touched (.inr (by rw [ended]; rfl))) ended
    (fun setting now turn after same => ?_) behind
  exact (Member.ending?_take (by rw [same]; rfl) setting now turn).trans same

/-- A task that goes on has not ended before. -/
theorem lt_of_goesOn
    {ending : Ending}
    {before : Member}
    (traced : session.Traced index key)
    (known : (session.goOn late).linting.members[index]? = some member)
    (ended : member.task = .ended ending)
    (there : (session.goOn early).linting.members[index]? = some before)
    (goesOn : before.task.ending? = none) :
    early < late := by
  by_contra behind
  obtain ⟨after, found, still⟩ := traced.kept_task known ended (Nat.le_of_not_lt behind)
  cases found.symm.trans there
  rw [still] at goesOn
  contradiction

/-- A supervisor that is not there or has ended stays so. -/
theorem kept_supervision
    (traced : session.Traced index key)
    (known : (session.goOn early).linting.members[index]? = some member)
    (touched : ¬member.Untouched)
    (rests : member.supervision = .absent ∨ member.supervision = .ended)
    (behind : early ≤ late) :
    ∃ after, (session.goOn late).linting.members[index]? = some after ∧
      after.supervision = member.supervision ∧ after.isLate = member.isLate := by
  refine @kept session index key early late member
    (fun after => after.supervision = member.supervision ∧ after.isLate = member.isLate) traced known
    touched ⟨rfl, rfl⟩ ?_ behind
  rintro setting now turn after ⟨supervision_eq, isLate_eq⟩
  obtain ⟨still, same⟩ := Member.take_of_rests (supervision_eq ▸ rests) setting now turn
  exact ⟨still.trans supervision_eq, same.trans isLate_eq⟩

/-- The reporter is done when something has let it be done. -/
theorem isFinished_iff
    (traced : session.Traced index key)
    (known : (session.goOn turns).linting.members[index]? = some member) :
    member.reporter.isFinished = true ↔ ∃ incident ∈ session.incidents index turns,
      incident.isEnd = true := by
  have used := (traced.accounted turns).used index member known
  rw [used.conduct.isFinished_iff, ← session.filterMap_use?_incidents index turns]
  simp [List.mem_filterMap, isEnd, Reporter.new]

/-- The reporter becomes done once. -/
theorem end_unique
    {first second : Incident}
    (traced : session.Traced index key)
    (firstKnown : first ∈ session.incidents index turns)
    (secondKnown : second ∈ session.incidents index turns)
    (firstEnds : first.isEnd = true)
    (secondEnds : second.isEnd = true) :
    first = second := by
  obtain ⟨member, known⟩ := traced.exists_member turns
  have counted : ((session.incidents index turns).filter Incident.isEnd).length =
      ((session.account turns).of index).count .finished := by
    rw [← session.filterMap_use?_incidents index turns, List.count, List.countP_filterMap,
      List.countP_eq_length_filter]
    refine congrArg List.length (List.filter_congr fun incident _ => ?_)
    rw [Bool.eq_iff_iff]
    cases incident <;> simp [isEnd, use?]
  have once : ((session.incidents index turns).filter Incident.isEnd).length ≤ 1 := by
    have balance := ((traced.accounted turns).used index member known).conduct.balance
    have new : (Reporter.new member.reporter.rule member.reporter.index).openCount = 1 := rfl
    omega
  have firstHeld := List.mem_filter.mpr ⟨firstKnown, firstEnds⟩
  have secondHeld := List.mem_filter.mpr ⟨secondKnown, secondEnds⟩
  generalize (session.incidents index turns).filter Incident.isEnd = ends at *
  rcases ends with _ | ⟨only, _ | ⟨other, rest⟩⟩
  · contradiction
  · rw [List.mem_singleton.mp firstHeld, List.mem_singleton.mp secondHeld]
  · simp at once

/-- Nothing is delivered once the reporter is done. -/
theorem delivered_eq
    (traced : session.Traced index key)
    (finished : ∃ incident ∈ session.incidents index early, incident.isEnd = true)
    (behind : early ≤ late) :
    Reporter.delivered ((session.account late).of index) =
      Reporter.delivered ((session.account early).of index) := by
  obtain ⟨more, rfl⟩ := Nat.exists_eq_add_of_le behind
  obtain ⟨incident, held, ends⟩ := finished
  obtain ⟨member, known⟩ := traced.exists_member (early + more)
  have used := (traced.accounted (early + more)).used index member known
  obtain ⟨reports, history, -⟩ := used.exists_isHistory rfl
  rw [← filterMap_use?_incidents, incidents_add, List.filterMap_append] at history
  have done : .finished ∈ (session.incidents index early).filterMap Incident.use? :=
    List.mem_filterMap.mpr ⟨incident, held, of_decide_eq_true ends⟩
  rw [← filterMap_use?_incidents, ← filterMap_use?_incidents, incidents_add, List.filterMap_append,
    Reporter.delivered_append, history.delivered_behind done, List.append_nil]

/-- When the task has ended, the supervisor ends. -/
theorem exists_settled
    (traced : session.Traced index key)
    (known : (session.goOn turns).linting.members[index]? = some member)
    (ended : member.task.ending?.isSome = true) :
    ∃ later after, turns ≤ later ∧ (session.goOn later).linting.members[index]? = some after ∧
      after.supervision = .ended := by
  have attentive := traced.attentive.goOn turns
  have present : Hosts.Present (session.goOn turns).linting index fun member =>
      member.task.ending?.isSome = true :=
    attentive.present known (Member.HasEnded.touched (.inr ended)) ended
  have started : (session.goOn turns).linting.isStarted = true := by
    rw [isStarted, bne_iff_ne]
    intro unstarted
    have begun := present.1
    rw [unstarted] at begun
    contradiction
  obtain ⟨last, path, -, -, after, found, settled⟩ :=
    Attentive.hosts.exists_settled ⟨attentive, started⟩ present
  obtain ⟨more, rfl⟩ := exists_goOn_of_reaches path
  rw [goOn_goOn] at found
  exact ⟨turns + more, after, Nat.le_add_right _ _, found, settled⟩

section

variable {failure : Failure}

/-- A failure that comes behind the supervisor is remarked. -/
theorem exists_remark
    (traced : session.Traced index key)
    (known : (session.goOn turns).linting.members[index]? = some member)
    (failed : member.task = .ended (.failed failure))
    (isLate : member.isLate = true) :
    ∃ later, turns ≤ later ∧ (session.remarks later).of index ≠ [] := by
  obtain ⟨pending, standing, ready, -⟩ :=
    traced.exists_standing known (Member.HasEnded.touched (.inr (by rw [failed]; rfl)))
  rcases standing.of_late failed isLate with ⟨due, -⟩ | ⟨remarked, -⟩
  · obtain ⟨more, schedule, next⟩ := exists_next?_of_mem_ready (ready (by omega))
    rw [goOn_goOn] at next
    obtain ⟨after, found, still⟩ := traced.kept_task known failed (Nat.le_add_right turns more)
    refine ⟨turns + more + 1, by omega, ?_⟩
    rw [(session.records_succ index (turns + more)).1, Remarks.of_append, (next_own next found).1,
      Member.remarks_take, if_pos rfl, Member.lateRemarks, still]
    simp
  · refine ⟨turns, le_rfl, ?_⟩
    rw [remarked]
    exact List.cons_ne_nil _ _

/-- A failure that comes behind the supervisor is remarked once, and nothing is ignored. -/
theorem exists_remarked
    (traced : session.Traced index key)
    (known : (session.goOn turns).linting.members[index]? = some member)
    (failed : member.task = .ended (.failed failure))
    (left : session.LeavesBehind index) :
    ∃ processed, ∀ later ≥ processed,
      (session.remarks later).of index = [lateRecord session.linting.name key failure] ∧
        ignored (session.incidents index later) = [] := by
  obtain ⟨early, before, there, settled, goesOn⟩ := left
  have touched : ¬before.Untouched := Member.touched_of_supervision (by simp [settled])
  obtain ⟨pending, standing, -⟩ := traced.exists_standing there touched
  have still : ∀ later, turns ≤ later → early ≤ later →
      ∃ after, (session.goOn later).linting.members[index]? = some after ∧
        after.task = .ended (.failed failure) ∧ after.isLate = true := by
    intro later behind after
    obtain ⟨last, found, ended⟩ := traced.kept_task known failed behind
    obtain ⟨other, same, -, isLate_eq⟩ := traced.kept_supervision there touched (.inr settled) after
    cases found.symm.trans same
    exact ⟨last, found, ended, isLate_eq.trans (standing.isLate_of_left settled goesOn)⟩
  obtain ⟨last, found, ended, isLate⟩ :=
    still (max turns early) (le_max_left _ _) (le_max_right _ _)
  obtain ⟨processed, reached, some⟩ := traced.exists_remark found ended isLate
  refine ⟨processed, fun later behind => ?_⟩
  obtain ⟨after, found, ended, isLate⟩ := still later (by omega) (by omega)
  obtain ⟨pending, standing, -⟩ :=
    traced.exists_standing found (Member.HasEnded.touched (.inr (by rw [ended]; rfl)))
  rcases standing.of_late ended isLate with ⟨-, none⟩ | remarked
  · -- What has been remarked stays so.
    obtain ⟨more, rfl⟩ := Nat.exists_eq_add_of_le behind
    rw [remarks_add, Remarks.of_append, List.append_eq_nil_iff] at none
    exact absurd none.1 some
  · rw [← traced.key_eq found]
    exact remarked

/-- The report of a failure that the supervisor sees when the script has let the reporter be done is
ignored, and nothing is remarked. -/
theorem exists_ignored
    (traced : session.Traced index key)
    (known : (session.goOn turns).linting.members[index]? = some member)
    (failed : member.task = .ended (.failed failure))
    (done : .script .finished ∈ session.incidents index turns)
    (attended : ¬session.LeavesBehind index) :
    ∃ processed, ∀ later ≥ processed,
      (session.remarks later).of index = [] ∧
        ignored (session.incidents index later) =
          [Reporter.droppedRecord key.1 failure.report] := by
  obtain ⟨processed, last, reached, found, settled⟩ :=
    traced.exists_settled known (by rw [failed]; rfl)
  refine ⟨processed, fun later behind => ?_⟩
  obtain ⟨after, there, ended⟩ := traced.kept_task known failed (reached.trans behind)
  have touched : ¬after.Untouched := Member.HasEnded.touched (.inr (by rw [ended]; rfl))
  obtain ⟨other, same, still, -⟩ := traced.kept_supervision found
    (Member.touched_of_supervision (by simp [settled])) (.inr settled) behind
  cases there.symm.trans same
  obtain ⟨pending, standing, -, left⟩ := traced.exists_standing there touched
  have timely : after.isLate = false := by
    by_contra isLate
    exact attended (left (by simpa using isLate))
  obtain ⟨silent, ignored_eq⟩ := standing.of_settled ended (still.trans settled) timely
  rw [traced.key_eq there] at ignored_eq
  refine ⟨silent, ignored_eq.resolve_right fun finished => ?_⟩
  have twice := traced.end_unique (mem_incidents_of_le done (reached.trans behind)) finished rfl rfl
  contradiction

end

/-- A failure that comes in the turn in which the reporter becomes done is seen by the supervisor. -/
theorem attended_of_atOnce
    {ending : Ending}
    (traced : session.Traced index key)
    (done : .script .finished ∈ session.incidents index turns)
    (running : .script .finished ∉ session.incidents index early)
    (known : (session.goOn (early + 1)).linting.members[index]? = some member)
    (ended : member.task = .ended ending) :
    ¬session.LeavesBehind index := by
  rintro ⟨before, left, there, settled, goesOn⟩
  have behind : before < early + 1 := traced.lt_of_goesOn known ended there goesOn
  have tended := (traced.attentive.goOn before).tended.member index left there
  obtain ⟨incident, held, ends⟩ := (traced.isFinished_iff there).mp (tended.ended settled)
  have same := traced.end_unique (mem_incidents_of_le held (le_max_right turns before))
    (mem_incidents_of_le done (le_max_left turns before)) ends rfl
  rw [same] at held
  exact running (mem_incidents_of_le held (Nat.le_of_lt_succ behind))

/-- A failure in the first turn of the task is seen by the supervisor. -/
theorem attended_of_prompt
    {ending : Ending}
    {steps : List Step}
    {fresh : Member}
    (traced : session.Traced index key)
    (begins : (session.goOn early).linting.members[index]? = some fresh)
    (unbegun : fresh.task = .fresh steps)
    (known : (session.goOn (early + 1)).linting.members[index]? = some member)
    (ended : member.task = .ended ending) :
    ¬session.LeavesBehind index := by
  rintro ⟨before, left, there, settled, goesOn⟩
  have behind : before < early + 1 := traced.lt_of_goesOn known ended there goesOn
  obtain ⟨other, same, supervision_eq, -⟩ := traced.kept_supervision there
    (Member.touched_of_supervision (by simp [settled])) (.inr settled) (Nat.le_of_lt_succ behind)
  cases begins.symm.trans same
  rw [traced.supervision_of_fresh begins unbegun, settled] at supervision_eq
  contradiction

/-- An instance with a task has a supervisor when its reporter is done. -/
theorem present_of_ended
    {ending : Ending}
    {last : Member}
    (traced : session.Traced index key)
    (known : (session.goOn turns).linting.members[index]? = some member)
    (ended : member.task = .ended ending)
    (there : (session.goOn late).linting.members[index]? = some last)
    (finished : last.reporter.isFinished = true) :
    last.supervision ≠ .absent := by
  intro absent
  obtain ⟨after, found, still, -⟩ := traced.kept_supervision there
    (Member.HasEnded.touched (.inl finished)) (.inl absent) (le_max_right turns late)
  obtain ⟨other, same, task_eq⟩ := traced.kept_task known ended (le_max_left turns late)
  cases found.symm.trans same
  have tended := (traced.attentive.goOn (max turns late)).tended.member index after found
  rw [tended.absent (still.trans absent)] at task_eq
  contradiction

/-- While the task goes on and the supervisor is there, the end of the reporter makes a turn ready. -/
theorem ready_ne_nil
    (traced : session.Traced index key)
    (attended : ¬session.LeavesBehind index)
    (known : (session.goOn turns).linting.members[index]? = some member)
    (goesOn : member.task.ending? = none)
    (finished : member.reporter.isFinished = true)
    (present : member.supervision ≠ .absent) :
    (session.goOn turns).schedule.ready ≠ [] := by
  have unsettled : member.supervision ≠ .ended := fun settled =>
    attended ⟨turns, member, known, settled, goesOn⟩
  have tended := (traced.attentive.goOn turns).tended.member index member known
  obtain ⟨turn, ready⟩ := tended.exists_isReady finished present unsettled
  exact List.ne_nil_of_mem ready

/-- No time passes between the end of the reporter and that of the task unless the supervisor ends. -/
theorem now_eq_of_attended
    {ending : Ending}
    {last : Member}
    (traced : session.Traced index key)
    (known : (session.goOn turns).linting.members[index]? = some member)
    (ended : member.task = .ended ending)
    (attended : ¬session.LeavesBehind index)
    (done : .script .finished ∈ session.incidents index early)
    (there : (session.goOn late).linting.members[index]? = some last)
    (goesOn : last.task.ending? = none)
    (behind : early ≤ late) :
    (session.goOn late).schedule.now = (session.goOn early).schedule.now := by
  have busy : ∀ between, early ≤ between → between ≤ late →
      (session.goOn between).schedule.ready ≠ [] := by
    intro between after before
    obtain ⟨held, found⟩ := traced.exists_member between
    have finished := (traced.isFinished_iff found).mpr ⟨_, mem_incidents_of_le done after, rfl⟩
    refine traced.ready_ne_nil attended found ?_ finished
      (traced.present_of_ended known ended found finished)
    by_contra halted
    obtain ⟨ending, isEnding⟩ := Option.ne_none_iff_exists'.mp halted
    have ended := Member.Task.eq_ended_of_ending? isEnding
    exact before.not_gt (traced.lt_of_goesOn found ended there goesOn)
  clear there
  induction late, behind using Nat.le_induction with
  | base => rfl
  | succ late behind ih =>
    have same := ih fun between after before => busy between after (Nat.le_succ_of_le before)
    rw [← same, goOn_succ]
    cases stepped : (session.goOn late).step? with
    | none => rfl
    | some later => exact now_step stepped (busy late behind (Nat.le_succ late))

end Traced

/-- How the task of the instance with an index has ended, if it has. -/
def ending? (session : Session) (index : Nat) : Option Ending :=
  session.linting.members[index]?.bind (·.task.ending?)

theorem exists_ended (ended : session.ending? index ≠ none) :
    ∃ member ending, session.linting.members[index]? = some member ∧
      member.task = .ended ending := by
  obtain ⟨ending, isEnding⟩ := Option.ne_none_iff_exists'.mp ended
  obtain ⟨member, known, isEnded⟩ := Option.bind_eq_some_iff.mp isEnding
  exact ⟨member, ending, known, Member.Task.eq_ended_of_ending? isEnded⟩

/-- What a session makes of the failure of an instance with a key that comes when the script has let
the reporter be done. -/
structure TakesLate (session : Session) (index : Nat) (key : String × Int) (failure : Failure) :
    Prop where
  /-- Nothing more is attributed to the instance. -/
  silent : ∀ early late, .script .finished ∈ session.incidents index early → early ≤ late →
    (session.goOn late).linting.diagnostics.attributed key =
      (session.goOn early).linting.diagnostics.attributed key
  /-- Every warning that the linting logs is a remark about an instance. -/
  complete : ∀ turns, (session.goOn turns).remarked = (session.remarks turns).map (·.2)
  /-- If the supervisor ends while the task goes on, the failure is remarked, once. -/
  remarked : session.LeavesBehind index → ∃ processed, ∀ later ≥ processed,
    (session.remarks later).of index = [lateRecord session.linting.name key failure] ∧
      ignored (session.incidents index later) = []
  /-- Otherwise, the supervisor reports the failure to the reporter, which ignores it. -/
  ignored : ¬session.LeavesBehind index → ∃ processed, ∀ later ≥ processed,
    (session.remarks later).of index = [] ∧
      ignored (session.incidents index later) = [Reporter.droppedRecord key.1 failure.report]
  /-- If time passes before the failure, the supervisor ends. -/
  lasting : ∀ early late, .script .finished ∈ session.incidents index early → early ≤ late →
    (session.goOn early).schedule.now < (session.goOn late).schedule.now →
      (session.goOn late).ending? index = none → session.LeavesBehind index
  /-- If the failure comes in the turn in which the script lets the reporter be done, it does not. -/
  atOnce : ∀ early, .script .finished ∉ session.incidents index early →
    (session.goOn (early + 1)).ending? index ≠ none → ¬session.LeavesBehind index
  /-- Nor does it if the task fails in its first turn. -/
  prompt : ∀ early member steps, (session.goOn early).linting.members[index]? = some member →
    member.task = .fresh steps → (session.goOn (early + 1)).ending? index ≠ none →
      ¬session.LeavesBehind index

end Session

/-- What becomes of the failure of an instance when its script has let its reporter be done: nothing is
reported any more.  If the supervisor has ended before, the failure is remarked, otherwise the linting
ignores it. -/
theorem late_failure
    {document : Document}
    {rules : RuleSet}
    {timeout? : Option Binary64}
    {precision : Precision}
    {precedence : Precedence SessionTurn}
    {requests : List Request}
    {index turns : Nat}
    {key : String × Int}
    {failure : Failure}
    (distinct : rules.keys.Nodup)
    (known : rules.instanceKeys[index]? = some key) :
    let session := Session.new (.new document rules timeout? precision) precedence requests
    .script .finished ∈ session.incidents index turns →
      (session.goOn turns).ending? index = some (.failed failure) →
        session.TakesLate index key failure := by
  intro session done failed
  have traced : session.Traced index key := .new distinct known requests
  obtain ⟨member, found⟩ := traced.exists_member turns
  have ended : member.task = .ended (.failed failure) :=
    Member.Task.eq_ended_of_ending? (by simpa [Session.ending?, found] using failed)
  refine ⟨fun early late held behind => ?_, session.remarked_goOn, traced.exists_remarked found ended,
    traced.exists_ignored found ended done, fun early late held behind passed goesOn => ?_,
    fun early running atOnce => ?_, fun early fresh steps begins unbegun atOnce => ?_⟩
  · have attributed_eq := @Session.attributed_goOn document rules timeout? precision precedence index
      key distinct known requests
    rw [attributed_eq, attributed_eq, traced.delivered_eq ⟨_, held, rfl⟩ behind]
  · by_contra attended
    obtain ⟨last, there⟩ := traced.exists_member late
    have unended : last.task.ending? = none := by simpa [Session.ending?, there] using goesOn
    exact passed.ne
      (traced.now_eq_of_attended found ended attended held there unended behind).symm
  · obtain ⟨own, ending, there, ended⟩ := Session.exists_ended atOnce
    exact traced.attended_of_atOnce done running there ended
  · obtain ⟨own, ending, there, ended⟩ := Session.exists_ended atOnce
    exact traced.attended_of_prompt begins unbegun there ended

/-- An instance that sleeps between being done and failing, and one that fails at once. -/
def twoFailures : RuleSet :=
  [("a", [.custom ⟨[], some [.act .finish, .sleep 1 [] false,
      .act (.fail (.of "ValueError" ["x"]))]⟩,
    .custom ⟨[.finish], some [.act (.fail (.of "OSError" ["y"]))]⟩])]

theorem late_failure_of_sleeper :
    let session := Session.new (.new default twoFailures none .binary64) .creation
      [.start, .wait, .advance 1]
    (.script .finished ∈ session.incidents 0 20 ∧
        (session.goOn 20).ending? 0 = some (.failed (.of "ValueError" ["x"]))) ∧
      session.TakesLate 0 ("a", 0) (.of "ValueError" ["x"]) ∧
      (session.remarks 20).of 0 =
        [lateRecord session.linting.name ("a", 0) (.of "ValueError" ["x"])] := by
  intro session
  have done : .script .finished ∈ session.incidents 0 20 := by decide +kernel
  have failed : (session.goOn 20).ending? 0 = some (.failed (.of "ValueError" ["x"])) := by
    decide +kernel
  exact ⟨⟨done, failed⟩, late_failure (by decide) (by decide) done failed, by decide +kernel⟩

/-- An instance that is done and fails at once: nothing can ever happen again, no warning has been
logged by the linting, and the reporter has ignored the failure. -/
theorem unremarked_of_prompt_failure :
    let session := Session.new (.new default [("a", [.custom ⟨[], some [.act .finish,
      .act (.fail (.of "ValueError" ["x"]))]⟩])] none .binary64) .creation [.start, .wait, .advance 1]
    (.script .finished ∈ session.incidents 0 9 ∧
        (session.goOn 9).ending? 0 = some (.failed (.of "ValueError" ["x"]))) ∧
      (session.goOn 9).IsExhausted ∧ (session.goOn 9).remarked = [] ∧
      Reporter.droppedRecord "a" "ValueError: x" ∈ (session.goOn 9).log := by
  unfold Session.IsExhausted
  refine ⟨⟨?_, ?_⟩, ?_, ?_, ?_⟩ <;> decide +kernel

end Linting
end MarkupLint
