import MarkupLint.Proofs.Linting.Completion
import MarkupLint.Proofs.Linting.Deadlock
import MarkupLint.Proofs.Linting.Immediate
import MarkupLint.Proofs.Linting.Mishap

/-!
# Whom the linting blames

The linting adds at most one report of its own to those of an instance: the report of the mishap that
comes before the reporter is done.  It is the last report of the instance, and those before are kept.
-/

namespace MarkupLint
namespace Linting

namespace Incident

end Incident

open Incident

section

variable {timeout? : Option Binary64} {key : String × Int} {incidents : List Incident}

end

/-- What happens with the member with an index in a turn. -/
def turnIncidents (linting : Linting) (now : Rat) (index : Nat) (turn : Turn) : List Incident :=
  match linting.members[index]?, turn with
  | some member, .run =>
    if linting.phase = .scheduled ∧ index ∈ linting.invokees now then
      member.invocationIncidents linting.toSetting now
    else []
  | some member, .member other own =>
    if other = index then member.incidents linting.toSetting now own else []
  | none, _ => []

theorem callees_isPrefix (goesOn : Nat → Bool) (indices : List Nat) :
    callees goesOn indices <+: indices := by
  induction indices with
  | nil => exact List.prefix_rfl
  | cons first rest ih =>
    rw [callees]
    split
    · exact (List.prefix_cons_inj first).mpr ih
    · exact ⟨rest, rfl⟩

theorem nodup_invokees (linting : Linting) (now : Rat) : (linting.invokees now).Nodup :=
  List.nodup_range.sublist (callees_isPrefix _ _).sublist

/-- The uses of reporters, one after another, tell how each of them is used. -/
theorem Account.of_flatMap
    {account : Nat → Account}
    {uses : Nat → List Reporter.Effect}
    (own : ∀ index, account index = (uses index).map (index, ·))
    {indices : List Nat}
    (once : indices.Nodup)
    (index : Nat) :
    Account.of (indices.flatMap account) index = if index ∈ indices then uses index else [] := by
  induction indices with
  | nil => rfl
  | cons first rest ih =>
    rw [List.nodup_cons] at once
    rw [List.flatMap_cons, Account.of_append, own, Account.of_map, ih once.2]
    by_cases same : first = index
    · subst same
      simp [once.1]
    · simp [same, Ne.symm same]

/-- The incidents of a member in a turn tell how its reporter is used in the turn. -/
theorem filterMap_use?_turnIncidents (linting : Linting) (now : Rat) (index : Nat) (turn : Turn) :
    (linting.turnIncidents now index turn).filterMap Incident.use? =
      (linting.turnUses now turn).of index := by
  cases turn with
  | run =>
    have own : ∀ other, linting.invocationUses now other =
        ((linting.members[other]?.map fun member =>
          Member.uses (member.invoke linting.toSetting now).1.effects).getD []).map (other, ·) := by
      intro other
      unfold invocationUses
      split
      · next known => simp [known, usesIn]
      · next unknown => simp [unknown]
    simp only [turnIncidents, turnUses]
    by_cases scheduled : linting.phase = .scheduled
    · rw [if_pos scheduled, Account.of_flatMap own (linting.nodup_invokees now)]
      cases known : linting.members[index]? with
      | none => simp
      | some member =>
        by_cases called : index ∈ linting.invokees now
        · simp [scheduled, called, Member.filterMap_use?_invocationIncidents]
        · simp [called]
    · rw [if_neg scheduled]
      split <;> simp_all [Account.of]
  | member other own =>
    by_cases same : other = index
    · subst same
      simp only [turnIncidents, turnUses]
      cases known : linting.members[other]? with
      | none => rfl
      | some member => simp [usesIn, Account.of_map, Member.filterMap_use?_incidents]
    · have silent : (linting.turnUses now (.member other own)).of index = [] := by
        simp only [turnUses]
        split
        · rw [usesIn, Account.of_map, if_neg same]
        · rfl
      rw [silent]
      cases known : linting.members[index]? <;> simp [turnIncidents, known, same]

/-- When members are invoked one after another, each that is called goes through its invocation. -/
theorem Entering.getElem?_invokeAll
    {linting : Linting}
    {progress : Progress}
    {indices : List Nat}
    {index : Nat}
    {member : Member}
    (entering : Entering linting progress)
    (once : indices.Nodup)
    (untouched : ∀ other ∈ indices, progress.linting.members[other]? = linting.members[other]?)
    (known : progress.linting.members[index]? = some member)
    (now : Rat) :
    (progress.invokeAll now indices).1.linting.members[index]? =
      some (if index ∈ callees (linting.goesOn now) indices then
        (member.invoke linting.toSetting now).1.member else member) := by
  induction indices generalizing progress with
  | nil => exact known
  | cons first rest ih =>
    rw [List.nodup_cons] at once
    have goes := entering.goesOn_eq (untouched first List.mem_cons_self) now
    simp only [Progress.invokeAll, goes, mem_callees_cons]
    by_cases same : first = index
    · subst same
      have called : (progress.invoke first now).1.linting.members[first]? =
          some (member.invoke linting.toSetting now).1.member := by
        cases progress.invoked first now with
        | nobody unknown => simp [known] at unknown
        | member actor record found same =>
          cases known.symm.trans found
          have followed := @Progress.followed_follow (progress.emit (.invoked first record)) first
            member _ known (member.conduct_invoke progress.linting.toSetting now)
          rw [same, followed.members_eq, List.getElem?_set_self, entering.setting_eq]
          exact (List.getElem?_eq_some_iff.mp known).1
      rw [if_pos (Or.inl rfl)]
      split
      · rw [members_invokeAll once.1, called]
      · exact called
    · have still : (progress.invoke first now).1.linting.members[index]? = some member := by
        rw [members_invoke same, known]
      simp only [Ne.symm same, false_or]
      split
      · next goes =>
        simp only [goes, true_and]
        refine ih (entering.invoke first now) once.2 (fun other later => ?_) still
        rw [members_invoke_of_mem once.1 later]
        exact untouched other (List.mem_cons_of_mem _ later)
      · next stops => simpa [stops] using still

/-- When the run begins, each member that is called goes through its invocation. -/
theorem getElem?_begin
    {linting : Linting}
    {index : Nat}
    {member : Member}
    (balanced : Balanced linting)
    (scheduled : linting.phase = .scheduled)
    (known : linting.members[index]? = some member)
    (now : Rat) :
    ((Progress.start linting).begin now).linting.members[index]? =
      some (if index ∈ linting.invokees now then (member.invoke linting.toSetting now).1.member
        else member) := by
  have invoked : ((Progress.start linting).invokeEvery now).1.linting.members[index]? = _ :=
    (Entering.enter balanced scheduled).getElem?_invokeAll List.nodup_range (fun _ _ => rfl) known now
  cases (Progress.start linting).begun now with
  | stopped failure stops same =>
    rw [same]
    exact invoked
  | waiting goesOn some same =>
    rw [same]
    exact invoked
  | finished goesOn none same =>
    rw [same, Progress.linting_finish]
    exact invoked

/-- What happens with a member in a turn of the linting is recounted. -/
theorem recounted_take
    {linting : Linting}
    {index : Nat}
    {member : Member}
    {incidents : List Incident}
    (recounted : Recounted linting.timeout? member incidents)
    (balanced : Balanced linting)
    (unstopped : linting.Unstopped)
    (known : linting.members[index]? = some member)
    (now : Rat)
    (turn : Turn) :
    ∃ after, (linting.take now turn).linting.members[index]? = some after ∧
      Recounted linting.timeout? after (incidents ++ linting.turnIncidents now index turn) := by
  cases taken linting now turn with
  | nothing idle nobody same =>
    have silent : linting.turnIncidents now index turn = [] := by
      cases turn with
      | run => simp [turnIncidents, known, (idle rfl).1]
      | member other own =>
        have different : other ≠ index := by
          rintro rfl
          simp [nobody other own rfl] at known
        simp [turnIncidents, known, different]
    rw [same, silent, List.append_nil]
    exact ⟨member, known, recounted⟩
  | begin isRun scheduled same =>
    subst isRun
    refine ⟨_, same ▸ getElem?_begin balanced scheduled known now, ?_⟩
    simp only [turnIncidents, known, scheduled, true_and]
    split
    · have early : linting.phase.isEarly = true := by rw [scheduled]; rfl
      have held := List.mem_of_getElem? known
      have goes : linting.goesOn now index = true :=
        List.all_eq_true.mp (unstopped.goesThrough early now) index
          (List.mem_range.mpr (List.getElem?_eq_some_iff.mp known).1)
      exact recounted.invoke (balanced.untouched early member held)
        ((linting.goesOn_iff now index).mp goes member known) now
    · rw [List.append_nil]
      exact recounted
  | finish isRun settled same =>
    subst isRun
    rw [same, Progress.linting_finish]
    refine ⟨member, known, ?_⟩
    simpa [turnIncidents, known, settled] using recounted
  | member other own actor isMember found same =>
    have followed := @Progress.followed_follow (.start linting) other actor _ found
      (actor.conduct_take linting.toSetting now own)
    subst isMember
    rw [same, followed.members_eq, Progress.linting_start]
    by_cases here : other = index
    · subst here
      cases found.symm.trans known
      refine ⟨_, List.getElem?_set_self (List.getElem?_eq_some_iff.mp known).1, ?_⟩
      simp only [turnIncidents, known, if_true]
      exact recounted.take now own
    · rw [List.getElem?_set_ne here]
      refine ⟨member, known, ?_⟩
      simpa [turnIncidents, known, here] using recounted

namespace Session

/-- What happens with the member with an index in the next turn, if there is one. -/
def nextIncidents (session : Session) (index : Nat) : List Incident :=
  match session.schedule.next? with
  | some (.linting turn, schedule) => session.linting.turnIncidents schedule.now index turn
  | _ => []

/-- What happens with the member with an index in at most the given number of turns. -/
def incidents (index : Nat) : Nat → Session → List Incident
  | 0, _ => []
  | turns + 1, session =>
    session.nextIncidents index ++
      match session.step? with
      | none => []
      | some later => incidents index turns later

theorem nextIncidents_of_isExhausted
    {session : Session}
    (exhausted : session.IsExhausted)
    (index : Nat) :
    session.nextIncidents index = [] := by
  have stuck : session.schedule.next? = none := Option.map_eq_none_iff.mp exhausted
  simp only [nextIncidents, stuck]

theorem incidents_of_isExhausted
    {session : Session}
    (exhausted : session.IsExhausted)
    (index turns : Nat) :
    session.incidents index turns = [] := by
  have stuck : session.step? = none := exhausted
  cases turns with
  | zero => rfl
  | succ turns => simp only [incidents, stuck, nextIncidents_of_isExhausted exhausted, List.append_nil]

theorem incidents_add (session : Session) (index turns more : Nat) :
    session.incidents index (turns + more) =
      session.incidents index turns ++ (session.goOn turns).incidents index more := by
  induction turns generalizing session with
  | zero => rw [Nat.zero_add, goOn, incidents, List.nil_append]
  | succ turns ih =>
    rw [Nat.succ_add, incidents, incidents, goOn, List.append_assoc]
    cases stepped : session.step? with
    | some later => exact congrArg _ (ih later)
    | none => simp only [incidents_of_isExhausted stepped, List.append_nil]

/-- What has happened with a member stays so. -/
theorem mem_incidents_of_le
    {session : Session}
    {index : Nat}
    {incident : Incident}
    {early late : Nat}
    (known : incident ∈ session.incidents index early)
    (behind : early ≤ late) :
    incident ∈ session.incidents index late := by
  obtain ⟨more, rfl⟩ := Nat.exists_eq_add_of_le behind
  rw [incidents_add]
  exact List.mem_append_left _ known

/-- The incidents of a member tell how its reporter is used. -/
theorem filterMap_use?_incidents (session : Session) (index turns : Nat) :
    (session.incidents index turns).filterMap Incident.use? = (session.account turns).of index := by
  have next : ∀ session : Session, (session.nextIncidents index).filterMap Incident.use? =
      session.nextUses.of index := by
    intro session
    unfold nextIncidents nextUses
    cases session.schedule.next? with
    | none => rfl
    | some next =>
      obtain ⟨turn, schedule⟩ := next
      cases turn with
      | linting turn => exact filterMap_use?_turnIncidents _ _ _ _
      | _ => rfl
  induction turns generalizing session with
  | zero => rfl
  | succ turns ih =>
    rw [incidents, account, List.filterMap_append, Account.of_append, next]
    cases session.step? with
    | none => rfl
    | some later => exact congrArg _ (ih later)

/-- A session that brings its run to its end, with the incidents of the member with an index. -/
structure Recorded
    (timeout? : Option Binary64)
    (index : Nat)
    (session : Session)
    (incidents : List Incident) :
    Prop where
  diligent : session.Diligent
  timeout_eq : session.linting.timeout? = timeout?
  recounted : ∃ member, session.linting.members[index]? = some member ∧
    Recounted timeout? member incidents

namespace Recorded

variable {timeout? : Option Binary64} {index : Nat} {session later : Session}
  {incidents : List Incident}

theorem step
    (recorded : Recorded timeout? index session incidents)
    (stepped : session.step? = some later) :
    Recorded timeout? index later (incidents ++ session.nextIncidents index) := by
  obtain ⟨diligent, timeout_eq, member, known, recounted⟩ := recorded
  have still := diligent.step stepped
  obtain ⟨⟨turn, schedule⟩, next, rfl⟩ := Option.map_eq_some_iff.mp stepped
  cases turn with
  | linting turn =>
    subst timeout_eq
    simp only [nextIncidents, next, Session.take] at still ⊢
    refine ⟨still, ?_, ?_⟩
    · rw [linting_follow]
      exact congrArg (·.timeout?) (setting_take session.linting schedule.now turn)
    · rw [linting_follow]
      exact recounted_take recounted diligent.balanced diligent.unstopped known schedule.now turn
  | caller =>
    have same := (Requested.resume { session with schedule := schedule }).same
    simp only [nextIncidents, next, List.append_nil]
    refine ⟨still, ?_, member, ?_, recounted⟩
    · rw [Session.take, same]
      exact timeout_eq
    · rw [Session.take, same]
      exact known
  | wakeCaller =>
    simp only [nextIncidents, next, List.append_nil]
    exact ⟨still, timeout_eq, member, known, recounted⟩

theorem goOn
    (recorded : Recorded timeout? index session incidents)
    (turns : Nat) :
    Recorded timeout? index (session.goOn turns) (incidents ++ session.incidents index turns) := by
  induction turns generalizing session incidents with
  | zero =>
    rw [Session.incidents, List.append_nil]
    exact recorded
  | succ turns ih =>
    simp only [Session.goOn, Session.incidents]
    cases stepped : session.step? with
    | none =>
      simp only [nextIncidents_of_isExhausted stepped, List.append_nil]
      exact recorded
    | some later =>
      rw [← List.append_assoc]
      exact ih (recorded.step stepped)

/-- In a new session, nothing has happened. -/
theorem new
    {document : Document}
    {rules : RuleSet}
    {precision : Precision}
    {precedence : Precedence SessionTurn}
    {key : String × Int}
    (contained : rules.IsContained document)
    (known : rules.instanceKeys[index]? = some key)
    (requests : List Request) :
    Recorded timeout? index (.new (.new document rules timeout? precision) precedence requests) [] where
  diligent := Diligent.new contained requests
  timeout_eq := rfl
  recounted := by
    rw [← @keys_new document rules timeout? precision, keys, List.getElem?_map] at known
    obtain ⟨member, found, -⟩ := Option.map_eq_some_iff.mp known
    refine ⟨member, found, ?_⟩
    obtain ⟨rule, number, script, rfl⟩ := (Balanced.new document rules timeout? precision).untouched
      rfl member (List.mem_of_getElem? found)
    exact .running [] rfl rfl

end Recorded

/-- The diagnostics that are attributed to an instance are the reports that are delivered to its
reporter. -/
theorem attributed_goOn
    {document : Document}
    {rules : RuleSet}
    {timeout? : Option Binary64}
    {precision : Precision}
    {precedence : Precedence SessionTurn}
    {index : Nat}
    {key : String × Int}
    (distinct : rules.keys.Nodup)
    (known : rules.instanceKeys[index]? = some key)
    (requests : List Request)
    (turns : Nat) :
    let session := Session.new (.new document rules timeout? precision) precedence requests
    (session.goOn turns).linting.diagnostics.attributed key =
      Reporter.delivered ((session.account turns).of index) := by
  intro session
  have orderly : session.Orderly :=
    (@Session.Unbegun.new document rules timeout? precision precedence distinct requests).toOrderly
  have accounted : Accounted (session.goOn turns).linting (session.account turns) := by
    rw [← List.nil_append (session.account turns)]
    exact Session.accounted_goOn (.new document rules timeout? precision) orderly turns
  have keys_eq : (session.goOn turns).linting.keys = rules.instanceKeys :=
    (Session.keys_goOn session turns).trans keys_new
  rw [← Account.filter_reports (fun index report told => keys_eq ▸ accounted.getElem?_keys told)
    (nodup_instanceKeys distinct) known, Collection.attributed_eq, accounted.group_eq,
    List.filter_filter]
  refine List.filter_congr fun report _ => ?_
  rw [Bool.eq_iff_iff]
  simp [Diagnostic.key, Prod.ext_iff, and_comm]

end Session

end Linting
end MarkupLint
