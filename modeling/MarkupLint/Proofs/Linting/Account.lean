import MarkupLint.Proofs.Linting.Ending
import MarkupLint.Proofs.Reporter

/-!
# The account of a session

The account of a session tells how the members use their reporters, in the order in which they do.
The diagnostics of the session are the reports of the account, each in the group of its rule: none
is lost, none is there twice, and none is attributed to another instance.
-/

namespace MarkupLint
namespace Linting

theorem Member.delivered_eq (effects : List Member.Effect) :
    Member.delivered effects = Reporter.delivered (Member.uses effects) := by
  induction effects with
  | nil => rfl
  | cons effect rest ih =>
    rw [Member.uses_cons, Reporter.delivered_append, ← ih]
    cases effect with
    | log record =>
      simp only [Member.Effect.use?]
      split <;> rfl
    | _ => rfl

/-- Uses of reporters, each with the index of the member whose reporter it is. -/
abbrev Account := List (Nat × Reporter.Effect)

namespace Account

/-- The uses of the reporter of the member with an index, in order. -/
def of (account : Account) (index : Nat) : List Reporter.Effect :=
  account.filterMap fun use => if use.1 = index then some use.2 else none

/-- The reports that are delivered, in order. -/
def reports (account : Account) : List Diagnostic := Reporter.delivered (account.map (·.2))

theorem of_append (first second : Account) (index : Nat) :
    of (first ++ second) index = first.of index ++ second.of index :=
  List.filterMap_append

theorem reports_append (first second : Account) :
    reports (first ++ second) = first.reports ++ second.reports := by
  rw [reports, List.map_append, Reporter.delivered_append]
  rfl

theorem mem_reports {account : Account} {report : Diagnostic} :
    report ∈ account.reports ↔ ∃ index, (index, .delivered report) ∈ account := by
  simp only [reports, Reporter.delivered, List.mem_filterMap, List.mem_map]
  constructor
  · rintro ⟨effect, ⟨use, told, rfl⟩, same⟩
    split at same
    · next effect_eq =>
      cases same
      exact ⟨use.1, effect_eq ▸ told⟩
    · contradiction
  · rintro ⟨index, told⟩
    exact ⟨_, ⟨_, told, rfl⟩, rfl⟩

theorem of_map (index other : Nat) (effects : List Reporter.Effect) :
    of (effects.map (index, ·)) other = if index = other then effects else [] := by
  simp only [of, List.filterMap_map, Function.comp_def]
  split
  · exact List.filterMap_some
  · simp

theorem reports_map (index : Nat) (effects : List Reporter.Effect) :
    reports (effects.map (index, ·)) = Reporter.delivered effects := by
  simp [reports]

/-- When the reports bear the keys of the members that make them, those with the key of a member are
the reports of that member. -/
theorem filter_reports
    {account : Account}
    {keys : List (String × Int)}
    {index : Nat}
    {key : String × Int}
    (own : ∀ index report, (index, .delivered report) ∈ account → keys[index]? = some report.key)
    (distinct : keys.Nodup)
    (known : keys[index]? = some key) :
    account.reports.filter (·.key = key) = Reporter.delivered (account.of index) := by
  induction account with
  | nil => rfl
  | cons use rest ih =>
    obtain ⟨other, effect⟩ := use
    have others := ih fun index report told => own index report (List.mem_cons_of_mem _ told)
    have first : (reports [(other, effect)]).filter (·.key = key) =
        Reporter.delivered (of [(other, effect)] index) := by
      cases effect with
      | delivered report =>
        have named := own other report List.mem_cons_self
        by_cases same : other = index
        · subst same
          rw [known] at named
          simp [reports, of, Reporter.delivered, ← Option.some.inj named]
        · have different : report.key ≠ key := by
            rintro rfl
            have bound := (List.getElem?_eq_some_iff.mp named).1
            exact same ((List.getElem?_inj bound distinct).mp (named.trans known.symm))
          simp [reports, of, Reporter.delivered, same, different]
      | _ =>
        simp only [of, List.filterMap_cons]
        split
        · rfl
        · next same =>
          split at same
          · cases same
            rfl
          · contradiction
    rw [← List.singleton_append, reports_append, of_append, List.filter_append,
      Reporter.delivered_append, first, others]

end Account

/-- How a member uses its reporter in a turn. -/
def usesIn (index : Nat) (course : Member.Course) : Account :=
  (Member.uses course.effects).map (index, ·)

/-- How the member with an index uses its reporter when it is invoked at an instant. -/
def invocationUses (linting : Linting) (now : Rat) (index : Nat) : Account :=
  match linting.members[index]? with
  | some member => usesIn index (member.invoke linting.toSetting now).1
  | none => []

/-- How the members use their reporters in a turn. -/
def turnUses (linting : Linting) (now : Rat) : Turn → Account
  | .run =>
    if linting.phase = .scheduled then
      (linting.invokees now).flatMap (linting.invocationUses now)
    else []
  | .member index turn =>
    match linting.members[index]? with
    | some member => usesIn index (member.take linting.toSetting now turn)
    | none => []

namespace Session

/-- How the members use their reporters in the next turn, if there is one. -/
def nextUses (session : Session) : Account :=
  match session.schedule.next? with
  | some (.linting turn, schedule) => session.linting.turnUses schedule.now turn
  | _ => []

/-- How the members use their reporters in at most the given number of turns. -/
def account : Nat → Session → Account
  | 0, _ => []
  | turns + 1, session =>
    session.nextUses ++
      match session.step? with
      | none => []
      | some later => account turns later

end Session

/-- A linting holds what an account tells: the reporters have been used so, and the diagnostics are
the reports, each in the group of its rule. -/
structure Accounted (linting : Linting) (account : Account) : Prop where
  known : ∀ use ∈ account, use.1 < linting.members.length
  used : ∀ index member, linting.members[index]? = some member →
    (Reporter.new member.reporter.rule member.reporter.index).Used member.reporter
      (account.of index)
  group_eq : ∀ rule, linting.diagnostics.group rule = account.reports.filter (·.rule = rule)

namespace Accounted

variable {linting : Linting} {account : Account}

/-- What a member does is told. -/
theorem follow
    {after : Linting}
    {index : Nat}
    {member : Member}
    {course : Member.Course}
    (accounted : Accounted linting account)
    (balanced : Balanced linting)
    (known : linting.members[index]? = some member)
    (used : member.Used course)
    (followed : Progress.Followed linting after index course) :
    Accounted after (account ++ usesIn index course) where
  known := by
    obtain ⟨bound, -⟩ := List.getElem?_eq_some_iff.mp known
    rw [followed.members_eq, List.length_set]
    intro use told
    rcases List.mem_append.mp told with early | late
    · exact accounted.known use early
    · obtain ⟨effect, -, rfl⟩ := List.mem_map.mp late
      exact bound
  used := by
    intro other later found
    rw [Account.of_append, usesIn, Account.of_map]
    rw [followed.members_eq, List.getElem?_set] at found
    split at found
    · next same =>
      subst same
      split at found
      · cases found
        rw [if_pos rfl, used.used.conduct.rule_eq, used.used.conduct.index_eq]
        exact (accounted.used index member known).trans used.used
      · contradiction
    · next different =>
      rw [if_neg different, List.append_nil]
      exact accounted.used other later found
  group_eq := by
    intro rule
    rw [followed.diagnostics_eq, Account.reports_append, usesIn, Account.reports_map,
      ← Member.delivered_eq, List.filter_append, ← accounted.group_eq]
    cases frozen : linting.diagnostics.isFrozen with
    | false => exact Collection.group_foldl_accept frozen _ rule
    | true =>
      have finished := balanced.isFinished_of_isClosed (balanced.isFrozen_eq.symm.trans frozen)
        member (List.mem_of_getElem? known)
      rw [used.conduct.delivered_eq_nil finished, List.foldl_nil, List.filter_nil, List.append_nil]

/-- Only the members and the diagnostics matter. -/
theorem congr
    {after : Linting}
    (accounted : Accounted linting account)
    (members_eq : after.members = linting.members)
    (group_eq : ∀ rule, after.diagnostics.group rule = linting.diagnostics.group rule) :
    Accounted after account where
  known := members_eq ▸ accounted.known
  used := members_eq ▸ accounted.used
  group_eq rule := (group_eq rule).trans (accounted.group_eq rule)

theorem finish
    {progress : Progress}
    (accounted : Accounted progress.linting account) :
    Accounted progress.finish.linting account := by
  rw [Progress.linting_finish]
  exact accounted.congr rfl fun _ => rfl

/-- What the members do when they are invoked one after another is told. -/
theorem invokeAll
    {progress : Progress}
    {indices : List Nat}
    (accounted : Accounted progress.linting account)
    (entering : Entering linting progress)
    (once : indices.Nodup)
    (untouched : ∀ index ∈ indices, progress.linting.members[index]? = linting.members[index]?)
    (now : Rat) :
    Accounted (progress.invokeAll now indices).1.linting
      (account ++ (callees (linting.goesOn now) indices).flatMap (linting.invocationUses now)) := by
  induction indices generalizing progress account with
  | nil =>
    rw [callees, List.flatMap_nil, List.append_nil]
    exact accounted
  | cons first rest ih =>
    rw [List.nodup_cons] at once
    have found := untouched first List.mem_cons_self
    have goes := entering.goesOn_eq found now
    have invoked : Accounted (progress.invoke first now).1.linting
        (account ++ linting.invocationUses now first) := by
      cases progress.invoked first now with
      | nobody unknown same =>
        rw [found] at unknown
        simp only [same, invocationUses, unknown, List.append_nil]
        exact accounted
      | member member record known same =>
        have called := member.used_invoke progress.linting.toSetting now
        have followed := @Progress.followed_follow (progress.emit (.invoked first record)) first
          member _ known called.conduct
        rw [same, invocationUses, ← found, known, ← entering.setting_eq]
        exact accounted.follow entering.balanced known called followed
    simp only [Progress.invokeAll, goes, callees, List.flatMap_cons, ← List.append_assoc]
    split
    · refine ih invoked (entering.invoke first now) once.2 fun index later => ?_
      rw [Entering.members_invoke_of_mem once.1 later]
      exact untouched index (List.mem_cons_of_mem _ later)
    · rw [List.flatMap_nil, List.append_nil]
      exact invoked

/-- What the members do when the run begins is told. -/
theorem begin
    (accounted : Accounted linting account)
    (balanced : Balanced linting)
    (scheduled : linting.phase = .scheduled)
    (now : Rat) :
    Accounted ((Progress.start linting).begin now).linting
      (account ++ (linting.invokees now).flatMap (linting.invocationUses now)) := by
  have entered : Accounted (Progress.start linting).enter.linting account :=
    accounted.congr rfl fun _ => rfl
  have invoked : Accounted ((Progress.start linting).invokeEvery now).1.linting
      (account ++ (linting.invokees now).flatMap (linting.invocationUses now)) :=
    entered.invokeAll (Entering.enter balanced scheduled) List.nodup_range (fun _ _ => rfl) now
  cases (Progress.start linting).begun now with
  | stopped failure stops same =>
    rw [same]
    exact invoked.congr rfl fun _ => rfl
  | waiting goesOn some same =>
    rw [same]
    exact invoked.congr rfl fun _ => rfl
  | finished goesOn none same =>
    rw [same]
    exact invoked.finish

/-- What the members do in a turn is told. -/
theorem take
    (accounted : Accounted linting account)
    (balanced : Balanced linting)
    (now : Rat)
    (turn : Turn) :
    Accounted (linting.take now turn).linting (account ++ linting.turnUses now turn) := by
  cases taken linting now turn with
  | nothing idle nobody same =>
    have silent : linting.turnUses now turn = [] := by
      cases turn with
      | run => exact if_neg (idle rfl).1
      | member index own => simp only [turnUses, nobody index own rfl]
    rw [same, silent, List.append_nil]
    exact accounted
  | begin isRun scheduled same =>
    rw [same, isRun, turnUses, if_pos scheduled]
    exact accounted.begin balanced scheduled now
  | finish isRun settled same =>
    rw [same, isRun, turnUses, if_neg (by simp [settled]), List.append_nil]
    exact @finish account (.start linting) accounted
  | member index own member isMember known same =>
    have used := member.used_take linting.toSetting now own
    have followed := @Progress.followed_follow (.start linting) index member _ known used.conduct
    rw [same, isMember]
    simp only [turnUses, known]
    exact accounted.follow balanced known used followed

/-- A new linting has an empty account. -/
theorem new
    (document : Document)
    (rules : RuleSet)
    (timeout? : Option Binary64)
    (precision : Precision) :
    Accounted (.new document rules timeout? precision) [] where
  known := by simp
  used := by
    intro index member found
    have known := List.mem_of_getElem? found
    rw [Linting.new, List.mem_flatMap] at known
    obtain ⟨rule, -, held⟩ := known
    obtain ⟨number, configured, -, rfl⟩ := mem_membersOf.mp held
    exact .refl
  group_eq := value?_groups_new

end Accounted

namespace Session

variable {session : Session}

/-- What the members do in the next turn of a session is told. -/
theorem accounted_step
    {later : Session}
    {account : Account}
    (accounted : Accounted session.linting account)
    (balanced : Balanced session.linting)
    (stepped : session.step? = some later) :
    Accounted later.linting (account ++ session.nextUses) := by
  obtain ⟨⟨turn, schedule⟩, next, rfl⟩ := Option.map_eq_some_iff.mp stepped
  cases turn with
  | linting turn =>
    simp only [nextUses, next, Session.take, linting_follow]
    exact accounted.take balanced schedule.now turn
  | caller =>
    simp only [nextUses, next, List.append_nil]
    have untouched := untouched_resume { session with schedule := schedule }
    exact accounted.congr untouched.2.1 fun _ => congrArg (Collection.group · _) untouched.2.2
  | wakeCaller =>
    simp only [nextUses, next, List.append_nil]
    exact accounted

/-- What the members do while a session goes on is told. -/
theorem accounted_goOn
    {account : Account}
    (accounted : Accounted session.linting account)
    (orderly : session.Orderly)
    (turns : Nat) :
    Accounted (session.goOn turns).linting (account ++ session.account turns) := by
  induction turns generalizing session account with
  | zero =>
    rw [Session.account, List.append_nil]
    exact accounted
  | succ turns ih =>
    simp only [Session.goOn, Session.account]
    cases stepped : session.step? with
    | none =>
      have stuck : session.schedule.next? = none := Option.map_eq_none_iff.mp stepped
      simp only [nextUses, stuck, List.append_nil]
      exact accounted
    | some later =>
      rw [← List.append_assoc]
      exact ih (accounted_step accounted orderly.balanced stepped) (orderly.step stepped)

/-- The state of a run that has come to its end follows from the diagnostics. -/
theorem judged_goOn
    (judged : Judged session.linting)
    (orderly : session.Orderly)
    (turns : Nat) :
    Judged (session.goOn turns).linting := by
  suffices kept : Judged (session.goOn turns).linting ∧ (session.goOn turns).Orderly from kept.1
  refine @goOn_induction (fun session => Judged session.linting ∧ session.Orderly)
    (fun session later kept stepped => ⟨?_, kept.2.step stepped⟩) session ⟨judged, orderly⟩ turns
  suffices both : Balanced later.linting ∧ Judged later.linting from both.2
  refine @linting_step session (fun linting => Balanced linting ∧ Judged linting) later ?_ ?_ ?_
    stepped ⟨kept.2.balanced, kept.1⟩
  · exact fun linting both => ⟨both.1.start, both.2.start⟩
  · exact fun linting milestone observer both =>
      ⟨both.1.subscribe milestone observer, both.2.subscribe milestone observer⟩
  · exact fun linting now turn both => ⟨both.1.take now turn, both.2.take both.1 now turn⟩

end Session

/-- The diagnostics of a run that has come to its end are the reports that an account tells of. -/
structure Conserved (rules : RuleSet) (linting : Linting) (account : Account) : Prop where
  /-- There is one group for each rule, in order. -/
  rules_eq : linting.diagnostics.groups.keys = rules.keys
  /-- A group holds the reports of its rule, in order. -/
  group_eq : ∀ rule, linting.diagnostics.group rule = account.reports.filter (·.rule = rule)
  /-- Together, the groups hold every report exactly once. -/
  diagnostics_perm : linting.diagnostics.diagnostics.Perm account.reports
  /-- Only configured instances report. -/
  known : ∀ use ∈ account, use.1 < rules.instanceKeys.length
  /-- The reports that an instance makes before it is done, as many as its reporter has counted, are
  attributed to it, in order; those that it makes later are dropped. -/
  instances : ∀ index key, rules.instanceKeys[index]? = some key →
    ∃ member reports, linting.members[index]? = some member ∧
      Reporter.IsHistory (account.of index) reports true ∧
      member.reporter.activity = reports.length ∧
      (∀ report ∈ reports, report.key = key) ∧
      linting.diagnostics.attributed key = reports
  count_eq : ∀ severity, linting.diagnostics.count severity =
    account.reports.countP (·.severity == severity)
  /-- An error counts most, a warning next. -/
  state_eq : linting.state =
    if 0 < linting.diagnostics.count .error then .error
    else if 0 < linting.diagnostics.count .warn then .warning
    else .passing

/-- Reports are reports of members and bear their keys. -/
theorem Accounted.getElem?_keys
    {linting : Linting}
    {account : Account}
    {index : Nat}
    {report : Diagnostic}
    (accounted : Accounted linting account)
    (told : (index, .delivered report) ∈ account) :
    linting.keys[index]? = some report.key := by
  have found := List.getElem?_eq_getElem (accounted.known _ told)
  have delivered : .delivered report ∈ account.of index :=
    List.mem_filterMap.mpr ⟨_, told, if_pos rfl⟩
  obtain ⟨rule_eq, index_eq⟩ := (accounted.used index _ found).conduct.attributed report delivered
  rw [Linting.getElem?_keys found, Member.key, Diagnostic.key, rule_eq, index_eq]
  rfl

/-- No diagnostic is lost, duplicated or misattributed: when a run has come to its end, the groups,
one for each rule, hold the reports that the instances made before they were done, and the state
follows from them. -/
theorem conservation
    {document : Document}
    {rules : RuleSet}
    {timeout? : Option Binary64}
    {precision : Precision}
    {precedence : Precedence SessionTurn}
    {requests : List Request}
    {turns : Nat}
    (distinct : rules.keys.Nodup)
    (terminal : ((Session.new (.new document rules timeout? precision) precedence requests).goOn
      turns).linting.state.isTerminal = true) :
    let session := Session.new (.new document rules timeout? precision) precedence requests
    Conserved rules (session.goOn turns).linting (session.account turns) := by
  intro session
  have unbegun := @Session.Unbegun.new document rules timeout? precision precedence distinct requests
  have orderly : (session.goOn turns).Orderly := unbegun.toOrderly.goOn turns
  have closed : (session.goOn turns).linting.phase.isClosed = true :=
    orderly.balanced.isTerminal_eq.symm.trans terminal
  have accounted : Accounted (session.goOn turns).linting (session.account turns) := by
    rw [← List.nil_append (session.account turns)]
    exact Session.accounted_goOn (.new document rules timeout? precision) unbegun.toOrderly turns
  have judged : Judged (session.goOn turns).linting :=
    Session.judged_goOn (fun closed => by contradiction) unbegun.toOrderly turns
  have keys_eq : (session.goOn turns).linting.keys = rules.instanceKeys :=
    (Session.keys_goOn session turns).trans keys_new
  have rules_eq : (session.goOn turns).linting.diagnostics.groups.keys = rules.keys :=
    Session.keys_groups_goOn distinct requests turns
  have own : ∀ index report, (index, .delivered report) ∈ session.account turns →
      rules.instanceKeys[index]? = some report.key :=
    fun index report told => keys_eq ▸ accounted.getElem?_keys told
  have perm : (session.goOn turns).linting.diagnostics.diagnostics.Perm
      (session.account turns).reports := by
    have grouped : (session.goOn turns).linting.diagnostics.diagnostics =
        rules.keys.flatMap fun rule => (session.account turns).reports.filter (·.rule = rule) := by
      rw [Collection.diagnostics, Table.flatMap_eq (rules_eq ▸ distinct), rules_eq]
      exact List.flatMap_congr fun rule _ => accounted.group_eq rule
    rw [grouped]
    refine perm_flatMap_filter distinct fun report made => ?_
    obtain ⟨index, told⟩ := Account.mem_reports.mp made
    exact mem_keys_of_mem_instanceKeys (List.mem_of_getElem? (own index report told))
  refine ⟨rules_eq, accounted.group_eq, perm, ?_, ?_, ?_, ?_⟩
  · intro use told
    rw [← keys_eq, keys, List.length_map]
    exact accounted.known use told
  · intro index key known
    obtain ⟨bound, -⟩ := List.getElem?_eq_some_iff.mp (keys_eq ▸ known)
    rw [keys, List.length_map] at bound
    have found := List.getElem?_eq_getElem bound
    have finished := orderly.balanced.isFinished_of_isClosed closed _ (List.getElem_mem bound)
    obtain ⟨reports, history, activity_eq⟩ := (accounted.used index _ found).exists_isHistory rfl
    rw [finished] at history
    have filtered := Account.filter_reports own (nodup_instanceKeys distinct) known
    rw [history.delivered_eq] at filtered
    refine ⟨_, reports, found, history, ?_, fun report made => ?_, ?_⟩
    · rw [activity_eq, Reporter.new, Nat.zero_add]
    · rw [← filtered] at made
      simpa using List.of_mem_filter made
    · rw [← filtered, Collection.attributed_eq, accounted.group_eq, List.filter_filter]
      refine List.filter_congr fun report _ => ?_
      rw [Bool.eq_iff_iff]
      simp [Diagnostic.key, Prod.ext_iff, and_comm]
  · exact fun severity => perm.countP_eq _
  · rw [judged closed]
    exact Collection.state_eq _

/-- A rule with two instances, one of which reports again when it is done while the other one fails
behind a sleep, and a rule without instances. -/
def hastyAndFailing : RuleSet :=
  [("hasty",
    [.custom ⟨[.report .warn "early" .nothing, .finish, .report .error "late" .nothing], none⟩,
      .custom ⟨[], some [.sleep 1 [] false, .act (.fail (.of "ValueError" ["no"]))]⟩]),
    ("empty", [])]

/-- The report that came too late is not among the diagnostics. -/
theorem conservation_of_hasty_and_failing :
    let session := Session.new (.new default hastyAndFailing none .binary64) .creation [.start, .wait]
    (session.goOn 30).linting.state.isTerminal = true ∧
      Conserved hastyAndFailing (session.goOn 30).linting (session.account 30) ∧
      (session.account 30).of 0 =
        [.delivered ⟨"hasty", 0, .warn, "early", none⟩, .finished,
          .dropped (Reporter.droppedRecord "hasty" "late")] := by
  have terminal :
      ((Session.new (.new default hastyAndFailing none .binary64) .creation [.start, .wait]).goOn
      30).linting.state.isTerminal = true := by decide +kernel
  exact ⟨terminal, conservation (by decide) terminal, by decide +kernel⟩

end Linting
end MarkupLint
