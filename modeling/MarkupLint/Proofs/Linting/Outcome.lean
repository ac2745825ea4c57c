import MarkupLint.Proofs.Linting.Ending
import MarkupLint.Proofs.Linting.Exhaustion

/-!
# Outcomes

How long the instances sleep does not matter for the outcome of a run without a bound on idleness:
rule sets that differ in the durations of sleeps only lead to the same state, the same counts, the
same groups, and the same diagnostics of each instance.
-/

namespace MarkupLint

namespace Linting

/-- The rules with the scripts of their instances on a document, without the durations of sleeps. -/
def RuleSet.untimed (rules : RuleSet) (document : Document) : Table (List Script) :=
  rules.map fun rule =>
    (rule.1, rule.2.map fun configured => (configured.script document).untimed)

/-- Two lintings that have come to the same outcome: only the diagnostics of different instances of
one rule may be interleaved differently. -/
structure SameOutcome (first second : Linting) : Prop where
  /-- The run has come to its end in both, or in neither. -/
  isAnswered_eq : first.phase.isAnswered = second.phase.isAnswered
  state_eq : first.state = second.state
  count_eq : ∀ severity, first.diagnostics.count severity = second.diagnostics.count severity
  rules_eq : first.diagnostics.groups.keys = second.diagnostics.groups.keys
  attributed_eq : ∀ key, first.diagnostics.attributed key = second.diagnostics.attributed key
  group_perm : ∀ rule, (first.diagnostics.group rule).Perm (second.diagnostics.group rule)

/-- The member without the durations of its sleeps. -/
def Member.untimed (member : Member) : Member := { member with script := member.script.untimed }

/-- Two lintings whose members differ in the durations of their sleeps only. -/
structure Retimed (first second : Linting) : Prop where
  document_eq : first.document = second.document
  members_eq : first.members.map Member.untimed = second.members.map Member.untimed

/-- What is to be expected of a member when the run begins at an instant. -/
def promise (linting : Linting) (now : Rat) (index : Nat) (member : Member) : Prospect :=
  if index ∈ linting.invokees now then member.script.prospect linting.document member.reporter
  else ⟨[], false⟩

namespace Retimed

variable {first second : Linting}

theorem symm (retimed : Retimed first second) : Retimed second first :=
  ⟨retimed.document_eq.symm, retimed.members_eq.symm⟩

theorem length_eq (retimed : Retimed first second) :
    first.members.length = second.members.length := by
  simpa using congrArg List.length retimed.members_eq

theorem keys_eq (retimed : Retimed first second) : first.keys = second.keys := by
  have keys_untimed : ∀ members : List Member,
      members.map Member.key = (members.map Member.untimed).map Member.key := by
    intro members
    rw [List.map_map]
    rfl
  rw [keys, keys, keys_untimed, retimed.members_eq, ← keys_untimed]

theorem exists_member
    {index : Nat}
    {member : Member}
    (retimed : Retimed first second)
    (known : first.members[index]? = some member) :
    ∃ other, second.members[index]? = some other ∧ other.reporter = member.reporter ∧
      other.script.untimed = member.script.untimed := by
  have same := congrArg (·[index]?) retimed.members_eq
  simp only [List.getElem?_map, known, Option.map_some] at same
  obtain ⟨other, found, untimed_eq⟩ := Option.map_eq_some_iff.mp same.symm
  have reporter_eq := congrArg Member.reporter untimed_eq
  have script_eq := congrArg Member.script untimed_eq
  exact ⟨other, found, reporter_eq, script_eq⟩

theorem goesOn_of_goesOn
    {now : Rat}
    {index : Nat}
    (retimed : Retimed first second)
    (goes : first.goesOn now index = true)
    (later : Rat) :
    second.goesOn later index = true := by
  rw [goesOn_iff] at goes ⊢
  intro other found
  obtain ⟨member, known, -, untimed_eq⟩ := retimed.symm.exists_member found
  rw [← Script.escape?_eq_of_untimed untimed_eq, ← retimed.document_eq]
  exact goes member known

theorem goesOn_eq (retimed : Retimed first second) (now later : Rat) :
    first.goesOn now = second.goesOn later := by
  funext index
  rw [Bool.eq_iff_iff]
  exact ⟨fun goes => retimed.goesOn_of_goesOn goes later,
    fun goes => retimed.symm.goesOn_of_goesOn goes now⟩

theorem promise_eq
    {member other : Member}
    (retimed : Retimed first second)
    (reporter_eq : other.reporter = member.reporter)
    (untimed_eq : other.script.untimed = member.script.untimed)
    (now later : Rat)
    (index : Nat) :
    second.promise later index other = first.promise now index member := by
  rw [promise, promise, invokees, invokees, retimed.goesOn_eq now later, retimed.length_eq,
    retimed.document_eq, reporter_eq, Script.prospect_eq_of_untimed untimed_eq]

end Retimed

/-- A linting as it is when nothing can ever happen any more, compared with the new one: all that
was promised of its members has come true. -/
structure Concluded (linting last : Linting) (now : Rat) : Prop where
  keys_eq : last.keys = linting.keys
  isAnswered_eq : last.phase.isAnswered = (!linting.goesThrough now || last.isDone)
  state_eq : last.state =
    if linting.goesThrough now && last.isDone then last.diagnostics.state else .running
  promised : ∀ index member, linting.members[index]? = some member →
    ∃ final, last.members[index]? = some final ∧ linting.promise now index member =
      ⟨last.diagnostics.attributed member.key, final.reporter.isFinished⟩
  rules_eq : last.diagnostics.groups.keys = linting.diagnostics.groups.keys
  foreign : ∀ key, key ∉ linting.keys → last.diagnostics.attributed key = []

namespace Concluded

variable {first second firstLast secondLast : Linting} {now later : Rat}

theorem isDone_of_isDone
    (concluded : Concluded first firstLast now)
    (other : Concluded second secondLast later)
    (retimed : Retimed first second)
    (done : firstLast.isDone = true) :
    secondLast.isDone = true := by
  rw [isDone, List.all_eq_true] at done ⊢
  intro final held
  obtain ⟨index, found⟩ := List.mem_iff_getElem?.mp held
  have named := getElem?_keys found
  rw [other.keys_eq, keys, List.getElem?_map] at named
  obtain ⟨member, known, -⟩ := Option.map_eq_some_iff.mp named
  obtain ⟨earlier, earlierKnown, reporter_eq, untimed_eq⟩ := retimed.symm.exists_member known
  obtain ⟨same, sameFound, promised⟩ := other.promised index member known
  obtain ⟨earlierFinal, earlierFound, earlierPromised⟩ :=
    concluded.promised index earlier earlierKnown
  rw [sameFound] at found
  cases found
  have equal := retimed.symm.promise_eq reporter_eq untimed_eq later now index
  rw [promised, earlierPromised, Prospect.mk.injEq] at equal
  rw [← equal.2]
  exact done earlierFinal (List.mem_of_getElem? earlierFound)

theorem attributed_eq
    (concluded : Concluded first firstLast now)
    (other : Concluded second secondLast later)
    (retimed : Retimed first second)
    (key : String × Int) :
    firstLast.diagnostics.attributed key = secondLast.diagnostics.attributed key := by
  by_cases known : key ∈ first.keys
  · obtain ⟨member, held, rfl⟩ := List.mem_map.mp known
    obtain ⟨index, found⟩ := List.mem_iff_getElem?.mp held
    obtain ⟨twin, twinFound, reporter_eq, untimed_eq⟩ := retimed.exists_member found
    obtain ⟨_, _, promised⟩ := concluded.promised index member found
    obtain ⟨_, _, twinPromised⟩ := other.promised index twin twinFound
    have key_eq : twin.key = member.key := by rw [Member.key, Member.key, reporter_eq]
    have equal := retimed.promise_eq reporter_eq untimed_eq now later index
    rw [key_eq, equal, promised, Prospect.mk.injEq] at twinPromised
    exact twinPromised.1
  · have unknown := known
    rw [retimed.keys_eq] at unknown
    rw [concluded.foreign key known, other.foreign key unknown]

theorem sameOutcome
    (concluded : Concluded first firstLast now)
    (other : Concluded second secondLast later)
    (retimed : Retimed first second)
    (rules_eq : first.diagnostics.groups.keys = second.diagnostics.groups.keys)
    (distinct : first.diagnostics.groups.keys.Nodup) :
    SameOutcome firstLast secondLast := by
  have done : firstLast.isDone = secondLast.isDone := by
    rw [Bool.eq_iff_iff]
    exact ⟨concluded.isDone_of_isDone other retimed, other.isDone_of_isDone concluded retimed.symm⟩
  have goes : first.goesThrough now = second.goesThrough later := by
    rw [goesThrough, goesThrough, retimed.goesOn_eq now later, retimed.length_eq]
  have attributed := concluded.attributed_eq other retimed
  have groups := Collection.group_perm attributed
  have lastRules_eq : firstLast.diagnostics.groups.keys = secondLast.diagnostics.groups.keys :=
    concluded.rules_eq.trans (rules_eq.trans other.rules_eq.symm)
  have all := Collection.diagnostics_perm lastRules_eq (concluded.rules_eq ▸ distinct) groups
  refine ⟨?_, ?_, Collection.count_eq_of_perm all, lastRules_eq, attributed, groups⟩
  · rw [concluded.isAnswered_eq, other.isAnswered_eq, goes, done]
  · rw [concluded.state_eq, other.state_eq, goes, done, Collection.state_eq_of_perm all]

end Concluded

section

variable {document : Document} {rules : RuleSet} {precision : Precision}
  {precedence : Precedence SessionTurn} {requests : List Request}

theorem members_untimed :
    (Linting.new document rules none precision).members.map Member.untimed =
      (rules.untimed document).flatMap fun rule =>
        rule.2.mapIdx fun index script => Member.new rule.1 index script := by
  have each : ∀ (rule : String) (instances : List Rule.Instance),
      (membersOf document rule instances).map Member.untimed =
        (instances.map fun configured => (configured.script document).untimed).mapIdx
          fun index script => Member.new rule index script := by
    intro rule instances
    apply List.ext_getElem (by simp [membersOf])
    intro number _ _
    simp [membersOf, Member.untimed, Member.new]
  simp only [Linting.new, List.map_flatMap, each, RuleSet.untimed, List.flatMap_map]

theorem retimed_new
    {others : RuleSet}
    (same : rules.untimed document = others.untimed document) :
    Retimed (.new document rules none precision) (.new document others none precision) where
  document_eq := rfl
  members_eq := by rw [members_untimed, members_untimed, same]

theorem keys_eq_of_untimed
    {others : RuleSet}
    (same : rules.untimed document = others.untimed document) :
    rules.keys = others.keys := by
  have keys_untimed : ∀ rules : RuleSet, (rules.untimed document).keys = rules.keys := by
    intro rules
    simp only [RuleSet.untimed, Table.keys, List.map_map]
    rfl
  rw [← keys_untimed, same, keys_untimed]

/-- When nothing can ever happen any more, what was promised of a member has come true. -/
theorem promised_of_isExhausted
    {session : Session}
    {schedule : Schedule SessionTurn}
    {index : Nat}
    {member : Member}
    {turns : Nat}
    (unbegun : Session.Unbegun (.new document rules none precision) session)
    (begins : session.Begins schedule)
    (known : (Linting.new document rules none precision).members[index]? = some member)
    (exhausted : (session.goOn (turns + 1)).IsExhausted) :
    let last := (session.goOn (turns + 1)).linting
    ∃ final, last.members[index]? = some final ∧
      (Linting.new document rules none precision).promise schedule.now index member =
        ⟨last.diagnostics.attributed member.key, final.reporter.isFinished⟩ := by
  intro last
  have untouched : member.Untouched := (Balanced.new document rules none precision).untouched rfl
    member (List.mem_of_getElem? known)
  obtain ⟨solo, shown, path⟩ := unbegun.shows begins known (attributed_new _) turns
  have stuck := shown.isExhausted exhausted (Linting.new document rules none precision).toSetting
  have key_eq := unbegun.key_eq known shown
  refine ⟨solo.member, shown.member_eq, ?_⟩
  rw [← key_eq, shown.diagnostics_eq]
  split at path
  · next invoked =>
    obtain ⟨sound, prospect_eq⟩ := (Solo.sound_invoke untouched _ schedule).reaches rfl path
    rw [promise, if_pos invoked, ← sound.prospect_of_isExhausted stuck, prospect_eq]
    exact (Solo.prospect_invoke untouched _ schedule).symm
  · next spared =>
    obtain ⟨sound, prospect_eq⟩ := (Solo.sound_idle untouched schedule).reaches rfl path
    rw [promise, if_neg spared, ← sound.prospect_of_isExhausted stuck, prospect_eq]
    obtain ⟨rule, number, script, rfl⟩ := untouched
    rfl

/-- A session that is to start its run comes to the conclusion that was promised. -/
theorem concluded
    {turns : Nat}
    (distinct : rules.keys.Nodup)
    (starts : .start ∈ requests)
    (exhausted : ((Session.new (.new document rules none precision) precedence requests).goOn
      turns).IsExhausted) :
    ∃ now, Concluded (.new document rules none precision)
      ((Session.new (.new document rules none precision) precedence requests).goOn turns).linting now := by
  have groups := @Session.keys_groups_goOn document rules none precision precedence distinct requests turns
  generalize session_eq : Session.new (.new document rules none precision) precedence requests = session
    at exhausted groups ⊢
  have unbegun : Session.Unbegun (.new document rules none precision) session :=
    session_eq ▸ .new distinct requests
  have attended : (session.goOn turns).Attended := by
    rw [← session_eq]
    have begun : (Session.new (.new document rules none precision) precedence requests).Attended :=
      .new rfl precedence requests
    exact begun.goOn turns
  have orderly := unbegun.toOrderly.goOn turns
  have starting : session.Starts := by
    rw [← session_eq]
    exact ⟨.inl starts, fun busy => absurd rfl busy⟩
  have started := (starting.goOn unbegun.toOrderly turns).isStarted_of_isExhausted attended exhausted
  have ended : (session.goOn turns).HasEnded := ⟨started, .inr exhausted⟩
  obtain ⟨early, schedule, left, earlyUnbegun, begins, same⟩ :=
    unbegun.exists_earlier (ended.begun orderly attended)
  rw [same] at exhausted attended groups ⊢
  have underway := earlyUnbegun.underway begins left
  obtain ⟨isAnswered_eq, state_eq⟩ := underway.ending attended exhausted
  refine ⟨schedule.now, ?_, isAnswered_eq, state_eq, ?_, ?_, ?_⟩
  · rw [Session.keys_goOn, keys, earlyUnbegun.members_eq, keys]
  · intro index member known
    exact promised_of_isExhausted earlyUnbegun begins known exhausted
  · exact groups.trans (keys_groups_new distinct).symm
  · intro key unknown
    refine @Session.diagnostics_goOn (fun collection => collection.attributed key = []) early
      (fun _ none => none) (fun collection diagnostic own none => ?_) ?_ (left + 1)
    · refine (Collection.attributed_accept_of_ne ?_ collection).trans none
      rintro rfl
      rw [keys, earlyUnbegun.members_eq] at own
      exact unknown own
    · rw [earlyUnbegun.diagnostics_eq]
      exact attributed_new key

end

/-- The durations of sleeps do not matter for the outcome: when two rule sets differ in them only, and
instances may be idle as long as they like, nothing can happen any more in a session of either that
starts its run after finitely many turns, and whenever that is so, the outcomes are the same, in
whatever order timers of one instant come in either. -/
theorem outcome_independent_of_durations
    {document : Document}
    {rules retimed : RuleSet}
    {precision : Precision}
    {precedence otherPrecedence : Precedence SessionTurn}
    {requests others : List Request}
    (distinct : rules.keys.Nodup)
    (same : rules.untimed document = retimed.untimed document)
    (starts : .start ∈ requests)
    (otherStarts : .start ∈ others) :
    let session := Session.new (.new document rules none precision) precedence requests
    let other := Session.new (.new document retimed none precision) otherPrecedence others
    (∃ turns, (session.goOn turns).IsExhausted) ∧
      (∃ turns, (other.goOn turns).IsExhausted) ∧
      ∀ turns otherTurns, (session.goOn turns).IsExhausted →
        (other.goOn otherTurns).IsExhausted →
          SameOutcome (session.goOn turns).linting (other.goOn otherTurns).linting := by
  intro session other
  have keys_eq := keys_eq_of_untimed same
  have otherDistinct : retimed.keys.Nodup := keys_eq ▸ distinct
  refine ⟨Session.exists_isExhausted_goOn (Calm.new document rules precision),
    Session.exists_isExhausted_goOn (Calm.new document retimed precision), ?_⟩
  intro turns otherTurns exhausted otherExhausted
  obtain ⟨now, first⟩ := concluded distinct starts exhausted
  obtain ⟨later, second⟩ := concluded otherDistinct otherStarts otherExhausted
  refine first.sameOutcome second (retimed_new same) ?_ ?_
  · rw [keys_groups_new distinct, keys_groups_new otherDistinct, keys_eq]
  · rw [keys_groups_new distinct]
    exact distinct

/-- A rule with two instances: one reports an error and the other one a warning, each behind a
sleep. -/
def sleepers (first second : Rat) : RuleSet :=
  [("sleepers",
    [.custom ⟨[], some [.sleep first [] false, .act (.report .error "first" .nothing)]⟩,
      .custom ⟨[], some [.sleep second [] false, .act (.report .warn "second" .nothing)]⟩])]

/-- A session that runs them. -/
def sleepersSession (first second : Rat) : Session :=
  (Session.new (.new default (sleepers first second) none .binary64) .creation [.start, .wait]).goOn 30

/-- Two instances that report in either order. -/
theorem outcome_of_swapped_sleeps :
    let session := sleepersSession 1 2
    let other := sleepersSession 2 1
    session.IsExhausted ∧ other.IsExhausted ∧ SameOutcome session.linting other.linting ∧
      session.linting.diagnostics.group "sleepers" ≠ other.linting.diagnostics.group "sleepers" := by
  have exhausted : (sleepersSession 1 2).IsExhausted :=
    Option.isNone_iff_eq_none.mp (by decide +kernel)
  have otherExhausted : (sleepersSession 2 1).IsExhausted :=
    Option.isNone_iff_eq_none.mp (by decide +kernel)
  have same : (sleepers 1 2).untimed default = (sleepers 2 1).untimed default := by
    simp [sleepers, RuleSet.untimed, Rule.Instance.script, Script.untimed, Step.untimedAll,
      Step.untimed]
  have distinct : (sleepers 1 2).keys.Nodup := by decide
  have outcome := @outcome_independent_of_durations default (sleepers 1 2) (sleepers 2 1) .binary64
    .creation .creation [.start, .wait] [.start, .wait] distinct same List.mem_cons_self List.mem_cons_self
  refine ⟨exhausted, otherExhausted, outcome.2.2 30 30 exhausted otherExhausted, ?_⟩
  decide +kernel

end Linting
end MarkupLint
