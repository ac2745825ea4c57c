import MarkupLint.Proofs.Linting.Deadline
import MarkupLint.Proofs.Linting.Invocation
import MarkupLint.Proofs.Linting.Repose

/-!
# Idle instances

An instance that is awaited receives the error of idleness just if, at some instant, it is not done
and more than the bounding seconds have passed since it was invoked and since each of its reports so
far.  The error comes at the very instant at which the seconds have passed since the last report, and
nothing comes behind it.  The deadline depends on nobody else.
-/

namespace MarkupLint

/-- All that is ever attributed to an instance: its reports, or those before it lapsed and the error
for it. -/
def Timeline.account (timeline : Timeline) (error : Diagnostic) : Option Rat → List Diagnostic
  | none => timeline.reports
  | some deadline => timeline.reportsBefore deadline ++ [error]

theorem Timeline.account_eq
    {timeline : Timeline}
    {seconds start : Rat}
    (late : timeline.IsFrom start)
    (clear : timeline.IsClear seconds start)
    (error : Diagnostic) :
    timeline.account error (timeline.lapse? seconds start) =
      timeline.heard seconds start ++ ((timeline.lapse? seconds start).map fun _ => error).toList := by
  cases lapse : timeline.lapse? seconds start with
  | none =>
    rw [account, Timeline.heard_of_lapse?_eq_none lapse]
    exact (List.append_nil _).symm
  | some deadline =>
    rw [account, Timeline.heard_of_lapse?_eq_some late clear lapse]
    rfl

namespace Linting
namespace Solo

variable {setting : Setting} {seconds : Rat} {place : Nat} {key : String × Int}
  {reports : List Diagnostic}
  {lapse? : Option Rat} {solo next : Solo}

/-- A member that has just been launched waits for its first turn, with all its seconds left. -/
theorem poised_idle
    {member after : Member}
    {schedule : Schedule SessionTurn}
    (positive : 0 < seconds)
    (exact_eq : schedule.precision = .exact)
    (running : after.reporter.isFinished = false)
    (reported : after.reporter.lastReport?.getD schedule.now = schedule.now)
    (fresh : after.supervision = .fresh)
    (awake : after.task.isSleeping = false) :
    Poised seconds schedule.now schedule.now after (Solo.idle place member schedule).schedule where
  isAhead := ⟨.nil, List.forall_mem_nil _⟩
  exact_eq := exact_eq
  timers := List.forall_mem_nil _
  running := running
  past := le_refl _
  timely := (lt_add_of_pos_right schedule.now positive).le
  since := by
    refine ⟨schedule.now, fresh ▸ .fresh, ?_⟩
    rw [reported]
    exact max_self _
  wakes sleeps := absurd (sleeps.symm.trans awake) (by simp)

/-- An instance that is launched is destined to what lies ahead behind its immediate actions. -/
theorem destined_launched
    {member : Member}
    {steps : List Step}
    {performed : Performance}
    {after : Member.Course}
    {schedule : Schedule SessionTurn}
    (bounded : setting.IsBounded seconds)
    (exact_eq : schedule.precision = .exact)
    (sound : ((Solo.idle place member schedule).follow after).Sound)
    (stamped : performed.reporter.IsStamped none schedule.now performed.effects)
    (key_eq : after.member.key = key)
    (member_eq : after.member = { member with
      reporter := performed.reporter, task := .fresh steps, supervision := .fresh })
    (turns_eq : after.turns = [.soon .task, .soon .supervisor])
    (delivered_eq : Member.delivered after.effects = Reporter.delivered performed.effects)
    (clear : (Step.timeline setting.document schedule.now (.start performed.reporter) steps).IsClear
      seconds schedule.now) :
    ((Solo.idle place member schedule).follow after).Destined setting seconds key
      (Reporter.delivered performed.effects ++ (Step.timeline setting.document schedule.now
        (.start performed.reporter) steps).heard seconds schedule.now)
      ((Step.timeline setting.document schedule.now (.start performed.reporter) steps).lapse? seconds
        schedule.now) := by
  cases finished : performed.reporter.isFinished with
  | true =>
    have done_eq : Step.timeline setting.document schedule.now (.start performed.reporter) steps =
        .done schedule.now := by
      have started : (Performance.start performed.reporter).reporter.isFinished = true := finished
      rw [Step.timeline_of_isFinished started]
      exact if_pos finished
    have none : (Timeline.done schedule.now).lapse? seconds schedule.now = none :=
      if_neg (lt_add_of_pos_right schedule.now bounded.positive).le.not_gt
    rw [done_eq, none]
    refine .complete ⟨?_, ?_, by simp⟩
    · simp only [Solo.follow, member_eq, finished]
    · simp only [Solo.follow, Solo.idle, delivered_eq, Timeline.heard, List.nil_append,
        List.append_nil, Option.map_none, Option.toList_none]
  | false =>
    have schedule_eq : ((Solo.idle place member schedule).follow after).schedule =
        [.soon .task, .soon .supervisor].foldl obey (Solo.idle place member schedule).schedule := by
      rw [schedule_follow, turns_eq]
    have reported : after.member.reporter.lastReport?.getD schedule.now = schedule.now := by
      rw [member_eq]
      change performed.reporter.lastReport?.getD _ = _
      rw [stamped]
      split <;> rfl
    have idle := @poised_idle seconds place member after.member schedule bounded.positive exact_eq
      (by rw [member_eq]; exact finished) reported (by rw [member_eq]) (by rw [member_eq]; rfl)
    have future_eq : ((Solo.idle place member schedule).follow after).future setting.document
        schedule.now =
          Step.timeline setting.document schedule.now (.start performed.reporter) steps := by
      rw [future, schedule_eq, now_foldl_obey]
      simp only [Solo.follow, member_eq]
      rfl
    refine .going schedule.now schedule.now ⟨sound, ?_, ?_⟩ key_eq ?_ ?_ ?_
    · rw [schedule_eq]
      exact idle.foldl_obey (by simp [Member.Effect.IsAside])
    · intro since waiting
      simp [Solo.follow, member_eq] at waiting
    · rw [future_eq]
      exact clear
    · rw [future_eq]
      simp only [Solo.follow, Solo.idle, delivered_eq, List.nil_append]
    · rw [future_eq]

/-- An awaited instance that is invoked is destined to what its timeline says. -/
theorem destined_invoke
    {member : Member}
    {steps : List Step}
    {schedule : Schedule SessionTurn}
    (bounded : setting.IsBounded seconds)
    (exact_eq : schedule.precision = .exact)
    (untouched : member.Untouched)
    (awaits : member.script.awaited? = some steps)
    (launches : member.script.immediateEnding? setting.document = none)
    (clear : (member.script.timeline setting.document schedule.now member.reporter).IsClear seconds
      schedule.now) :
    ((Solo.idle place member schedule).follow (member.invoke setting schedule.now).1).Destined setting
      seconds member.key
      ((member.script.timeline setting.document schedule.now member.reporter).heard seconds
        schedule.now)
      ((member.script.timeline setting.document schedule.now member.reporter).lapse? seconds
        schedule.now) := by
  have sound := @sound_invoke place _ untouched setting schedule
  have key_eq := (member.conduct_invoke setting schedule.now).key_eq
  obtain ⟨rule, index, script, rfl⟩ := untouched
  change script.awaited? = some steps at awaits
  change (script.timeline setting.document schedule.now (.new rule index)).IsClear _ _ at clear
  change Destined _ _ (rule, index) ((script.timeline _ _ (.new rule index)).heard _ _)
    ((script.timeline _ _ (.new rule index)).lapse? _ _) _
  have entered := @Member.entered (.new rule index script) Watch.noConfusion setting schedule.now
  generalize ((Member.new rule index script).invoke setting schedule.now).1 = after
    at entered sound key_eq
  cases entered with
  | spent performed performed_eq member_eq turns_eq delivered_eq stopped =>
    rw [Script.ending?_immediate] at stopped
    rcases stopped with silent | ended
    · exact absurd (silent.symm.trans awaits) (by simp)
    · exact absurd launches ended
  | launched performed others performed_eq goesOn awaited member_eq turns_eq delivered_eq =>
    obtain rfl : others = steps := Option.some.inj (awaited.symm.trans awaits)
    have stamped : performed.reporter.IsStamped none schedule.now performed.effects := by
      rw [performed_eq]
      exact @Action.isStamped_performAll _ _ (.start (.new rule index)) none rfl script.immediate
    have timeline_eq : script.timeline setting.document schedule.now (.new rule index) =
        (Step.timeline setting.document schedule.now (.start performed.reporter) others).behind
          schedule.now (Reporter.delivered performed.effects) := by
      rw [← Step.timeline_behind, Performance.start_behind goesOn, Script.timeline, awaits,
        performed_eq, Option.getD_some]
      rfl
    have timely : schedule.now ≤ schedule.now + seconds :=
      (lt_add_of_pos_right schedule.now bounded.positive).le
    have latest_eq : ∀ diagnostics,
        Timeline.latest schedule.now schedule.now diagnostics = schedule.now :=
      fun diagnostics => ite_self _
    rw [timeline_eq] at clear
    have cleared := (Timeline.isClear_behind clear).2
    rw [latest_eq] at cleared
    rw [timeline_eq, Timeline.heard_behind bounded.positive timely,
      Timeline.lapse?_behind bounded.positive timely, latest_eq]
    exact destined_launched bounded exact_eq sound stamped key_eq member_eq turns_eq delivered_eq
      cleared

/-- What a solo has reported is a part of what it is destined to report. -/
theorem Destined.isPrefix
    (destined : solo.Destined setting seconds key reports lapse?) :
    solo.diagnostics <+: reports ++ (lapse?.map fun _ => idleError key setting.timeout?).toList := by
  cases destined with
  | going last wake going key_eq clear reports_eq lapse?_eq =>
    have heard : solo.diagnostics <+: reports := ⟨_, reports_eq⟩
    exact heard.trans (List.prefix_append _ _)
  | complete complete => exact complete.diagnostics_eq ▸ List.prefix_rfl

/-- The error is not there before the deadline. -/
theorem Destined.le_now
    {deadline : Rat}
    (destined : solo.Destined setting seconds key reports (some deadline))
    (all : solo.diagnostics = reports ++ [idleError key setting.timeout?]) :
    deadline ≤ solo.schedule.now := by
  cases destined with
  | going last wake going key_eq clear reports_eq lapse?_eq =>
    -- As long as it goes on, its reports are among those that are heard.
    have short := congrArg List.length reports_eq
    rw [all] at short
    simp only [List.length_append, List.length_singleton] at short
    omega
  | complete complete => exact complete.past deadline rfl

/-- When nothing can happen any more, a solo has reported what it is destined to report. -/
theorem Destined.diagnostics_eq_of_isExhausted
    (destined : solo.Destined setting seconds key reports lapse?)
    (exhausted : solo.step? setting = none) :
    solo.diagnostics = reports ++ (lapse?.map fun _ => idleError key setting.timeout?).toList := by
  cases destined with
  | going last wake going key_eq clear reports_eq lapse?_eq =>
    refine absurd ?_ (going.next?_ne_none setting.document lapse?_eq).1
    exact (Schedule.next?_eq_none_iff _).mp (Option.map_eq_none_iff.mp exhausted)
  | complete complete => exact complete.diagnostics_eq

/-- The turn in which the error is reported is taken at the deadline. -/
theorem Destined.now_eq
    {deadline : Rat}
    {turn : Member.Turn}
    {schedule : Schedule Member.Turn}
    (bounded : setting.IsBounded seconds)
    (destined : solo.Destined setting seconds key reports (some deadline))
    (popped : solo.schedule.next? = some (turn, schedule))
    (before : solo.diagnostics ≠ reports ++ [idleError key setting.timeout?])
    (after : (({ solo with schedule := schedule } : Solo).take setting turn).diagnostics =
      reports ++ [idleError key setting.timeout?]) :
    schedule.now = deadline := by
  have stepped : solo.step? setting = some (({ solo with schedule := schedule } : Solo).take setting
      turn) := Option.map_eq_some_iff.mpr ⟨_, popped, rfl⟩
  apply le_antisymm
  · cases destined with
    | going last wake going key_eq clear reports_eq lapse?_eq =>
      have timely := (going.next?_ne_none setting.document lapse?_eq).2 deadline rfl
      rw [Schedule.advance_of_next? popped] at timely
      exact timely
    | complete complete => exact absurd complete.diagnostics_eq before
  · have past := (destined.step bounded stepped).le_now after
    rw [Solo.take, schedule_follow, now_foldl_obey] at past
    exact past

end Solo

namespace Session

variable {linting : Linting} {session : Session}

/-- The run of a session has begun, or nothing has happened to it. -/
theorem Unbegun.goOn (unbegun : Unbegun linting session) (turns : Nat) :
    Unbegun linting (session.goOn turns) ∨ (session.goOn turns).linting.phase.isEarly = false := by
  refine @goOn_induction (fun session =>
    Unbegun linting session ∨ session.linting.phase.isEarly = false) ?_ _ (.inl unbegun) turns
  rintro session later (unbegun | begun) stepped
  · rcases unbegun.step stepped with still | ⟨schedule, begins⟩
    · exact .inl still
    · obtain ⟨taken, early, -⟩ := unbegun.begun begins
      exact .inr (Option.some.inj (taken.symm.trans stepped) ▸ early)
  · exact .inr (begun_step begun stepped).1

/-- A turn in which an instance is invoked is the one in which the run begins. -/
theorem Unbegun.exists_begins
    {key : String × Int}
    {turns : Nat}
    (unbegun : Unbegun linting session)
    (invoked : .invoked key ∈ (session.goOn turns).nextActs) :
    Unbegun linting (session.goOn turns) ∧ ∃ schedule, (session.goOn turns).Begins schedule ∧
      ∃ index ∈ linting.invokees schedule.now, linting.keys[index]? = some key := by
  rcases unbegun.goOn turns with still | begun
  · refine ⟨still, ?_⟩
    by_cases begins : ∃ schedule, (session.goOn turns).Begins schedule
    · obtain ⟨schedule, begins⟩ := begins
      rw [begins.nextActs_eq_invokees still, actsOn, List.mem_filterMap] at invoked
      obtain ⟨index, called, same⟩ := invoked
      obtain ⟨other, known, act_eq⟩ := Option.map_eq_some_iff.mp same
      exact ⟨schedule, begins, index, called, known.trans (congrArg some (Act.invoked.inj act_eq))⟩
    · rw [still.nextActs_eq begins] at invoked
      contradiction
  · obtain ⟨bodies, same⟩ := nextActs_of_begun begun
    rw [same, List.mem_map] at invoked
    obtain ⟨body, -, other⟩ := invoked
    contradiction

theorem precision_goOn (session : Session) (turns : Nat) :
    (session.goOn turns).schedule.precision = session.schedule.precision :=
  @goOn_induction (fun later => later.schedule.precision = session.schedule.precision)
    (fun _ _ kept stepped => (precision_step stepped).trans kept) _ rfl turns

/-- From the turn in which it is invoked on, an instance that is awaited is destined to what its
timeline says. -/
theorem Unbegun.exists_destined
    {schedule : Schedule SessionTurn}
    {index : Nat}
    {member : Member}
    {steps : List Step}
    {seconds : Rat}
    (unbegun : Unbegun linting session)
    (begins : session.Begins schedule)
    (bounded : linting.toSetting.IsBounded seconds)
    (exact_eq : schedule.precision = .exact)
    (known : linting.members[index]? = some member)
    (unattributed : linting.diagnostics.attributed member.key = [])
    (called : index ∈ linting.invokees schedule.now)
    (awaits : member.script.awaited? = some steps)
    (launches : member.script.immediateEnding? linting.document = none)
    (clear : (member.script.timeline linting.document schedule.now member.reporter).IsClear seconds
      schedule.now)
    (turns : Nat) :
    ∃ solo, (session.goOn (turns + 1)).Shows index solo ∧
      solo.Destined linting.toSetting seconds member.key
        ((member.script.timeline linting.document schedule.now member.reporter).heard seconds
          schedule.now)
        ((member.script.timeline linting.document schedule.now member.reporter).lapse? seconds
          schedule.now) := by
  have untouched : member.Untouched := unbegun.balanced.untouched unbegun.early member
    (unbegun.members_eq.symm ▸ List.mem_of_getElem? known)
  obtain ⟨solo, shown, path⟩ := unbegun.shows begins known unattributed turns
  rw [if_pos called] at path
  exact ⟨solo, shown, (Solo.destined_invoke bounded exact_eq untouched awaits launches
    clear).reaches bounded path⟩

/-- The turn in which the last of what an instance is destined to is attributed to it is taken at its
deadline. -/
theorem Shows.now_eq_of_lapse
    {later : Session}
    {index : Nat}
    {solo : Solo}
    {seconds deadline : Rat}
    {reports : List Diagnostic}
    (shown : session.Shows index solo)
    (orderly : session.Orderly)
    (begun : session.linting.phase.isEarly = false)
    (bounded : session.linting.toSetting.IsBounded seconds)
    (destined : solo.Destined session.linting.toSetting seconds solo.member.key reports
      (some deadline))
    (stepped : session.step? = some later)
    (before : session.linting.diagnostics.attributed solo.member.key ≠
      reports ++ [idleError solo.member.key session.linting.timeout?])
    (after : later.linting.diagnostics.attributed solo.member.key =
      reports ++ [idleError solo.member.key session.linting.timeout?]) :
    later.schedule.now = deadline := by
  obtain ⟨⟨turn, schedule⟩, popped, rfl⟩ := Option.map_eq_some_iff.mp stepped
  rw [shown.diagnostics_eq] at before
  cases own : turn.own? index with
  | none =>
    have still := shown.step_other orderly begun popped own
    exact absurd (still.diagnostics_eq.symm.trans after) before
  | some turnOfMember =>
    obtain rfl := (own?_eq_some_iff index turn turnOfMember).mp own
    obtain ⟨alone, taken, now_eq, later⟩ := shown.step_own orderly popped
    have key_eq : (({ solo with schedule := alone } : Solo).take session.linting.toSetting
        turnOfMember).member.key = solo.member.key :=
      (solo.member.conduct_take session.linting.toSetting alone.now turnOfMember).key_eq
    have reported := later.diagnostics_eq
    rw [key_eq, after] at reported
    have due := destined.now_eq bounded taken before reported.symm
    exact (now_follow _ _).trans (now_eq.symm.trans due)

/-- What is attributed to an instance stays so. -/
theorem Shows.attributed_isPrefix
    {later : Session}
    {index : Nat}
    {solo : Solo}
    (shown : session.Shows index solo)
    (orderly : session.Orderly)
    (begun : session.linting.phase.isEarly = false)
    (stepped : session.step? = some later) :
    session.linting.diagnostics.attributed solo.member.key <+:
      later.linting.diagnostics.attributed solo.member.key := by
  obtain ⟨next, shownLater, same | taken⟩ := shown.step orderly begun stepped
  · subst same
    exact shown.diagnostics_eq ▸ shownLater.diagnostics_eq ▸ List.prefix_rfl
  · obtain ⟨⟨turn, schedule⟩, popped, rfl⟩ := Option.map_eq_some_iff.mp taken
    have key_eq : (({ solo with schedule := schedule } : Solo).take session.linting.toSetting
        turn).member.key = solo.member.key :=
      (solo.member.conduct_take session.linting.toSetting schedule.now turn).key_eq
    have reported := shownLater.diagnostics_eq
    rw [key_eq] at reported
    rw [shown.diagnostics_eq, reported]
    exact List.prefix_append _ _

/-- The run begins at the instant of its turn. -/
theorem Begins.now_goOn
    {schedule : Schedule SessionTurn}
    (begins : session.Begins schedule) :
    (session.goOn 1).schedule.now = schedule.now := by
  rw [goOn_succ, goOn, begins.step?]
  exact now_follow _ _

/-- Once the run has begun, it does not begin again, and its setting is that of the linting. -/
theorem Unbegun.setting_goOn
    {schedule : Schedule SessionTurn}
    (unbegun : Unbegun linting session)
    (begins : session.Begins schedule)
    (turns : Nat) :
    (session.goOn (turns + 1)).linting.phase.isEarly = false ∧
      (session.goOn (turns + 1)).linting.toSetting = linting.toSetting := by
  obtain ⟨first, early, setting_eq⟩ := unbegun.begun begins
  rw [Session.goOn, first]
  refine @goOn_induction (fun session => session.linting.phase.isEarly = false ∧
    session.linting.toSetting = linting.toSetting) ?_ _ ⟨early, setting_eq⟩ turns
  rintro session later ⟨begun, same⟩ stepped
  exact (begun_step begun stepped).imp_right fun kept => kept.trans same

/-- What grows until it is all that it comes to is so from some turn on. -/
theorem exists_eq_iff_le_of_isPrefix
    {attributed : Nat → List Diagnostic}
    {all : List Diagnostic}
    (parts : ∀ turns, attributed turns <+: all)
    (grows : ∀ turns, attributed turns <+: attributed (turns + 1))
    (settles : ∃ turns, attributed turns = all) :
    ∃ last, ∀ turns, attributed turns = all ↔ last ≤ turns := by
  refine ⟨Nat.find settles, fun turns => ⟨Nat.find_min' settles, fun behind => ?_⟩⟩
  induction turns, behind using Nat.le_induction with
  | base => exact Nat.find_spec settles
  | succ turns behind ih => exact (parts _).eq_of_length_le (ih ▸ (grows turns).length_le)

/-- From the turn in which it is invoked on, ever more of what an instance is destined to is attributed
to it, and all of it from some turn on, which is taken at the deadline if it lapses. -/
theorem Unbegun.exists_settling
    {document : Document}
    {rules : RuleSet}
    {timeout? : Option Binary64}
    {schedule : Schedule SessionTurn}
    {index : Nat}
    {member : Member}
    {seconds : Rat}
    {reports : List Diagnostic}
    {lapse? : Option Rat}
    (unbegun : Unbegun (.new document rules timeout? .exact) session)
    (begins : session.Begins schedule)
    (exact_eq : schedule.precision = .exact)
    (bounded : (Linting.new document rules timeout? .exact).toSetting.IsBounded seconds)
    (known : (Linting.new document rules timeout? .exact).members[index]? = some member)
    (late : ∀ deadline ∈ lapse?, schedule.now < deadline)
    (destined : ∀ turns, ∃ solo, (session.goOn (turns + 1)).Shows index solo ∧
      solo.Destined (Linting.new document rules timeout? .exact).toSetting seconds member.key reports
        lapse?) :
    let all := reports ++ (lapse?.map fun _ => idleError member.key timeout?).toList
    let attributed := fun turns =>
      (session.goOn (turns + 1)).linting.diagnostics.attributed member.key
    (∀ turns, attributed turns <+: all) ∧
      ∃ last, (∀ turns, attributed turns = all ↔ last ≤ turns) ∧
        ∀ deadline ∈ lapse?, (session.goOn (last + 1)).schedule.now = deadline := by
  intro all attributed
  have orderly : ∀ turns, (session.goOn turns).Orderly := unbegun.toOrderly.goOn
  have reported : ∀ turns solo, (session.goOn (turns + 1)).Shows index solo →
      solo.member.key = member.key ∧ attributed turns = solo.diagnostics := by
    intro turns solo shown
    have key_eq := unbegun.key_eq known shown
    refine ⟨key_eq, ?_⟩
    simp only [attributed, ← key_eq, shown.diagnostics_eq]
  have parts : ∀ turns, attributed turns <+: all := by
    intro turns
    obtain ⟨solo, shown, destined⟩ := destined turns
    rw [(reported turns solo shown).2]
    exact destined.isPrefix
  have grows : ∀ turns, attributed turns <+: attributed (turns + 1) := by
    intro turns
    obtain ⟨solo, shown, -⟩ := destined turns
    simp only [attributed, goOn_succ session (turns + 1)]
    cases stepped : (session.goOn (turns + 1)).step? with
    | none => exact List.prefix_rfl
    | some later =>
      rw [← (reported turns solo shown).1]
      exact shown.attributed_isPrefix (orderly _) (unbegun.setting_goOn begins turns).1 stepped
  have settles : ∃ turns, attributed turns = all := by
    obtain ⟨turns, exhausted⟩ := unbegun.exists_isExhausted_goOn begins bounded exact_eq
    obtain ⟨solo, shown, destined⟩ := destined turns
    refine ⟨turns, ?_⟩
    rw [(reported turns solo shown).2]
    exact destined.diagnostics_eq_of_isExhausted (shown.isExhausted exhausted _)
  obtain ⟨last, settled_iff⟩ := exists_eq_iff_le_of_isPrefix parts grows settles
  refine ⟨parts, last, settled_iff, ?_⟩
  rintro deadline lapsed
  obtain rfl := Option.mem_def.mp lapsed
  have settled := (settled_iff last).mpr le_rfl
  cases last with
  | zero =>
    -- No time has passed when the instance has just been invoked.
    obtain ⟨solo, shown, destined⟩ := destined 0
    rw [(reported 0 solo shown).2] at settled
    have past := (destined.le_now settled).trans shown.now_le
    rw [begins.now_goOn] at past
    exact absurd past (not_le.mpr (late deadline rfl))
  | succ turns =>
    obtain ⟨solo, shown, destined⟩ := destined turns
    have unsettled : attributed turns ≠ all := by simp [settled_iff]
    obtain ⟨begun, setting_eq⟩ := unbegun.setting_goOn begins turns
    obtain ⟨key_eq, -⟩ := reported turns solo shown
    cases stepped : (session.goOn (turns + 1)).step? with
    | none =>
      simp only [attributed, goOn_succ session (turns + 1), stepped] at settled
      exact absurd settled unsettled
    | some later =>
      simp only [attributed, goOn_succ session (turns + 1), stepped] at settled ⊢
      have timeout_eq := congrArg Setting.timeout? setting_eq
      rw [← setting_eq, ← key_eq] at destined
      refine shown.now_eq_of_lapse (orderly _) begun (setting_eq ▸ bounded) destined stepped ?_ ?_
      · rw [key_eq, timeout_eq]
        exact unsettled
      · rw [key_eq, timeout_eq]
        exact settled

end Session

/-- An instance that is awaited, and that is invoked in a turn of a session in exact time, lapses just
if at some instant more than the bounding seconds have passed since then and since each of its reports
so far, and it is not done.  Then the error is attributed to it when the seconds have passed since its
last report, behind the reports before, and nothing else ever is; otherwise its reports are.  What
other instances do does not matter, and neither does the order of timers of one instant. -/
theorem inactivity
    {document : Document}
    {rules : RuleSet}
    {timeout? : Option Binary64}
    {precedence : Precedence SessionTurn}
    {requests : List Request}
    {rule : String}
    {number invoking : Nat}
    {configured : Rule.Instance}
    {steps : List Step}
    {seconds : Rat} :
    let linting := Linting.new document rules timeout? .exact
    let session := Session.new linting precedence requests
    let script := configured.script document
    let start := (session.goOn (invoking + 1)).schedule.now
    let timeline := script.timeline document start (.new rule number)
    let attributed := fun turns =>
      (session.goOn turns).linting.diagnostics.attributed (rule, number)
    rules.keys.Nodup →
    linting.toSetting.IsBounded seconds →
    rules.instance? rule number = some configured →
    script.awaited? = some steps →
    script.immediateEnding? document = none →
    .invoked (rule, (number : Int)) ∈ (session.goOn invoking).nextActs →
    timeline.IsClear seconds start →
    ∃ lapse? : Option Rat,
      (lapse?.isSome = true ↔ ∃ instant, timeline.IsIdle start seconds instant) ∧
      (∀ deadline ∈ lapse?, deadline =
        (timeline.reportInstants.filter (· < deadline)).getLastD start + seconds) ∧
      (∀ turns, invoking < turns →
        attributed turns <+: timeline.account (idleError (rule, number) timeout?) lapse?) ∧
      ∃ last, invoking < last ∧
        (∀ turns, invoking < turns →
          (attributed turns = timeline.account (idleError (rule, number) timeout?) lapse? ↔
            last ≤ turns)) ∧
        ∀ deadline ∈ lapse?, (session.goOn last).schedule.now = deadline := by
  intro linting session script start timeline attributed distinct bounded known awaits launches
    invoked clear
  have unbegun := @Session.Unbegun.new document rules timeout? .exact precedence distinct requests
  obtain ⟨still, schedule, begins, index, called, same⟩ := unbegun.exists_begins invoked
  obtain ⟨place, found⟩ := @exists_member_of_instance? document rules timeout? .exact _ _ _ known
  -- The keys are distinct, so it is the instance that is invoked.
  obtain rfl : place = index := by
    have other : linting.keys[place]? = some (rule, (number : Int)) := getElem?_keys found
    exact (List.getElem?_inj (List.getElem?_eq_some_iff.mp other).1 unbegun.distinct).mp
      (other.trans same.symm)
  have start_eq : start = schedule.now := by
    simp only [start, ← Session.goOn_goOn session invoking 1]
    exact begins.now_goOn
  have exact_eq : schedule.precision = .exact :=
    (Schedule.precision_of_next? begins.next).trans (session.precision_goOn invoking)
  have from_eq : timeline.IsFrom start := Step.isFrom_timeline _ _
  refine ⟨timeline.lapse? seconds start, Timeline.isSome_lapse?_iff from_eq,
    fun deadline lapsed => Timeline.lapse?_eq_some from_eq clear lapsed, ?_⟩
  rw [Timeline.account_eq from_eq clear]
  have late : ∀ deadline ∈ timeline.lapse? seconds start, schedule.now < deadline := by
    intro deadline lapsed
    rw [← start_eq]
    exact (lt_add_of_pos_right start bounded.positive).trans_le (Timeline.le_of_lapse? from_eq lapsed)
  have destined := still.exists_destined begins bounded exact_eq found (attributed_new _) called
    awaits launches (start_eq ▸ clear)
  rw [← start_eq] at destined
  obtain ⟨parts, last, settles, due⟩ :=
    still.exists_settling begins exact_eq bounded found late destined
  have shifted : ∀ turns,
      (Session.goOn invoking session).goOn (turns + 1) = session.goOn (invoking + 1 + turns) := by
    intro turns
    rw [Session.goOn_goOn, Nat.add_assoc, Nat.add_comm turns]
  simp only [session, linting] at shifted
  simp only [shifted] at parts settles due
  refine ⟨fun turns behind => ?_, invoking + 1 + last, by omega, fun turns behind => ?_, due⟩
  · obtain ⟨left, rfl⟩ := Nat.exists_eq_add_of_le (Nat.succ_le_of_lt behind)
    exact parts left
  · obtain ⟨left, rfl⟩ := Nat.exists_eq_add_of_le (Nat.succ_le_of_lt behind)
    exact (settles left).trans (Nat.add_le_add_iff_left).symm

/-- A script that reports at once and after a second, and then hangs; cancelled, it reports once more,
swallows the cancellation, and goes on. -/
def stubborn : Script where
  immediate := [.report .info "begins" .nothing]
  awaited? := some [.sleep 1 [] false, .act (.report .warn "goes on" .nothing),
    .hang [.act (.report .error "was cancelled" .nothing)] true,
    .act (.report .error "swallowed it" .nothing)]

/-- What happens of it when it is invoked at the beginning of time. -/
def stubbornTimeline : Timeline :=
  .report 0 ⟨"stubborn", 0, .info, "begins", none⟩
    (.report 1 ⟨"stubborn", 0, .warn, "goes on", none⟩ .silent)

/-- Beside it, another instance reports just when the seconds are about to have passed. -/
def besideStubborn : RuleSet :=
  [("stubborn", [.custom stubborn]),
    ("other", [.custom ⟨[], some [.sleep 2 [] false, .act (.report .info "meanwhile" .nothing),
      .sleep 3 [] false]⟩])]

theorem inactivity_of_stubborn :
    let session := Session.new (.new default besideStubborn (some (.finite false 2 0)) .exact) .creation
      [.start, .advance 1, .wait]
    stubbornTimeline.IsIdle 0 2 4 ∧ ∃ lapse? : Option Rat, lapse?.isSome = true ∧
      ∃ last, ∀ turns, last ≤ turns →
        (session.goOn turns).linting.diagnostics.attributed ("stubborn", 0) =
          stubbornTimeline.account ⟨"stubborn", 0, .error,
            "Rule did not finish after 2s without reporting", none⟩ lapse? := by
  have idle : stubbornTimeline.IsIdle 0 2 4 := ⟨by decide +kernel, by decide +kernel, nofun⟩
  have bounded : (Linting.new default besideStubborn (some (.finite false 2 0))
      .exact).toSetting.IsBounded 2 := ⟨rfl, ⟨_, rfl, by decide⟩, by decide⟩
  have start_eq : ((Session.new (.new default besideStubborn (some (.finite false 2 0)) .exact) .creation
      [.start, .advance 1, .wait]).goOn (1 + 1)).schedule.now = 0 := by decide
  have timeline_eq : ((Rule.Instance.custom stubborn).script default).timeline default 0
      (.new "stubborn" (0 : Nat)) = stubbornTimeline := by decide +kernel
  have error_eq : idleError ("stubborn", (0 : Nat)) (some (.finite false 2 0)) =
      ⟨"stubborn", 0, .error, "Rule did not finish after 2s without reporting", none⟩ := by
    decide
  obtain ⟨lapse?, lapses, -, -, last, later, settles, -⟩ :=
    @inactivity default besideStubborn (some (.finite false 2 0)) .creation
      [.start, .advance 1, .wait]
      "stubborn" 0 1 (.custom stubborn) _ 2 (by decide) bounded rfl rfl (by decide)
      (by decide) (by decide +kernel)
  rw [start_eq, timeline_eq] at lapses settles
  rw [error_eq] at settles
  exact ⟨idle, lapse?, lapses.mpr ⟨4, idle⟩, last, fun turns behind =>
    (settles turns (Nat.lt_of_lt_of_le later behind)).mpr behind⟩

end Linting
end MarkupLint
