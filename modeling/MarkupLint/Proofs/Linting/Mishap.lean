import MarkupLint.Proofs.Linting.Account
import MarkupLint.Proofs.Linting.Tending

/-!
# What goes wrong with an instance

Something goes wrong with an instance when its immediate actions fail, when what it awaits fails or is
cancelled, or when it is idle too long.  The incidents of an instance are these mishaps among the uses
of its reporter, by the script and by the linting.  The linting reports a mishap, and lets the reporter
be done, unless the reporter is done before.
-/

namespace MarkupLint
namespace Reporter
namespace Used

variable {before after : Reporter} {effects : List Effect}

/-- A reporter that is not done was not done before. -/
theorem running_of_running
    (used : Used before after effects)
    (running : after.isFinished = false) :
    before.isFinished = false := by
  by_contra finished
  rw [used.conduct.isFinished_of_isFinished (by simpa using finished)] at running
  contradiction

/-- Whatever is reported on a reporter that is done is dropped. -/
theorem exists_dropped
    (used : Used before after effects)
    (finished : before.isFinished = true) :
    ∃ records : List LogRecord, effects = records.map .dropped := by
  induction used with
  | refl => exact ⟨[], rfl⟩
  | @thenReport middle effects used now severity message node? ih =>
    obtain ⟨records, rfl⟩ := ih
    rw [report_of_isFinished (used.conduct.isFinished_of_isFinished finished)]
    exact ⟨records ++ [droppedRecord middle.rule message], by rw [List.map_append]; rfl⟩
  | thenFinish used ih =>
    obtain ⟨records, rfl⟩ := ih
    rw [Reporter.finish, if_pos (used.conduct.isFinished_of_isFinished finished)]
    exact ⟨records, List.append_nil _⟩

end Used
end Reporter

namespace Linting

/-- What can go wrong with an instance. -/
inductive Mishap where
  | failed (failure : Failure)
  | cancelled
  /-- No time is left since the last report, while what the instance awaits goes on. -/
  | idle
deriving DecidableEq, Repr

namespace Mishap

/-- What goes wrong when a script ends so. -/
def ofEnding? : Ending → Option Mishap
  | .completed => none
  | .failed failure => some (failed failure)
  | .cancelled => some cancelled

/-- The text of the report of a mishap. -/
def message (timeout? : Option Binary64) : Mishap → String
  | failed failure => failure.report
  | cancelled => "Rule was cancelled before it finished"
  | idle => idleMessage timeout?

/-- The report of a mishap of the instance with a key. -/
def report (timeout? : Option Binary64) (key : String × Int) (mishap : Mishap) : Diagnostic :=
  ⟨key.1, key.2, .error, mishap.message timeout?, none⟩

end Mishap

/-- What happens with an instance. -/
inductive Incident where
  /-- The script uses the reporter. -/
  | script (effect : Reporter.Effect)
  /-- The linting uses the reporter. -/
  | linting (effect : Reporter.Effect)
  | wentWrong (mishap : Mishap)
deriving DecidableEq, Repr

namespace Incident

/-- How the reporter is used. -/
def use? : Incident → Option Reporter.Effect
  | script effect => some effect
  | linting effect => some effect
  | wentWrong _ => none

/-- Whether the reporter is done from now on. -/
def isEnd (incident : Incident) : Bool := incident.use? = some .finished

/-- Whether nothing is delivered, and the reporter does not become done. -/
def isVain : Incident → Bool
  | script (.dropped _) => true
  | linting (.dropped _) => true
  | wentWrong _ => true
  | _ => false

/-- The report that the script makes. -/
def made? : Incident → Option Diagnostic
  | script (.delivered report) => some report
  | _ => none

/-- The report that the linting adds. -/
def added? : Incident → Option Diagnostic
  | linting (.delivered report) => some report
  | _ => none

def mishap? : Incident → Option Mishap
  | wentWrong mishap => some mishap
  | _ => none

/-- The reports of the script, in order. -/
def made (incidents : List Incident) : List Diagnostic := incidents.filterMap made?

/-- The reports that the linting adds, in order. -/
def added (incidents : List Incident) : List Diagnostic := incidents.filterMap added?

/-- The script makes reports that are delivered. -/
def told (reports : List Diagnostic) : List Incident :=
  reports.map fun report => script (.delivered report)

/-- What happens in a turn that uses the reporter so: first the script uses it, then something may go
wrong, and then the linting uses it. -/
def ofUses (own all : List Reporter.Effect) (mishap? : Option Mishap) : List Incident :=
  own.map script ++ mishap?.toList.map wentWrong ++ (all.drop own.length).map linting

theorem told_append (first second : List Diagnostic) :
    told (first ++ second) = told first ++ told second :=
  List.map_append

/-- What has gone wrong before the linting uses the reporter may have done so in that turn. -/
theorem ofUses_behind (mishap? : Option Mishap) (all : List Reporter.Effect) :
    mishap?.toList.map wentWrong ++ ofUses [] all none = ofUses [] all mishap? :=
  rfl

theorem filterMap_use?_ofUses
    {own all : List Reporter.Effect}
    (first : own <+: all)
    (mishap? : Option Mishap) :
    (ofUses own all mishap?).filterMap use? = all := by
  obtain ⟨others, rfl⟩ := first
  have silent : (mishap?.toList.map wentWrong).filterMap use? = [] := by
    cases mishap? <;> rfl
  simp [ofUses, silent, List.filterMap_map, Function.comp_def, use?]

theorem isVain_ofUses (first second : List LogRecord) (mishap? : Option Mishap) :
    ∀ incident ∈ ofUses (first.map .dropped) (first.map .dropped ++ second.map .dropped) mishap?,
      incident.isVain = true := by
  intro incident known
  rw [ofUses, List.drop_left] at known
  simp only [List.mem_append, List.mem_map] at known
  rcases known with (⟨_, ⟨_, _, rfl⟩, rfl⟩ | ⟨_, _, rfl⟩) | ⟨_, ⟨_, _, rfl⟩, rfl⟩ <;> rfl

end Incident

open Incident

/-- How the reporter of the instance with a key becomes done: the script lets it be done, or the
linting does, behind its report of what went wrong if something did. -/
inductive Concludes (timeout? : Option Binary64) (key : String × Int) : List Incident → Prop
  | byScript : Concludes timeout? key [.script .finished]
  | byLinting : Concludes timeout? key [.linting .finished]
  | blamed
      (mishap : Mishap) :
      Concludes timeout? key
        [.wentWrong mishap, .linting (.delivered (mishap.report timeout? key)), .linting .finished]

/-- The incidents of an instance whose reporter is done: the script has reported, then the reporter
became done, and whatever followed was in vain. -/
def IsConcluded
    (timeout? : Option Binary64)
    (key : String × Int)
    (incidents : List Incident) :
    Prop :=
  ∃ reports conclusion late, Concludes timeout? key conclusion ∧
    (∀ incident ∈ late, incident.isVain = true) ∧ incidents = told reports ++ conclusion ++ late

theorem IsConcluded.append
    {timeout? : Option Binary64}
    {key : String × Int}
    {incidents later : List Incident}
    (concluded : IsConcluded timeout? key incidents)
    (vain : ∀ incident ∈ later, incident.isVain = true) :
    IsConcluded timeout? key (incidents ++ later) := by
  obtain ⟨reports, conclusion, late, concludes, before, rfl⟩ := concluded
  refine ⟨reports, conclusion, late ++ later, concludes, fun incident known => ?_, by simp⟩
  exact (List.mem_append.mp known).elim (before incident) (vain incident)

/-- The incidents of a member so far. -/
inductive Recounted
    (timeout? : Option Binary64)
    (member : Member)
    (incidents : List Incident) :
    Prop where
  /-- The script has reported, and something may have gone wrong that is not reported yet. -/
  | running
      (reports : List Diagnostic)
      (unfinished : member.reporter.isFinished = false)
      (incidents_eq : incidents = told reports ++
        (member.task.ending?.bind Mishap.ofEnding?).toList.map .wentWrong)
  /-- The reporter is done. -/
  | concluded
      (finished : member.reporter.isFinished = true)
      (concluded : IsConcluded timeout? member.key incidents)

section

variable {before middle after : Reporter} {own others : List Reporter.Effect}

/-- When the reporter is done, whatever happens is in vain. -/
theorem isVain_of_isFinished
    (used : before.Used middle own)
    (followed : middle.Used after others)
    (finished : before.isFinished = true)
    (mishap? : Option Mishap) :
    ∀ incident ∈ ofUses own (own ++ others) mishap?, incident.isVain = true := by
  obtain ⟨records, rfl⟩ := used.exists_dropped finished
  obtain ⟨more, rfl⟩ := followed.exists_dropped (used.conduct.isFinished_of_isFinished finished)
  exact isVain_ofUses records more mishap?

/-- As long as the reporter is not done, all that the script reports is delivered. -/
theorem exists_told_of_running
    (used : before.Used after own)
    (running : after.isFinished = false) :
    ∃ reports, own.map .script = told reports := by
  obtain ⟨reports, ⟨late, own_eq⟩, -⟩ := used.exists_isHistory (used.running_of_running running)
  rw [running] at own_eq
  exact ⟨reports, by simp [own_eq, told]⟩

/-- When the reporter becomes done in a turn, the script lets it be done, or the linting does, behind
the report of what goes wrong. -/
theorem isConcluded_ofUses
    {timeout? : Option Binary64}
    {key : String × Int}
    {mishap? : Option Mishap}
    (used : before.Used middle own)
    (followed : middle.Used after others)
    (running : before.isFinished = false)
    (finished : after.isFinished = true)
    (blames : middle.isFinished = false →
      Reporter.delivered others = (mishap?.map (·.report timeout? key)).toList)
    (reports : List Diagnostic) :
    IsConcluded timeout? key (told reports ++ ofUses own (own ++ others) mishap?) := by
  obtain ⟨more, ⟨late, own_eq⟩, -⟩ := used.exists_isHistory running
  cases done : middle.isFinished with
  | true =>
    obtain ⟨records, rfl⟩ := followed.exists_dropped done
    rw [done, if_pos rfl] at own_eq
    refine ⟨reports ++ more, _, _, .byScript, isVain_ofUses late records mishap?, ?_⟩
    rw [ofUses, ofUses, List.drop_left, List.drop_left]
    simp [own_eq, told]
  | false =>
    obtain ⟨added, history, -⟩ := followed.exists_isHistory done
    have delivered_eq := history.delivered_eq.symm.trans (blames done)
    obtain ⟨records, others_eq⟩ := history
    rw [finished, if_pos rfl] at others_eq
    rw [done] at own_eq
    rw [ofUses, List.drop_left]
    have vain : ∀ incident ∈ (records.map Reporter.Effect.dropped).map Incident.linting,
        incident.isVain = true := by
      simp [isVain]
    cases mishap? with
    | none =>
      refine ⟨reports ++ more, _, _, .byLinting, vain, ?_⟩
      simp [own_eq, others_eq, delivered_eq, told]
    | some mishap =>
      refine ⟨reports ++ more, _, _, .blamed mishap, vain, ?_⟩
      simp [own_eq, others_eq, delivered_eq, told]

end

namespace Member

/-- What happens when a member is invoked: its immediate actions may go wrong. -/
def invocationIncidents (setting : Setting) (now : Rat) (member : Member) : List Incident :=
  ofUses
    (Action.performAll setting.document now (.start member.reporter) member.script.immediate).effects
    (uses (member.invoke setting now).1.effects)
    ((member.script.immediateEnding? setting.document).bind Mishap.ofEnding?)

/-- The awaited steps that a member goes through in a turn. -/
def stretch? (setting : Setting) (now : Rat) (member : Member) : Turn → Option Stretch
  | .task => member.upcomingSteps?.map (Stretch.run setting.document now (.start member.reporter))
  | _ => none

/-- What goes wrong with a member in a turn: its awaited steps end so, or its supervisor, which waits
for them, finds that it has been idle too long. -/
def mishap? (setting : Setting) (now : Rat) (member : Member) : Turn → Option Mishap
  | .task => (member.stretch? setting now .task).bind (·.task.ending?.bind Mishap.ofEnding?)
  | .supervisor =>
    match member.supervision with
    | .woken since =>
      if member.task.ending? = none ∧ member.left? setting now since = some 0 then some .idle
      else none
    | _ => none
  | _ => none

/-- How the script uses the reporter of a member in a turn. -/
def ownUses (setting : Setting) (now : Rat) (member : Member) (turn : Turn) : List Reporter.Effect :=
  ((member.stretch? setting now turn).map (·.effects)).getD []

/-- What happens with a member in a turn. -/
def incidents (setting : Setting) (now : Rat) (member : Member) (turn : Turn) : List Incident :=
  ofUses (member.ownUses setting now turn) (uses (member.take setting now turn).effects)
    (member.mishap? setting now turn)

/-- Running awaited steps uses the reporter as they do. -/
theorem used_run (document : Document) (now : Rat) (reporter : Reporter) (steps : List Step) :
    reporter.Used (Stretch.run document now (.start reporter) steps).reporter
      (Stretch.run document now (.start reporter) steps).effects := by
  obtain ⟨effects, effects_eq, used⟩ := Stretch.exists_effects_run document now (.start reporter) steps
  rw [Performance.start, List.nil_append] at effects_eq
  rw [Performance.start, effects_eq]
  exact used

/-- The immediate actions of a member use its reporter. -/
theorem used_immediate (setting : Setting) (now : Rat) (member : Member) :
    member.reporter.Used
      (Action.performAll setting.document now (.start member.reporter)
        member.script.immediate).reporter
      (Action.performAll setting.document now (.start member.reporter)
        member.script.immediate).effects := by
  obtain ⟨effects, effects_eq, used⟩ := Action.extends_performAll setting.document now
    (.start member.reporter) member.script.immediate
  rw [Performance.start, List.nil_append] at effects_eq
  rw [Performance.start, effects_eq]
  exact used

/-- Using the reporter has the effects of the reporter. -/
theorem Course.uses_use
    {course : Course}
    {act : Reporter → Reporter × List Reporter.Effect}
    (used : course.member.reporter.Used (act course.member.reporter).1
      (act course.member.reporter).2) :
    uses (course.use act).effects = uses course.effects ++ (act course.member.reporter).2 ∧
      (course.use act).member.reporter = (act course.member.reporter).1 :=
  ⟨uses_absorbAll (fun _ known => used.channel_eq known) _, (keeps_absorbAll _ _).1⟩

/-- What the linting does behind the awaited steps of a member does not use the reporter. -/
theorem uses_rest
    {member : Member}
    {stretch : Stretch}
    (used : member.reporter.Used stretch.reporter stretch.effects) :
    uses (member.rest stretch).effects = stretch.effects ∧
      (member.rest stretch).member.reporter = stretch.reporter := by
  generalize absorbed : (Course.start (member.afterStretch stretch)).absorbAll stretch.effects = course
  have kept : uses course.effects = stretch.effects ∧ course.member.reporter = stretch.reporter := by
    rw [← absorbed]
    exact ⟨Course.uses_absorbAll (fun _ known => used.channel_eq known) _,
      (Course.keeps_absorbAll _ _).1⟩
  have emitted : ∀ effect : Effect, effect.use? = none →
      uses (course.emit effect).effects = stretch.effects ∧
        (course.emit effect).member.reporter = stretch.reporter := by
    intro effect foreign
    rw [Course.effects_emit, uses_append, uses_cons, foreign, kept.1]
    exact ⟨List.append_nil _, kept.2⟩
  simp only [rest, absorbed]
  split
  · exact emitted _ rfl
  · exact emitted _ rfl
  · split
    · exact emitted _ rfl
    · split
      · exact emitted _ rfl
      · exact kept
  · exact kept

/-- In a turn, the script uses the reporter first, and then the linting does. -/
theorem exists_used_take (setting : Setting) (now : Rat) (member : Member) (turn : Turn) :
    ∃ middle others, member.reporter.Used middle (member.ownUses setting now turn) ∧
      middle.Used (member.take setting now turn).member.reporter others ∧
      uses (member.take setting now turn).effects = member.ownUses setting now turn ++ others := by
  cases ran : member.stretch? setting now turn with
  | none =>
    rw [ownUses, ran]
    exact ⟨_, _, .refl, (member.used_take setting now turn).used, rfl⟩
  | some stretch =>
    rw [ownUses, ran, Option.map_some, Option.getD_some]
    cases turn with
    | task =>
      obtain ⟨steps, steps_eq, rfl⟩ := Option.map_eq_some_iff.mp ran
      have used := used_run setting.document now member.reporter steps
      have rested := uses_rest used
      simp only [take, runTask, steps_eq, rested]
      exact ⟨_, [], used, .refl, (List.append_nil _).symm⟩
    | _ => contradiction

/-- A turn that leaves the reporter alone has no use of it. -/
theorem uses_eq_nil
    {setting : Setting}
    {now : Rat}
    {member : Member}
    {turn : Turn}
    (unfinished : (member.take setting now turn).member.reporter.isFinished = false)
    (silent : delivered (member.take setting now turn).effects = []) :
    uses (member.take setting now turn).effects = [] := by
  have used := (member.used_take setting now turn).used
  obtain ⟨reports, history, -⟩ := used.exists_isHistory (used.running_of_running unfinished)
  have reports_eq := history.delivered_eq.symm.trans ((delivered_eq _).symm.trans silent)
  obtain ⟨late, same⟩ := history
  rw [same, unfinished, reports_eq]
  rfl

/-- When neither the task nor the supervisor is ready for its turn, nothing goes wrong. -/
theorem harmless_of_unready
    {member : Member}
    {turn : Turn}
    (task : turn = .task → member.task.isReady = false)
    (supervisor : turn = .supervisor → member.supervision.isReady = false)
    (setting : Setting)
    (now : Rat) :
    member.stretch? setting now turn = none ∧ member.mishap? setting now turn = none := by
  cases turn with
  | task =>
    have unready := task rfl
    have idle : member.stretch? setting now .task = none := by
      simp only [stretch?, upcomingSteps?, Option.map_eq_none_iff]
      split <;> simp_all [Task.isReady]
    exact ⟨idle, by simp only [mishap?, idle, Option.bind_none]⟩
  | supervisor =>
    have unready := supervisor rfl
    refine ⟨rfl, ?_⟩
    simp only [mishap?]
    split
    · next woken => simp [woken, Supervision.isReady] at unready
    · rfl
  | _ => exact ⟨rfl, rfl⟩

/-- The incidents of a turn in which the script is not run. -/
theorem incidents_of_idle
    {setting : Setting}
    {now : Rat}
    {member : Member}
    {turn : Turn}
    (idle : member.stretch? setting now turn = none) :
    member.incidents setting now turn =
      ofUses [] (uses (member.take setting now turn).effects) (member.mishap? setting now turn) := by
  rw [incidents, ownUses, idle]
  rfl

/-- Settling a running reporter reports what has gone wrong. -/
theorem delivered_settle
    {reporter : Reporter}
    (unfinished : reporter.isFinished = false)
    (timeout? : Option Binary64)
    (now : Rat)
    (ending : Ending) :
    Reporter.delivered (((Performance.start reporter).stop ending).settle now).effects =
      ((Mishap.ofEnding? ending).map
        (·.report timeout? (reporter.rule, reporter.index))).toList := by
  cases ending <;>
    simp [Performance.settle, Performance.stop, Performance.start, Performance.use, Reporter.fail,
      Reporter.report, Reporter.finish, unfinished, Reporter.delivered, Mishap.ofEnding?,
      Mishap.report, Mishap.message]

/-- What the linting does behind the immediate actions of a member.  Unless they end with a failure that
nobody handles, it begins with what is awaited, or it reports what went wrong and lets the reporter be
done. -/
structure Launched
    (setting : Setting)
    (member : Member)
    (performed : Performance)
    (others : List Reporter.Effect)
    (course : Course) :
    Prop where
  used : performed.reporter.Used course.member.reporter others
  uses_eq : uses course.effects = performed.effects ++ others
  goesOn : performed.ending?.bind Ending.escape? = none →
    others = [] ∧ performed.ending? = none ∧ course.member.task.ending? = none ∨
      course.member.reporter.isFinished = true ∧ (performed.reporter.isFinished = false →
        Reporter.delivered others = ((performed.ending?.bind Mishap.ofEnding?).map
          (·.report setting.timeout? member.key)).toList)

theorem exists_launched (setting : Setting) (now : Rat) (member : Member) :
    ∃ others, Launched setting member
      (Action.performAll setting.document now (.start member.reporter) member.script.immediate) others
      (member.invoke setting now).1 := by
  have used := member.used_immediate setting now
  simp only [invoke]
  generalize Action.performAll setting.document now (.start member.reporter) member.script.immediate =
    performed at used
  have first := @Course.uses_use (.start member)
    (fun _ => (performed.reporter, performed.effects)) used
  have key_eq : (performed.reporter.rule, performed.reporter.index) = member.key := by
    rw [used.conduct.rule_eq, used.conduct.index_eq]
    rfl
  generalize (Course.start member).use (fun _ => (performed.reporter, performed.effects)) = course
    at first
  obtain ⟨uses_eq, reporter_eq⟩ := first
  dsimp only at uses_eq reporter_eq
  rw [Course.effects_start, uses_nil, List.nil_append] at uses_eq
  have finishing : performed.ending?.bind Mishap.ofEnding? = none →
      Launched setting member performed performed.reporter.finish.2 (course.use (·.finish)) := by
    intro harmless
    have last := @Course.uses_use course (·.finish) (.finish _)
    rw [uses_eq, reporter_eq] at last
    refine ⟨last.2 ▸ .finish _, last.1,
      fun _ => .inr ⟨last.2 ▸ Reporter.isFinished_finish _, fun running => ?_⟩⟩
    rw [harmless, Reporter.finish, running]
    rfl
  split
  · next failure escapes =>
    refine ⟨[], reporter_eq ▸ .refl, uses_eq.trans (List.append_nil _).symm, fun contained => ?_⟩
    rw [escapes] at contained
    contradiction
  · next contained =>
  simp only [Course.proceed]
  split
  · next failure ended =>
    have reported := @Course.uses_use course (·.fail now failure none) (.fail _ _ _ _)
    have last := @Course.uses_use (course.use (·.fail now failure none)) (·.finish) (.finish _)
    rw [reported.1, reported.2, uses_eq, reporter_eq, List.append_assoc] at last
    refine ⟨_, last.2 ▸ (Reporter.Used.fail _ _ _ _).trans (.finish _), last.1,
      fun _ => .inr ⟨last.2 ▸ Reporter.isFinished_finish _, fun running => ?_⟩⟩
    rw [ended, Option.bind_some, Mishap.ofEnding?, ← key_eq]
    simp [Reporter.fail, Reporter.report, Reporter.finish, running, Reporter.delivered, Mishap.report,
      Mishap.message]
  · next steps ended awaited =>
    refine ⟨[], reporter_eq ▸ .refl, ?_, fun _ => .inl ⟨rfl, ended, rfl⟩⟩
    rw [List.append_nil, ← uses_eq]
    simp [Course.launch, uses_append, uses_cons, Effect.use?]
  · next unfailed _ =>
    refine ⟨_, finishing ?_⟩
    cases ended : performed.ending? with
    | none => rfl
    | some ending =>
      cases ending with
      | completed => rfl
      | failed failure => exact absurd ended (unfailed failure)
      | cancelled =>
        rw [ended] at contained
        contradiction

/-- The incidents of a turn tell how the reporter is used in it. -/
theorem filterMap_use?_incidents (setting : Setting) (now : Rat) (member : Member) (turn : Turn) :
    (member.incidents setting now turn).filterMap Incident.use? =
      uses (member.take setting now turn).effects := by
  obtain ⟨middle, others, -, -, uses_eq⟩ := member.exists_used_take setting now turn
  exact filterMap_use?_ofUses ⟨others, uses_eq.symm⟩ _

theorem filterMap_use?_invocationIncidents (setting : Setting) (now : Rat) (member : Member) :
    (member.invocationIncidents setting now).filterMap Incident.use? =
      uses (member.invoke setting now).1.effects := by
  obtain ⟨others, launched⟩ := member.exists_launched setting now
  exact filterMap_use?_ofUses ⟨others, launched.uses_eq.symm⟩ _

end Member

namespace Recounted

variable {setting : Setting} {member : Member} {incidents : List Incident}

/-- The script runs in a turn. -/
theorem ran
    {steps : List Step}
    (unfinished : member.reporter.isFinished = false)
    (reports : List Diagnostic)
    (steps_eq : member.upcomingSteps? = some steps)
    (now : Rat)
    (task_eq : (member.take setting now .task).member.task =
      (Stretch.run setting.document now (.start member.reporter) steps).task) :
    Recounted setting.timeout? (member.take setting now .task).member
      (told reports ++ (member.task.ending?.bind Mishap.ofEnding?).toList.map .wentWrong ++
        member.incidents setting now .task) := by
  generalize stretch_eq : Stretch.run setting.document now (.start member.reporter) steps = stretch
    at task_eq
  have used : member.reporter.Used stretch.reporter stretch.effects :=
    stretch_eq ▸ Member.used_run setting.document now member.reporter steps
  have taken : member.take setting now .task = member.rest stretch := by
    simp only [Member.take, Member.runTask, steps_eq, stretch_eq]
  obtain ⟨uses_eq, reporter_eq⟩ := Member.uses_rest used
  -- A task that has steps left has not ended, so nothing has gone wrong before.
  have goesOn : member.task.ending? = none := by
    by_contra ended
    rw [Member.upcomingSteps?_of_ended (Option.isSome_iff_ne_none.mpr ended)] at steps_eq
    contradiction
  have happens : member.incidents setting now .task = ofUses stretch.effects (stretch.effects ++ [])
      (stretch.task.ending?.bind Mishap.ofEnding?) := by
    simp only [Member.incidents, Member.ownUses, Member.mishap?, Member.stretch?, steps_eq, taken,
      uses_eq, stretch_eq, Option.map_some, Option.getD_some, Option.bind_some, List.append_nil]
  have conduct := member.conduct_take setting now .task
  rw [taken] at conduct
  rw [taken, happens, goesOn, Option.bind_none, Option.toList_none, List.map_nil, List.append_nil]
  cases done : stretch.reporter.isFinished with
  | true =>
    refine .concluded (reporter_eq ▸ done) ?_
    rw [conduct.key_eq]
    refine isConcluded_ofUses used .refl unfinished done (fun running => ?_) reports
    rw [done] at running
    contradiction
  | false =>
    obtain ⟨more, told_eq⟩ := exists_told_of_running used done
    refine .running (reports ++ more) (reporter_eq ▸ done) ?_
    rw [taken] at task_eq
    rw [task_eq, ofUses, told_eq, List.drop_left, told_append, List.map_nil,
      List.append_nil, List.append_assoc]

/-- The linting lets the reporter of a member be done, and blames it for a mishap. -/
theorem blamed
    {turn : Member.Turn}
    {now : Rat}
    {mishap? : Option Mishap}
    (unfinished : member.reporter.isFinished = false)
    (finished : (member.take setting now turn).member.reporter.isFinished = true)
    (blames : Member.delivered (member.take setting now turn).effects =
      (mishap?.map (·.report setting.timeout? member.key)).toList)
    (reports : List Diagnostic) :
    Recounted setting.timeout? (member.take setting now turn).member
      (told reports ++ ofUses [] (Member.uses (member.take setting now turn).effects) mishap?) := by
  refine .concluded finished ?_
  rw [(member.conduct_take setting now turn).key_eq]
  exact isConcluded_ofUses .refl (member.used_take setting now turn).used unfinished finished
    (fun _ => (Member.delivered_eq _).symm.trans blames) reports

/-- A turn in which the script is not run, nothing goes wrong and the reporter is left alone. -/
theorem goesBy
    {turn : Member.Turn}
    {now : Rat}
    (recounted : Recounted setting.timeout? member incidents)
    (unfinished : member.reporter.isFinished = false)
    (harmless : member.stretch? setting now turn = none ∧ member.mishap? setting now turn = none)
    (reporter_eq : (member.take setting now turn).member.reporter = member.reporter)
    (ending_eq : (member.take setting now turn).member.task.ending? = member.task.ending?)
    (silent : Member.delivered (member.take setting now turn).effects = []) :
    Recounted setting.timeout? (member.take setting now turn).member
      (incidents ++ member.incidents setting now turn) := by
  have still : (member.take setting now turn).member.reporter.isFinished = false := by
    rw [reporter_eq, unfinished]
  have nothing : member.incidents setting now turn = [] := by
    rw [Member.incidents_of_idle harmless.1, Member.uses_eq_nil still silent, harmless.2]
    rfl
  rw [nothing, List.append_nil]
  cases recounted with
  | running reports _ incidents_eq => exact .running reports still (by rw [ending_eq, incidents_eq])
  | concluded finished =>
    rw [unfinished] at finished
    contradiction

/-- A turn of a member is recounted. -/
theorem take
    (recounted : Recounted setting.timeout? member incidents)
    (now : Rat)
    (turn : Member.Turn) :
    Recounted setting.timeout? (member.take setting now turn).member
      (incidents ++ member.incidents setting now turn) := by
  have before := recounted
  cases recounted with
  | concluded finished concluded =>
    have conduct := member.conduct_take setting now turn
    obtain ⟨middle, others, used, followed, uses_eq⟩ := member.exists_used_take setting now turn
    refine .concluded (conduct.isFinished_of_isFinished finished) ?_
    rw [conduct.key_eq, Member.incidents, uses_eq]
    exact concluded.append (isVain_of_isFinished used followed finished _)
  | running reports unfinished incidents_eq =>
    cases Member.acted setting now member turn with
    | nothing member_eq turns_eq delivered_eq task wake supervisor notice =>
      have harmless := Member.harmless_of_unready task supervisor setting now
      exact before.goesBy unfinished harmless (by rw [member_eq]) (by rw [member_eq]) delivered_eq
    | ran steps watch woken isTask steps_eq rouses member_eq turns_eq delivered_eq =>
      subst isTask
      rw [incidents_eq]
      exact ran unfinished reports steps_eq now (by rw [member_eq]; rfl)
    | awoke step rest isWake task_eq member_eq turns_eq delivered_eq =>
      subst isWake
      exact before.goesBy unfinished ⟨rfl, rfl⟩ (by rw [member_eq])
        (by rw [member_eq, task_eq]; rfl) delivered_eq
    | settled ending isSupervisor ready task_eq member_eq turns_eq delivered_eq =>
      subst isSupervisor
      have harmless : member.mishap? setting now .supervisor = none := by
        simp only [Member.mishap?]
        split <;> simp [task_eq, Task.ending?]
      -- What the linting reports now went wrong when the task ended, in a turn before.
      rw [incidents_eq, task_eq, Member.incidents_of_idle rfl, harmless, List.append_assoc,
        ofUses_behind]
      refine blamed unfinished ?_ ?_ reports
      · rw [member_eq]
        exact Performance.isFinished_settle rfl now
      · rw [delivered_eq]
        exact Member.delivered_settle unfinished _ now ending
    | supervised isSupervisor fresh goesOn member_eq turns_eq delivered_eq =>
      subst isSupervisor
      exact before.goesBy unfinished ⟨rfl, by simp only [Member.mishap?, fresh]⟩
        (by rw [member_eq]) (by rw [member_eq]) delivered_eq
    | awaited since isSupervisor woken goesOn running timely member_eq turns_eq delivered_eq =>
      subst isSupervisor
      exact before.goesBy unfinished ⟨rfl, by simp [Member.mishap?, woken, timely]⟩
        (by rw [member_eq]) (by rw [member_eq]) delivered_eq
    | abandoned since isSupervisor woken goesOn finished =>
      rw [unfinished] at finished
      contradiction
    | expired since watch roused isSupervisor woken goesOn running tardy rouses member_eq turns_eq
        delivered_eq =>
      subst isSupervisor
      have expires : member.mishap? setting now .supervisor = some .idle := by
        simp [Member.mishap?, woken, goesOn, tardy]
      rw [incidents_eq, goesOn, Member.incidents_of_idle rfl, expires, List.append_assoc]
      refine blamed unfinished ?_ ?_ reports
      · rw [member_eq]
        exact Reporter.isFinished_finish _
      · rw [delivered_eq, Reporter.report, unfinished]
        rfl
    | noticed since isNotice waiting member_eq turns_eq delivered_eq =>
      rcases isNotice with rfl | rfl
      · exact before.goesBy unfinished ⟨rfl, rfl⟩ (by rw [member_eq]) (by rw [member_eq]) delivered_eq
      · exact before.goesBy unfinished ⟨rfl, rfl⟩ (by rw [member_eq]) (by rw [member_eq]) delivered_eq
    | watched isWatch ready member_eq turns_eq delivered_eq =>
      subst isWatch
      exact before.goesBy unfinished ⟨rfl, rfl⟩ (by rw [member_eq]) (by rw [member_eq]) delivered_eq
    | armed isWatch fresh member_eq turns_eq delivered_eq =>
      subst isWatch
      exact before.goesBy unfinished ⟨rfl, rfl⟩ (by rw [member_eq]) (by rw [member_eq]) delivered_eq

/-- Being invoked, a member is recounted, unless what it does at once ends with a failure that nobody
handles. -/
theorem invoke
    (recounted : Recounted setting.timeout? member incidents)
    (untouched : member.Untouched)
    (contained : member.script.escape? setting.document = none)
    (now : Rat) :
    Recounted setting.timeout? (member.invoke setting now).1.member
      (incidents ++ member.invocationIncidents setting now) := by
  obtain ⟨unfinished, fresh⟩ :
      member.reporter.isFinished = false ∧ member.task.ending? = none := by
    obtain ⟨rule, index, script, rfl⟩ := untouched
    exact ⟨rfl, rfl⟩
  cases recounted with
  | concluded finished =>
    rw [unfinished] at finished
    contradiction
  | running reports _ incidents_eq =>
    have conduct := member.conduct_invoke setting now
    have ending_eq := member.script.ending?_immediate setting.document now member.reporter
    have used := member.used_immediate setting now
    obtain ⟨others, launched⟩ := member.exists_launched setting now
    rw [incidents_eq, Member.invocationIncidents, launched.uses_eq, fresh, ← ending_eq]
    rw [Script.escape?, ← ending_eq] at contained
    generalize Action.performAll setting.document now (.start member.reporter)
      member.script.immediate = performed at used contained launched
    rw [Option.bind_none, Option.toList_none, List.map_nil, List.append_nil]
    cases done : (member.invoke setting now).1.member.reporter.isFinished with
    | true =>
      refine .concluded done ?_
      rw [conduct.key_eq]
      refine isConcluded_ofUses used launched.used unfinished done (fun running => ?_) reports
      rcases launched.goesOn contained with ⟨rfl, ended, -⟩ | ⟨-, blames⟩
      · rw [ended]
        rfl
      · exact blames running
    | false =>
      rcases launched.goesOn contained with ⟨rfl, ended, waits⟩ | ⟨finished, -⟩
      · obtain ⟨more, told_eq⟩ := exists_told_of_running (used.trans launched.used) done
        refine .running (reports ++ more) done ?_
        rw [waits, ended, ofUses, List.drop_left, ← List.append_nil performed.effects, told_eq,
          told_append]
        simp
      · rw [done] at finished
        contradiction

end Recounted

end Linting
end MarkupLint
