import MarkupLint.Linting.Task

/-!
# Conduct towards a reporter

Whatever a member does to its reporter, it uses it for reports and to be done, and all effects of
these uses are effects of the member, in order.  So the reporter keeps its rule and its index, it
becomes done once at most, nothing is delivered once it is done, and what is delivered bears its
rule and its index.
-/

namespace MarkupLint

/-- Whether a record is a warning of a linting. -/
def LogRecord.isRemark (record : LogRecord) : Bool :=
  record.level = .warning && record.channel = "svglint.linting"

namespace Reporter

/-- One as long as the reporter is not done, and zero from then on. -/
def openCount (reporter : Reporter) : Nat := if reporter.isFinished then 0 else 1

theorem openCount_eq_zero_iff (reporter : Reporter) :
    reporter.openCount = 0 ↔ reporter.isFinished = true := by
  unfold openCount
  split <;> simp_all

/-- How a reporter is used, with the effects that follow. -/
structure Conduct (before after : Reporter) (effects : List Effect) : Prop where
  rule_eq : after.rule = before.rule
  index_eq : after.index = before.index
  /-- The reporter becomes done as often as the effects say so. -/
  balance : before.openCount = after.openCount + effects.count .finished
  attributed : ∀ diagnostic, .delivered diagnostic ∈ effects →
    diagnostic.rule = before.rule ∧ diagnostic.index = before.index
  /-- Nothing is delivered once the reporter is done. -/
  silent : before.isFinished = true → ∀ diagnostic, .delivered diagnostic ∉ effects

namespace Conduct

variable {before middle after : Reporter}

theorem refl (reporter : Reporter) : Conduct reporter reporter [] where
  rule_eq := rfl
  index_eq := rfl
  balance := by simp
  attributed := by simp
  silent := by simp

/-- A reporter that is done stays so. -/
theorem isFinished_of_isFinished
    {effects : List Effect}
    (conduct : Conduct before after effects)
    (finished : before.isFinished = true) :
    after.isFinished = true := by
  have spent := (openCount_eq_zero_iff before).mpr finished
  have balance := conduct.balance
  apply (openCount_eq_zero_iff after).mp
  omega

/-- A reporter is done just if it was done before or the effects say so. -/
theorem isFinished_iff {effects : List Effect} (conduct : Conduct before after effects) :
    after.isFinished = true ↔ before.isFinished = true ∨ .finished ∈ effects := by
  have balance := conduct.balance
  rw [← openCount_eq_zero_iff, ← openCount_eq_zero_iff, ← List.count_pos_iff]
  have once : before.openCount ≤ 1 := by
    unfold openCount
    split <;> omega
  omega

/-- One use of a reporter after another is a use of it. -/
theorem trans
    {first second : List Effect}
    (begun : Conduct before middle first)
    (ended : Conduct middle after second) :
    Conduct before after (first ++ second) where
  rule_eq := ended.rule_eq.trans begun.rule_eq
  index_eq := ended.index_eq.trans begun.index_eq
  balance := by
    have early := begun.balance
    have late := ended.balance
    rw [List.count_append]
    omega
  attributed := by
    intro diagnostic delivered
    rcases List.mem_append.mp delivered with early | late
    · exact begun.attributed diagnostic early
    · have own := ended.attributed diagnostic late
      exact ⟨own.1.trans begun.rule_eq, own.2.trans begun.index_eq⟩
  silent := by
    intro finished diagnostic delivered
    rcases List.mem_append.mp delivered with early | late
    · exact begun.silent finished diagnostic early
    · exact ended.silent (begun.isFinished_of_isFinished finished) diagnostic late

theorem report
    (reporter : Reporter)
    (now : Rat)
    (severity : Severity)
    (message : String)
    (node? : Option String) :
    Conduct reporter (reporter.report now severity message node?).1
      (reporter.report now severity message node?).2 := by
  cases finished : reporter.isFinished
  · simp only [Reporter.report, finished]
    exact ⟨rfl, rfl, by simp [openCount, finished], by simp, by simp [finished]⟩
  · rw [report_of_isFinished finished]
    exact ⟨rfl, rfl, by simp, by simp, by simp⟩

theorem finish (reporter : Reporter) : Conduct reporter reporter.finish.1 reporter.finish.2 := by
  unfold Reporter.finish
  split
  · exact refl reporter
  · next running => exact ⟨rfl, rfl, by simp [openCount, running], by simp, by simp⟩

end Conduct

/-- A reporter is used some times, one after another, with the effects that follow. -/
inductive Used (before : Reporter) : Reporter → List Effect → Prop where
  | refl : Used before before []
  | thenReport
      {middle : Reporter}
      {effects : List Effect}
      (used : Used before middle effects)
      (now : Rat)
      (severity : Severity)
      (message : String)
      (node? : Option String) :
      Used before (middle.report now severity message node?).1
        (effects ++ (middle.report now severity message node?).2)
  | thenFinish
      {middle : Reporter}
      {effects : List Effect}
      (used : Used before middle effects) :
      Used before middle.finish.1 (effects ++ middle.finish.2)

namespace Used

variable {before middle after : Reporter} {effects : List Effect}

theorem report
    (reporter : Reporter)
    (now : Rat)
    (severity : Severity)
    (message : String)
    (node? : Option String) :
    Used reporter (reporter.report now severity message node?).1
      (reporter.report now severity message node?).2 :=
  refl.thenReport now severity message node?

theorem fail
    (reporter : Reporter)
    (now : Rat)
    (failure : Failure)
    (node? : Option String) :
    Used reporter (reporter.fail now failure node?).1 (reporter.fail now failure node?).2 :=
  report reporter now .error failure.report node?

theorem finish (reporter : Reporter) : Used reporter reporter.finish.1 reporter.finish.2 :=
  refl.thenFinish

/-- Some uses of a reporter after others are uses of it. -/
theorem trans
    {first second : List Effect}
    (begun : Used before middle first)
    (ended : Used middle after second) :
    Used before after (first ++ second) := by
  induction ended with
  | refl =>
    rw [List.append_nil]
    exact begun
  | thenReport _ now severity message node? ih =>
    rw [← List.append_assoc]
    exact ih.thenReport now severity message node?
  | thenFinish _ ih =>
    rw [← List.append_assoc]
    exact ih.thenFinish

theorem conduct (used : Used before after effects) : Conduct before after effects := by
  induction used with
  | refl => exact .refl before
  | thenReport _ now severity message node? ih => exact ih.trans (.report _ _ _ _ _)
  | thenFinish _ ih => exact ih.trans (.finish _)

/-- A report that is dropped is noted by the reporter. -/
theorem channel_eq
    (used : Used before after effects)
    {record : LogRecord}
    (dropped : .dropped record ∈ effects) :
    record.channel = "svglint.reporter" := by
  have last : ∀ {effects own : List Effect},
      (.dropped record ∈ effects → record.channel = "svglint.reporter") →
      (.dropped record ∈ own → record.channel = "svglint.reporter") →
      .dropped record ∈ effects ++ own → record.channel = "svglint.reporter" :=
    fun early late known => (List.mem_append.mp known).elim early late
  induction used with
  | refl => simp at dropped
  | thenReport _ now severity message node? ih =>
    refine last ih (fun known => ?_) dropped
    unfold Reporter.report at known
    split at known
    · rw [List.mem_singleton, Effect.dropped.injEq] at known
      rw [known]
      rfl
    · simp at known
  | thenFinish _ ih =>
    refine last ih (fun known => ?_) dropped
    unfold Reporter.finish at known
    split at known <;> simp at known

end Used
end Reporter

namespace Performance

/-- A performance goes on from another one: the effects so far stay, and the reporter is used for
the others. -/
def Extends (before after : Performance) : Prop :=
  ∃ effects, after.effects = before.effects ++ effects ∧
    before.reporter.Used after.reporter effects

namespace Extends

theorem refl (performance : Performance) : Extends performance performance :=
  ⟨[], by simp, .refl⟩

theorem trans
    {before middle after : Performance}
    (begun : Extends before middle)
    (ended : Extends middle after) :
    Extends before after := by
  obtain ⟨first, begunEffects, begunUsed⟩ := begun
  obtain ⟨second, endedEffects, endedUsed⟩ := ended
  refine ⟨first ++ second, ?_, begunUsed.trans endedUsed⟩
  rw [endedEffects, begunEffects, List.append_assoc]

theorem use
    (performance : Performance)
    (act : Reporter → Reporter × List Reporter.Effect)
    (used : performance.reporter.Used (act performance.reporter).1
      (act performance.reporter).2) :
    Extends performance (performance.use act) :=
  ⟨(act performance.reporter).2, rfl, used⟩

theorem stop (performance : Performance) (ending : Ending) :
    Extends performance (performance.stop ending) :=
  refl performance

end Extends
end Performance

namespace Action

open Performance

/-- What holds of a reporter with its effects still holds when an action has been performed at an
instant, if reports at the instant and being done keep it. -/
theorem perform_induction
    {motive : Reporter → List Reporter.Effect → Prop}
    {now : Rat}
    {before : Performance}
    (report : ∀ reporter effects severity message node?, motive reporter effects →
      motive (reporter.report now severity message node?).1
        (effects ++ (reporter.report now severity message node?).2))
    (finish : ∀ reporter effects, motive reporter effects →
      motive reporter.finish.1 (effects ++ reporter.finish.2))
    (holds : motive before.reporter before.effects)
    (document : Document)
    (action : Action) :
    motive (action.perform document now before).reporter
      (action.perform document now before).effects := by
  cases action with
  | report severity message target =>
    simp only [perform]
    split
    · exact holds
    · exact report _ _ _ _ _ holds
  | reportFailure failure target =>
    simp only [perform]
    split
    · exact holds
    · exact report _ _ _ _ _ holds
  | finish => exact finish _ _ holds
  | fail failure => exact holds
  | reportEach selector message =>
    simp only [perform]
    split
    · exact holds
    · next nodes found =>
      clear found
      induction nodes generalizing before with
      | nil => exact holds
      | cons node rest ih => exact ih (report _ _ _ _ _ holds)
  | reportStatus => exact report _ _ _ _ _ holds
  | leave => exact holds
  | cancel => exact holds

/-- Performing an action goes on from before. -/
theorem extends_perform
    (document : Document)
    (now : Rat)
    (before : Performance)
    (action : Action) :
    before.Extends (action.perform document now before) := by
  refine @perform_induction (fun reporter effects => ∃ own, effects = before.effects ++ own ∧
    before.reporter.Used reporter own) now before ?_ ?_ (Extends.refl before) document action
  · rintro reporter _ severity message node? ⟨own, rfl, used⟩
    exact ⟨_, List.append_assoc _ _ _, used.thenReport now severity message node?⟩
  · rintro reporter _ ⟨own, rfl, used⟩
    exact ⟨_, List.append_assoc _ _ _, used.thenFinish⟩

/-- Performing actions goes on from before. -/
theorem extends_performAll
    (document : Document)
    (now : Rat)
    (before : Performance)
    (actions : List Action) :
    before.Extends (performAll document now before actions) := by
  induction actions generalizing before with
  | nil => exact .refl before
  | cons action rest ih =>
    have performed := extends_perform document now before action
    simp only [performAll]
    split
    · exact performed
    · exact performed.trans (ih _)

end Action

namespace Linting
namespace Stretch

open Performance

/-- Running steps uses the reporter behind what has been performed before. -/
theorem exists_effects_run
    (document : Document)
    (now : Rat)
    (before : Performance)
    (steps : List Step) :
    ∃ effects, (run document now before steps).effects = before.effects ++ effects ∧
      before.reporter.Used (run document now before steps).reporter effects := by
  induction steps generalizing before with
  | nil => exact Extends.refl before
  | cons step rest ih =>
    cases step with
    | act action =>
      have performed := action.extends_perform document now before
      simp only [run]
      split
      · exact performed
      · obtain ⟨first, begunEffects, begunUsed⟩ := performed
        obtain ⟨second, endedEffects, endedUsed⟩ := ih (action.perform document now before)
        refine ⟨first ++ second, ?_, begunUsed.trans endedUsed⟩
        rw [endedEffects, begunEffects, List.append_assoc]
    | sleep seconds onCancel swallows => exact Extends.refl before
    | hang onCancel swallows => exact Extends.refl before

end Stretch

namespace Member

/-- What an effect of a turn of a member says of the use of its reporter. -/
def Effect.use? : Effect → Option Reporter.Effect
  | .delivered diagnostic => some (.delivered diagnostic)
  | .finished => some .finished
  | .log record => if record.channel = "svglint.reporter" then some (.dropped record) else none
  | _ => none

/-- How effects of a turn of a member say that its reporter is used. -/
def uses (effects : List Effect) : List Reporter.Effect := effects.filterMap Effect.use?

/-- The remark that an effect of a turn of a member adds to the log. -/
def Effect.remark? : Effect → Option LogRecord
  | .log record => if record.isRemark then some record else none
  | _ => none

/-- The remarks that effects of a turn of a member add to the log, in order. -/
def remarks (effects : List Effect) : List LogRecord := effects.filterMap Effect.remark?

@[simp] theorem uses_nil : uses [] = [] := rfl

theorem uses_cons (effect : Effect) (rest : List Effect) :
    uses (effect :: rest) = effect.use?.toList ++ uses rest := by
  rw [uses, List.filterMap_cons]
  cases effect.use? <;> rfl

theorem uses_append (first second : List Effect) :
    uses (first ++ second) = uses first ++ uses second :=
  List.filterMap_append

theorem remarks_append (first second : List Effect) :
    remarks (first ++ second) = remarks first ++ remarks second :=
  List.filterMap_append

theorem count_finished_uses (effects : List Effect) :
    (uses effects).count .finished = effects.count .finished := by
  induction effects with
  | nil => rfl
  | cons effect rest ih =>
    rw [uses_cons, List.count_append, ih, List.count_cons, Nat.add_comm]
    congr 1
    cases effect with
    | log record =>
      simp only [Effect.use?]
      split <;> simp
    | _ => simp [Effect.use?]

theorem mem_uses_delivered {effects : List Effect} {diagnostic : Diagnostic} :
    .delivered diagnostic ∈ uses effects ↔ .delivered diagnostic ∈ effects := by
  simp only [uses, List.mem_filterMap]
  constructor
  · rintro ⟨effect, known, same⟩
    cases effect with
    | delivered other =>
      cases same
      exact known
    | log record =>
      simp only [Effect.use?] at same
      split at same <;> simp at same
    | _ => simp [Effect.use?] at same
  · intro known
    exact ⟨_, known, rfl⟩

/-- What a member does in a turn: it keeps its script, and uses its reporter. -/
structure Conduct (before : Member) (course : Course) : Prop where
  script_eq : course.member.script = before.script
  rule_eq : course.member.reporter.rule = before.reporter.rule
  index_eq : course.member.reporter.index = before.reporter.index
  /-- The member becomes done as often as the effects say so. -/
  balance : before.reporter.openCount =
    course.member.reporter.openCount + course.effects.count .finished
  attributed : ∀ diagnostic, .delivered diagnostic ∈ course.effects →
    diagnostic.rule = before.reporter.rule ∧ diagnostic.index = before.reporter.index
  /-- Nothing is delivered once the member is done. -/
  silent : before.reporter.isFinished = true →
    ∀ diagnostic, .delivered diagnostic ∉ course.effects

/-- A member that is done stays so. -/
theorem Conduct.isFinished_of_isFinished
    {before : Member}
    {course : Course}
    (conduct : Conduct before course)
    (finished : before.reporter.isFinished = true) :
    course.member.reporter.isFinished = true := by
  have spent := (Reporter.openCount_eq_zero_iff _).mpr finished
  have balance := conduct.balance
  apply (Reporter.openCount_eq_zero_iff _).mp
  omega

namespace Course

@[simp] theorem member_emit (course : Course) (effect : Effect) :
    (course.emit effect).member = course.member := rfl

@[simp] theorem effects_emit (course : Course) (effect : Effect) :
    (course.emit effect).effects = course.effects ++ [effect] := rfl

@[simp] theorem member_modify (course : Course) (change : Member → Member) :
    (course.modify change).member = change course.member := rfl

@[simp] theorem effects_modify (course : Course) (change : Member → Member) :
    (course.modify change).effects = course.effects := rfl

@[simp] theorem member_start (member : Member) : (start member).member = member := rfl

@[simp] theorem effects_start (member : Member) : (start member).effects = [] := rfl

@[simp] theorem reporter_wakeWatch (course : Course) :
    course.wakeWatch.member.reporter = course.member.reporter := by
  unfold wakeWatch
  split <;> rfl

@[simp] theorem script_wakeWatch (course : Course) :
    course.wakeWatch.member.script = course.member.script := by
  unfold wakeWatch
  split <;> rfl

/-- Waking the watch makes at most a turn of the watch ready. -/
theorem effects_wakeWatch (course : Course) :
    course.wakeWatch.effects = course.effects ∨
      course.wakeWatch.effects = course.effects ++ [.soon .watch] := by
  unfold wakeWatch
  split <;> simp

/-- Having the effects of the reporter changes neither the reporter nor the script. -/
theorem keeps_absorbAll (course : Course) (effects : List Reporter.Effect) :
    (course.absorbAll effects).member.reporter = course.member.reporter ∧
      (course.absorbAll effects).member.script = course.member.script := by
  induction effects generalizing course with
  | nil => exact ⟨rfl, rfl⟩
  | cons effect rest ih =>
    have kept := ih (course.absorb effect)
    simp only [absorbAll, List.foldl_cons] at kept ⊢
    rw [kept.1, kept.2]
    cases effect <;> simp [absorb]

/-- The effects of the reporter become effects of the member, in order. -/
theorem uses_absorbAll
    {effects : List Reporter.Effect}
    (noted : ∀ record, .dropped record ∈ effects → record.channel = "svglint.reporter")
    (course : Course) :
    uses (course.absorbAll effects).effects = uses course.effects ++ effects := by
  induction effects generalizing course with
  | nil => rw [absorbAll, List.foldl_nil, List.append_nil]
  | cons effect rest ih =>
    have others := ih (fun record known => noted record (List.mem_cons_of_mem _ known))
      (course.absorb effect)
    have first : uses (course.absorb effect).effects = uses course.effects ++ [effect] := by
      cases effect with
      | delivered diagnostic => exact uses_append _ _
      | finished =>
        rcases effects_wakeWatch course with same | woken
        · simp [absorb, same, uses_append, uses_cons, Effect.use?]
        · simp [absorb, woken, uses_append, uses_cons, Effect.use?]
      | dropped record =>
        simp [absorb, uses_append, uses_cons, Effect.use?, noted record List.mem_cons_self]
    rw [absorbAll, List.foldl_cons]
    rw [absorbAll] at others
    rw [others, first, List.append_assoc, List.singleton_append]

/-- The effects of the reporter add no remarks. -/
theorem remarks_absorbAll
    {effects : List Reporter.Effect}
    (noted : ∀ record, .dropped record ∈ effects → record.channel = "svglint.reporter")
    (course : Course) :
    remarks (course.absorbAll effects).effects = remarks course.effects := by
  induction effects generalizing course with
  | nil => rfl
  | cons effect rest ih =>
    have others := ih (fun record known => noted record (List.mem_cons_of_mem _ known))
      (course.absorb effect)
    have first : remarks (course.absorb effect).effects = remarks course.effects := by
      cases effect with
      | delivered diagnostic => simp [absorb, remarks, Effect.remark?]
      | finished =>
        rcases effects_wakeWatch course with same | woken
        · simp [absorb, same, remarks, Effect.remark?]
        · simp [absorb, woken, remarks, Effect.remark?]
      | dropped record =>
        simp [absorb, remarks, Effect.remark?, LogRecord.isRemark,
          noted record List.mem_cons_self]
    exact others.trans first

end Course

/-- What a member does in a turn: it keeps its script, and the effects tell how it uses its
reporter. -/
structure Used (before : Member) (course : Course) : Prop where
  script_eq : course.member.script = before.script
  used : before.reporter.Used course.member.reporter (uses course.effects)

namespace Used

open Course

variable {before : Member} {course : Course}

/-- A member that uses its reporter conducts itself as it should. -/
theorem conduct (used : Used before course) : Conduct before course where
  script_eq := used.script_eq
  rule_eq := used.used.conduct.rule_eq
  index_eq := used.used.conduct.index_eq
  balance := by
    rw [← count_finished_uses]
    exact used.used.conduct.balance
  attributed diagnostic delivered :=
    used.used.conduct.attributed diagnostic (mem_uses_delivered.mpr delivered)
  silent finished diagnostic delivered :=
    used.used.conduct.silent finished diagnostic (mem_uses_delivered.mpr delivered)

theorem start (member : Member) : Used member (Course.start member) := ⟨rfl, .refl⟩

/-- Effects that say nothing of the reporter do not matter. -/
theorem emit
    {effect : Effect}
    (used : Used before course)
    (useless : effect.use? = none) :
    Used before (course.emit effect) where
  script_eq := used.script_eq
  used := by
    have none : uses [effect] = [] := by rw [uses_cons, useless, uses_nil, Option.toList_none,
      List.append_nil]
    rw [effects_emit, uses_append, none, List.append_nil]
    exact used.used

/-- Changes that leave the script and the reporter alone do not matter. -/
theorem modify
    (used : Used before course)
    (change : Member → Member)
    (script_change : (change course.member).script = course.member.script)
    (reporter_change : (change course.member).reporter = course.member.reporter) :
    Used before (course.modify change) where
  script_eq := script_change.trans used.script_eq
  used := by
    rw [member_modify, reporter_change, effects_modify]
    exact used.used

/-- A use of the reporter is a use by the member. -/
theorem absorbAll
    {reporter : Reporter}
    {effects : List Reporter.Effect}
    (begun : Used before course)
    (used : course.member.reporter.Used reporter effects) :
    Used before
      ((course.modify fun member => { member with reporter := reporter }).absorbAll effects) := by
  have kept := keeps_absorbAll
    (course.modify fun member => { member with reporter := reporter }) effects
  refine ⟨kept.2.trans begun.script_eq, ?_⟩
  rw [kept.1, uses_absorbAll fun record dropped => used.channel_eq dropped]
  exact begun.used.trans used

theorem use
    (begun : Used before course)
    (act : Reporter → Reporter × List Reporter.Effect)
    (used : course.member.reporter.Used (act course.member.reporter).1
      (act course.member.reporter).2) :
    Used before (course.use act) :=
  begun.absorbAll used

end Used

/-- What a member does in a turn without a remark. -/
structure Discreet (before : Member) (course : Course) : Prop extends Used before course where
  remarks_eq : remarks course.effects = []

namespace Discreet

open Course

variable {before : Member} {course : Course}

theorem start (member : Member) : Discreet member (Course.start member) := ⟨.start member, rfl⟩

theorem emit
    {effect : Effect}
    (discreet : Discreet before course)
    (useless : effect.use? = none)
    (silent : effect.remark? = none) :
    Discreet before (course.emit effect) where
  toUsed := discreet.toUsed.emit useless
  remarks_eq := by
    rw [effects_emit, remarks_append, discreet.remarks_eq]
    simp [remarks, silent]

theorem modify
    (discreet : Discreet before course)
    (change : Member → Member)
    (script_change : (change course.member).script = course.member.script)
    (reporter_change : (change course.member).reporter = course.member.reporter) :
    Discreet before (course.modify change) where
  toUsed := discreet.toUsed.modify change script_change reporter_change
  remarks_eq := discreet.remarks_eq

theorem absorbAll
    {reporter : Reporter}
    {effects : List Reporter.Effect}
    (discreet : Discreet before course)
    (used : course.member.reporter.Used reporter effects) :
    Discreet before
      ((course.modify fun member => { member with reporter := reporter }).absorbAll effects) where
  toUsed := discreet.toUsed.absorbAll used
  remarks_eq := (remarks_absorbAll (fun _ dropped => used.channel_eq dropped) _).trans
    discreet.remarks_eq

theorem use
    (discreet : Discreet before course)
    (act : Reporter → Reporter × List Reporter.Effect)
    (used : course.member.reporter.Used (act course.member.reporter).1
      (act course.member.reporter).2) :
    Discreet before (course.use act) :=
  discreet.absorbAll used

theorem finish (discreet : Discreet before course) : Discreet before (course.use (·.finish)) :=
  discreet.use _ (.finish _)

theorem await
    (discreet : Discreet before course)
    (since : Rat)
    (idleLeft? : Option Rat) :
    Discreet before (course.await since idleLeft?) := by
  have armed : Discreet before ((course.modify fun member =>
      { member with supervision := .waiting since }).emit (.cancel .idle)) :=
    (discreet.modify _ rfl rfl).emit rfl rfl
  unfold Course.await
  cases idleLeft? with
  | none => exact armed
  | some seconds => exact armed.emit rfl rfl

theorem settle
    (discreet : Discreet before course)
    (now : Rat)
    (ending : Ending) :
    Discreet before (course.settle now ending) := by
  have closed := discreet.modify
    (fun member => { member with supervision := .ended, watch := .ended }) rfl rfl
  unfold Course.settle
  cases ending with
  | completed => exact closed.finish
  | failed failure => exact (closed.use _ (.fail _ _ _ _)).finish
  | cancelled => exact (closed.use _ (.report _ _ _ _ _)).finish

theorem abandon (discreet : Discreet before course) : Discreet before course.abandon :=
  (discreet.modify (fun member =>
    { member with supervision := .ended, isLate := true, watch := .ended }) rfl rfl).emit rfl rfl

theorem cancelTask (discreet : Discreet before course) : Discreet before course.cancelTask := by
  unfold Course.cancelTask
  split
  · next step rest _ =>
    exact ((discreet.modify (fun member =>
      { member with task := .rested step rest, isCancelling := true }) rfl rfl).emit rfl rfl).emit
        rfl rfl
  · exact discreet.modify (fun member => { member with isCancelling := true }) rfl rfl
  · exact discreet.modify (fun member => { member with isCancelling := true }) rfl rfl
  · exact discreet

theorem expire
    (discreet : Discreet before course)
    (setting : Setting)
    (now : Rat) :
    Discreet before (course.expire setting now) :=
  ((discreet.cancelTask.use _ (.report _ _ _ _ _)).finish).abandon

theorem launch
    (discreet : Discreet before course)
    (steps : List Step) :
    Discreet before (course.launch steps) :=
  ((discreet.modify (fun member =>
    { member with task := .fresh steps, supervision := .fresh }) rfl rfl).emit rfl rfl).emit rfl rfl

end Discreet

variable (setting : Setting) (now : Rat) (member : Member)

theorem discreet_supervise : member.Discreet (member.supervise setting now) := by
  have begun := Discreet.start member
  simp only [supervise]
  split
  · split
    · exact begun.settle now _
    · exact ((begun.modify (fun member => { member with watch := .fresh }) rfl rfl).emit rfl rfl).await
        now _
  · split
    · exact (begun.emit rfl rfl).settle now _
    · split
      · exact begun.abandon
      · split
        · exact begun.expire setting now
        · exact begun.await _ _
  · exact begun

theorem discreet_wakeSupervisor : member.Discreet member.wakeSupervisor := by
  have begun := Discreet.start member
  unfold wakeSupervisor
  split
  · next since _ =>
    exact ((begun.modify (fun member =>
      { member with supervision := .woken since }) rfl rfl).emit rfl rfl).emit rfl rfl
  · exact begun

theorem discreet_watchReporter : member.Discreet member.watchReporter := by
  have begun := Discreet.start member
  simp only [watchReporter]
  split
  · exact (begun.modify (fun member => { member with watch := .ended }) rfl rfl).emit rfl rfl
  · split
    · exact begun.modify (fun member => { member with watch := .waiting }) rfl rfl
    · exact begun

theorem discreet_runTask : member.Discreet (member.runTask setting now) := by
  unfold runTask
  split
  · exact .start member
  · next steps _ =>
    obtain ⟨effects, same, used⟩ :=
      Stretch.exists_effects_run setting.document now (.start member.reporter) steps
    generalize Stretch.run setting.document now (.start member.reporter) steps = stretch at same used
    have ran : member.Discreet ((Course.start (member.afterStretch stretch)).absorbAll
        stretch.effects) := by
      rw [same]
      exact ((Discreet.start member).modify (fun member =>
        { member with task := stretch.task, isCancelling := false }) rfl rfl).absorbAll used
    simp only [rest]
    split
    · exact ran.emit rfl rfl
    · exact ran.emit rfl rfl
    · split
      · exact ran.emit rfl rfl
      · split
        · exact ran.emit rfl rfl
        · exact ran
    · exact ran

theorem discreet_wakeTask : member.Discreet member.wakeTask := by
  have begun := Discreet.start member
  unfold wakeTask
  split
  · next step rest _ =>
    exact (begun.modify (fun member => { member with task := .rested step rest }) rfl rfl).emit rfl rfl
  · exact begun

theorem used_noteLate : member.Used (member.noteLate setting) := by
  have begun := Used.start member
  unfold noteLate
  split
  · exact begun.emit rfl
  · exact begun

/-- In each turn but the one that looks at the end of a late task, a member makes no remark. -/
theorem discreet_take
    {turn : Turn}
    (timely : turn ≠ .late) :
    member.Discreet (member.take setting now turn) := by
  cases turn with
  | task => exact discreet_runTask setting now member
  | wake => exact discreet_wakeTask member
  | supervisor => exact discreet_supervise setting now member
  | idle => exact discreet_wakeSupervisor member
  | watch => exact discreet_watchReporter member
  | notice => exact discreet_wakeSupervisor member
  | late => contradiction

/-- In each turn, a member uses its reporter. -/
theorem used_take (turn : Turn) : member.Used (member.take setting now turn) := by
  by_cases late : turn = .late
  · rw [late]
    exact used_noteLate setting member
  · exact (discreet_take setting now member late).toUsed

/-- Being invoked, a member makes no remark. -/
theorem discreet_invoke : member.Discreet (member.invoke setting now).1 := by
  obtain ⟨effects, same, used⟩ := Action.extends_performAll setting.document now
    (.start member.reporter) member.script.immediate
  have performed := (Discreet.start member).use
    (fun _ => ((Action.performAll setting.document now (.start member.reporter)
      member.script.immediate).reporter, effects)) used
  simp only [Performance.start, List.nil_append] at same performed
  simp only [invoke, Performance.start, same]
  split
  · exact performed
  · unfold Course.proceed
    split
    · exact (performed.use _ (.fail _ _ _ _)).finish
    · exact performed.launch _
    · exact performed.finish

/-- Being invoked, a member uses its reporter. -/
theorem used_invoke : member.Used (member.invoke setting now).1 :=
  (discreet_invoke setting now member).toUsed

/-- In each turn, a member conducts itself as it should. -/
theorem conduct_take (turn : Turn) : member.Conduct (member.take setting now turn) :=
  (used_take setting now member turn).conduct

/-- Being invoked, a member conducts itself as it should. -/
theorem conduct_invoke : member.Conduct (member.invoke setting now).1 :=
  (used_invoke setting now member).conduct

end Member
end Linting
end MarkupLint
