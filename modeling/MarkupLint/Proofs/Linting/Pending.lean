import MarkupLint.Proofs.Grouping
import MarkupLint.Proofs.Linting.Audience
import MarkupLint.Proofs.Linting.Follow

/-!
# The pending counter and the end of a run

From the moment a run begins, its pending counter is the number of members that are not done.  The
diagnostics are frozen, and the state is final, exactly when a run has come to its end with all
members done, and nothing that happens afterwards changes either.
-/

namespace MarkupLint
namespace Linting

/-- A new linting has declared its rules. -/
theorem diagnostics_new
    (document : Document)
    (rules : RuleSet)
    (timeout? : Option Binary64)
    (precision : Precision) :
    (new document rules timeout? precision).diagnostics =
      Collection.afterDeclaring rules.keys [] :=
  Collection.foldl_declare rules.keys

/-- The number of members that are not done. -/
def unfinished (linting : Linting) : Nat :=
  linting.members.countP fun member => !member.reporter.isFinished

/-- Whether the run has come to its end with all members done. -/
def Phase.isClosed : Phase → Bool
  | .ended (.stopped _) => false
  | .ended _ => true
  | _ => false

/-- Whether a member has stopped the run. -/
def Phase.isStopped : Phase → Bool
  | .ended (.stopped _) => true
  | _ => false

theorem Phase.exists_ended_of_isClosed {phase : Phase} (closed : phase.isClosed = true) :
    ∃ outcome, phase = .ended outcome := by
  cases phase with
  | ended outcome => exact ⟨outcome, rfl⟩
  | _ => contradiction

/-- Whether the members have not begun to be invoked. -/
def Phase.isEarly : Phase → Bool
  | .unstarted => true
  | .scheduled => true
  | _ => false

/-- Whether the run has begun. -/
def isBegun (linting : Linting) : Bool := !linting.phase.isEarly

/-- Use the reporter of a member in the middle of a turn. -/
def useReporter
    (linting : Linting)
    (index : Nat)
    (act : Reporter → Reporter × List Reporter.Effect) :
    Linting :=
  match linting.members[index]? with
  | none => linting
  | some member =>
    ((Progress.start linting).follow index ((Member.Course.start member).use act)).linting

/-- What may happen to a linting: a request or a turn, or a part of a turn.  Waiting and looking
change nothing. -/
inductive Move where
  | start
  | subscribe (milestone : Milestone) (observer : Observer)
  | take (now : Rat) (turn : Turn)
  /-- The run begins, and no member has been invoked. -/
  | enter
  /-- A member is invoked while others are not. -/
  | invoke (index : Nat) (now : Rat)
  /-- A member reports in the middle of a turn. -/
  | report (index : Nat) (now : Rat) (severity : Severity) (message : String)
      (node? : Option String)
  /-- A member says that it is done in the middle of a turn. -/
  | finish (index : Nat)

/-- The linting after something has happened, if it can happen. -/
def move (linting : Linting) : Move → Linting
  | .start => linting.start.1.linting
  | .subscribe milestone observer => (linting.subscribe milestone observer).1.linting
  | .take now turn => (linting.take now turn).linting
  | .enter =>
    if linting.phase = .scheduled then (Progress.start linting).enter.linting else linting
  | .invoke index now =>
    if linting.phase = .invoking then ((Progress.start linting).invoke index now).1.linting
    else linting
  | .report index now severity message node? =>
    if linting.isBegun then linting.useReporter index (·.report now severity message node?)
    else linting
  | .finish index =>
    if linting.isBegun then linting.useReporter index (·.finish) else linting

/-- The linting after several things have happened, one after another. -/
def after (linting : Linting) (moves : List Move) : Linting := moves.foldl move linting

/-- A member may deliver a diagnostic next: in a turn, when it is invoked, or by a report. -/
def MayDeliver (linting : Linting) (diagnostic : Diagnostic) : Prop :=
  ∃ member ∈ linting.members, ∃ now,
    (∃ turn, .delivered diagnostic ∈ (member.take linting.toSetting now turn).effects) ∨
    .delivered diagnostic ∈ (member.invoke linting.toSetting now).1.effects ∨
    ∃ severity message node?,
      .delivered diagnostic ∈ (member.reporter.report now severity message node?).2

/-- A member that has not been invoked. -/
def Member.Untouched (member : Member) : Prop :=
  ∃ rule index script, member = .new rule index script

/-- The pending counter, the members and the diagnostics agree with each other. -/
structure Balanced (linting : Linting) : Prop where
  untouched : linting.phase.isEarly = true → ∀ member ∈ linting.members, member.Untouched
  counted : linting.phase.isEarly = false → linting.pending = linting.unfinished
  waiting : linting.phase = .waiting → linting.pending ≠ 0
  settled : linting.phase = .settled → linting.pending = 0
  closed : linting.phase.isClosed = true → linting.pending = 0
  isFrozen_eq : linting.diagnostics.isFrozen = linting.phase.isClosed
  isTerminal_eq : linting.state.isTerminal = linting.phase.isClosed
  isStarted_eq : linting.audience.hasReached .started = linting.isStarted
  isDone_eq : linting.audience.hasReached .done = linting.phase.isClosed

namespace Member

/-- A member that has not been invoked does nothing in a turn. -/
theorem Untouched.take
    {member : Member}
    (untouched : member.Untouched)
    (setting : Setting)
    (now : Rat)
    (turn : Turn) :
    member.take setting now turn = Course.start member := by
  obtain ⟨rule, index, script, rfl⟩ := untouched
  cases turn <;> rfl

end Member

/-- The counter follows a member. -/
theorem unfinished_of_followed
    {before after : Linting}
    {index : Nat}
    {member : Member}
    {course : Member.Course}
    (known : before.members[index]? = some member)
    (conduct : member.Conduct course)
    (followed : Progress.Followed before after index course) :
    (before.unfinished : Int) - course.effects.count .finished = after.unfinished := by
  obtain ⟨bound, found⟩ := List.getElem?_eq_some_iff.mp known
  have balance := conduct.balance
  have counted : member.reporter.isFinished = false →
      0 < before.members.countP fun member => !member.reporter.isFinished := fun unfinished =>
    List.countP_pos_iff.mpr ⟨member, List.mem_of_getElem? known, by simp [unfinished]⟩
  unfold unfinished
  rw [followed.members_eq, List.countP_set bound, found]
  generalize before.members.countP (fun member => !member.reporter.isFinished) = count at counted ⊢
  unfold Reporter.openCount at balance
  cases early : member.reporter.isFinished <;>
    cases late : course.member.reporter.isFinished <;>
      simp only [early, late, Bool.not_true, Bool.not_false, if_true, if_false, Bool.false_eq_true,
        true_implies] at balance counted ⊢ <;> omega

namespace Balanced

/-- With the last member that is done, the run is settled. -/
theorem follow_of_last
    {before after : Linting}
    {index : Nat}
    {course : Member.Course}
    (balanced : Balanced before)
    (followed : Progress.Followed before after index course)
    (counts : before.unfinished - course.effects.count .finished = (after.unfinished : Int))
    (finished : .finished ∈ course.effects)
    (last : before.pending = 1)
    (waits : before.phase = .waiting) :
    Balanced after := by
  have counted := balanced.counted (by rw [waits]; rfl)
  have pending := followed.pending_eq
  have phase := followed.phase_eq
  rw [if_pos ⟨finished, last, waits⟩] at phase
  have once : 0 < course.effects.count .finished := List.count_pos_iff.mpr finished
  have spent : after.pending = 0 := by omega
  refine ⟨?_, ?_, ?_, fun _ => spent, ?_, ?_, ?_, ?_, ?_⟩
  · simp [phase, Phase.isEarly]
  · intro _
    omega
  · simp [phase]
  · simp [phase, Phase.isClosed]
  · rw [followed.diagnostics_eq, Collection.isFrozen_foldl_accept, balanced.isFrozen_eq, phase, waits]
    rfl
  · rw [followed.state_eq, balanced.isTerminal_eq, phase, waits]
    rfl
  · rw [followed.audience_eq, balanced.isStarted_eq, isStarted, isStarted, phase, waits]
    rfl
  · rw [followed.audience_eq, balanced.isDone_eq, phase, waits]
    rfl

/-- Following a member keeps the balance once the run has begun. -/
theorem follow
    {before after : Linting}
    {index : Nat}
    {member : Member}
    {course : Member.Course}
    (balanced : Balanced before)
    (begun : before.phase.isEarly = false)
    (known : before.members[index]? = some member)
    (conduct : member.Conduct course)
    (followed : Progress.Followed before after index course) :
    Balanced after := by
  have counted := balanced.counted begun
  have counts := unfinished_of_followed known conduct followed
  have pending := followed.pending_eq
  have phase := followed.phase_eq
  by_cases last : .finished ∈ course.effects ∧ before.pending = 1 ∧ before.phase = .waiting
  · exact balanced.follow_of_last followed counts last.1 last.2.1 last.2.2
  rw [if_neg last] at phase
  have rest : course.effects.count .finished = 0 ∨ before.unfinished ≠ 0 := by omega
  refine ⟨?_, ?_, ?_, ?_, ?_, ?_, ?_, ?_, ?_⟩
  · rw [phase, begun]
    simp
  · intro _
    omega
  · intro waits
    rw [phase] at waits
    have nonzero := balanced.waiting waits
    by_cases finished : .finished ∈ course.effects
    · have several : before.pending ≠ 1 := fun one => last ⟨finished, one, waits⟩
      have once := conduct.balance
      have most : member.reporter.openCount ≤ 1 := by
        unfold Reporter.openCount
        split <;> omega
      omega
    · rw [pending, List.count_eq_zero.mpr finished]
      simpa using nonzero
  · intro settles
    rw [phase] at settles
    have zero := balanced.settled settles
    omega
  · intro closes
    rw [phase] at closes
    have zero := balanced.closed closes
    omega
  · rw [followed.diagnostics_eq, Collection.isFrozen_foldl_accept, balanced.isFrozen_eq, phase]
  · rw [followed.state_eq, balanced.isTerminal_eq, phase]
  · rw [followed.audience_eq, balanced.isStarted_eq, isStarted, isStarted, phase]
  · rw [followed.audience_eq, balanced.isDone_eq, phase]

end Balanced

namespace Progress

variable {progress : Progress} {index : Nat} {now : Rat}

/-- Invoking a member keeps the balance, and the phase. -/
theorem balanced_invoke
    (balanced : Balanced progress.linting)
    (invoking : progress.linting.phase = .invoking) :
    Balanced (progress.invoke index now).1.linting ∧
      (progress.invoke index now).1.linting.phase = .invoking := by
  cases invoked progress index now with
  | nobody unknown same =>
    rw [same]
    exact ⟨balanced, invoking⟩
  | member member record known same =>
    rw [same]
    have conduct := member.conduct_invoke progress.linting.toSetting now
    have followed := @followed_follow (progress.emit (.invoked index record)) index member _ known
      conduct
    refine ⟨balanced.follow (by rw [invoking]; rfl) known conduct followed, ?_⟩
    rw [followed.phase_eq, linting_emit, invoking]
    simp

/-- The end that calling the observers of the end leads to. -/
def outcomeOf (name : String) (round : Audience.Round) : Outcome :=
  match ObserverFailure.ofRound? .done name round with
  | none => .completed
  | some failure => .failed failure

theorem isClosed_outcomeOf (name : String) (round : Audience.Round) :
    (Phase.ended (outcomeOf name round)).isClosed = true := by
  unfold outcomeOf
  split <;> rfl

/-- The end of a run freezes the diagnostics, and the state follows from them. -/
theorem linting_finish (progress : Progress) :
    progress.finish.linting =
      { progress.linting with
        diagnostics := progress.linting.diagnostics.freeze
        state := progress.linting.diagnostics.freeze.state
        audience := (progress.linting.audience.announce .done).audience
        phase := .ended
          (outcomeOf progress.linting.name (progress.linting.audience.announce .done)) } := by
  generalize raised : ObserverFailure.ofRound? .done progress.linting.name
    (progress.linting.audience.announce .done) = failure?
  simp only [finish, linting_modify, outcomeOf, raised]
  cases failure? <;> simp [close]

/-- The end of a run is the last thing that it leads to. -/
theorem exists_effects_finish (progress : Progress) :
    ∃ extra, progress.finish.effects = progress.effects ++ extra ++ [.ended] ∧
      extra.filterMap Effect.member? = [] ∧ .cancel .run ∉ extra := by
  simp only [finish]
  split <;>
    · simp only [close, emit, modify, log, effects_called, List.append_assoc]
      rw [← List.append_assoc [_]]
      exact ⟨_, rfl, by simp [Effect.member?], by simp⟩

/-- A run whose members are all done comes to its end in balance. -/
theorem balanced_finish
    (balanced : Balanced progress.linting)
    (begun : progress.linting.phase.isEarly = false)
    (spent : progress.linting.pending = 0) :
    Balanced progress.finish.linting := by
  have counted := balanced.counted begun
  have closed := isClosed_outcomeOf progress.linting.name (progress.linting.audience.announce .done)
  have started := balanced.isStarted_eq
  rw [linting_finish]
  refine ⟨by simp [Phase.isEarly], fun _ => counted, by simp, by simp, fun _ => spent, ?_, ?_,
    ?_, ?_⟩
  · rw [closed]
    rfl
  · rw [closed]
    exact LintState.isTerminal_ofSeverities _
  · have behind : progress.linting.isStarted = true := by
      cases phase : progress.linting.phase <;> simp_all [isStarted, Phase.isEarly]
    rw [Audience.hasReached_announce, started, behind]
    rfl
  · rw [closed, Audience.hasReached_announce]
    rfl

/-- Once the members begin to be invoked, the counter is the number of all of them. -/
theorem balanced_enter
    (balanced : Balanced progress.linting)
    (scheduled : progress.linting.phase = .scheduled) :
    Balanced progress.enter.linting := by
  have early : progress.linting.phase.isEarly = true := by rw [scheduled]; rfl
  have frozen := balanced.isFrozen_eq
  have terminal := balanced.isTerminal_eq
  rw [scheduled] at frozen terminal
  have all : progress.linting.members.countP (fun member => !member.reporter.isFinished) =
      progress.linting.members.length := by
    apply List.countP_eq_length.mpr
    intro member known
    obtain ⟨rule, index, script, rfl⟩ := balanced.untouched early member known
    rfl
  have started := balanced.isStarted_eq
  have done := balanced.isDone_eq
  rw [isStarted, scheduled] at started
  rw [scheduled] at done
  refine ⟨by simp [enter, Phase.isEarly], fun _ => ?_, by simp [enter], by simp [enter],
    by simp [enter, Phase.isClosed], frozen, terminal, started, done⟩
  simp only [enter, linting_modify, unfinished, all]

/-- The turn in which the members are invoked keeps the balance. -/
theorem balanced_begin
    (balanced : Balanced progress.linting)
    (scheduled : progress.linting.phase = .scheduled) :
    Balanced (progress.begin now).linting := by
  have every : Balanced (progress.invokeEvery now).1.linting ∧
      (progress.invokeEvery now).1.linting.phase = .invoking :=
    @invokeAll_induction
      (fun progress => Balanced progress.linting ∧ progress.linting.phase = .invoking) now
      (fun _ _ kept => balanced_invoke kept.1 kept.2) _ ⟨balanced_enter balanced scheduled, rfl⟩ _
  obtain ⟨invoked, invoking⟩ := every
  have counted := invoked.counted (by rw [invoking]; rfl)
  have frozen := invoked.isFrozen_eq
  have terminal := invoked.isTerminal_eq
  have started := invoked.isStarted_eq
  have done := invoked.isDone_eq
  rw [isStarted, invoking] at started
  rw [invoking] at frozen terminal done
  cases begun progress now with
  | stopped failure stops same =>
    rw [same]
    exact ⟨by simp [close, Phase.isEarly], fun _ => counted, by simp [close], by simp [close],
      by simp [close, Phase.isClosed], frozen, terminal, started, done⟩
  | waiting goesOn some same =>
    rw [same]
    refine ⟨by simp [Phase.isEarly], fun _ => counted, fun _ => ?_, by simp,
      by simp [Phase.isClosed], frozen, terminal, started, done⟩
    exact Int.ne_of_gt some
  | finished goesOn none same =>
    rw [same]
    have spent : (progress.invokeEvery now).1.linting.pending = 0 := by omega
    exact balanced_finish invoked (by rw [invoking]; rfl) spent

end Progress

namespace Balanced

variable {linting : Linting}

/-- Every turn keeps the balance. -/
theorem take (balanced : Balanced linting) (now : Rat) (turn : Turn) :
    Balanced (linting.take now turn).linting := by
  cases taken linting now turn with
  | nothing idle nobody same =>
    rw [same]
    exact balanced
  | begin isRun scheduled same =>
    rw [same]
    exact Progress.balanced_begin balanced scheduled
  | finish isRun settled same =>
    rw [same]
    have early : (Progress.start linting).linting.phase.isEarly = false := by
      rw [Progress.linting_start, settled]
      rfl
    exact Progress.balanced_finish balanced early (balanced.settled settled)
  | member index own member isMember known same =>
    rw [same]
    cases early : linting.phase.isEarly
    · have conduct := member.conduct_take linting.toSetting now own
      exact balanced.follow early known conduct
        (@Progress.followed_follow (.start linting) index member _ known conduct)
    · have untouched := balanced.untouched early member (List.mem_of_getElem? known)
      have same : linting.members.set index member = linting.members := by
        obtain ⟨bound, found⟩ := List.getElem?_eq_some_iff.mp known
        rw [← found, List.set_getElem_self]
      simp only [untouched.take, Progress.follow, Progress.setMember]
      simpa [same] using balanced

/-- Using a reporter in the middle of a turn keeps the balance once the run has begun. -/
theorem useReporter
    (balanced : Balanced linting)
    (begun : linting.isBegun = true)
    (index : Nat)
    (act : Reporter → Reporter × List Reporter.Effect)
    (used : ∀ reporter, Reporter.Used reporter (act reporter).1 (act reporter).2) :
    Balanced (linting.useReporter index act) := by
  cases known : linting.members[index]? with
  | none =>
    simp only [Linting.useReporter, known]
    exact balanced
  | some member =>
    have conduct := ((Member.Used.start member).use act (used _)).conduct
    simp only [Linting.useReporter, known]
    exact balanced.follow (by simpa [isBegun] using begun) known conduct
      (@Progress.followed_follow (.start linting) index member _ known conduct)

/-- Starting keeps the balance. -/
theorem start (balanced : Balanced linting) : Balanced linting.start.1.linting := by
  simp only [Linting.start]
  split
  · exact balanced
  · next idle =>
    have unstarted : linting.phase = .unstarted := by simpa [isStarted] using idle
    have frozen := balanced.isFrozen_eq
    have terminal := balanced.isTerminal_eq
    have untouched := balanced.untouched (by rw [unstarted]; rfl)
    have done := balanced.isDone_eq
    rw [unstarted] at frozen terminal done
    simp only [Progress.linting_called, Progress.linting_modify, Progress.linting_emit,
      Progress.linting_start]
    refine ⟨fun _ => untouched, by simp [Phase.isEarly], by simp, by simp,
      by simp [Phase.isClosed], frozen, terminal, ?_, ?_⟩
    · rw [Audience.hasReached_announce]
      rfl
    · rw [Audience.hasReached_announce, done]
      rfl

/-- Subscribing keeps the balance. -/
theorem subscribe (balanced : Balanced linting) (milestone : Milestone) (observer : Observer) :
    Balanced (linting.subscribe milestone observer).1.linting := by
  simp only [Linting.subscribe, Progress.linting_called, Progress.linting_start]
  refine ⟨balanced.untouched, balanced.counted, balanced.waiting, balanced.settled,
    balanced.closed, balanced.isFrozen_eq, balanced.isTerminal_eq, ?_, ?_⟩
  · rw [Audience.hasReached_subscribe]
    exact balanced.isStarted_eq
  · rw [Audience.hasReached_subscribe]
    exact balanced.isDone_eq

/-- Whatever happens keeps the balance. -/
theorem move (balanced : Balanced linting) (move : Move) : Balanced (linting.move move) := by
  cases move with
  | start => exact balanced.start
  | subscribe milestone observer => exact balanced.subscribe milestone observer
  | take now turn => exact balanced.take now turn
  | enter =>
    simp only [Linting.move]
    split
    · next scheduled => exact @Progress.balanced_enter (.start linting) balanced scheduled
    · exact balanced
  | invoke index now =>
    simp only [Linting.move]
    split
    · next invoking =>
      exact (@Progress.balanced_invoke (.start linting) index now balanced invoking).1
    · exact balanced
  | report index now severity message node? =>
    simp only [Linting.move]
    split
    · next begun => exact balanced.useReporter begun index _ fun _ => .report _ _ _ _ _
    · exact balanced
  | finish index =>
    simp only [Linting.move]
    split
    · next begun => exact balanced.useReporter begun index _ .finish
    · exact balanced

/-- Whatever happens, one thing after another, keeps the balance. -/
theorem after (balanced : Balanced linting) (moves : List Move) :
    Balanced (linting.after moves) := by
  induction moves generalizing linting with
  | nil => exact balanced
  | cons first rest ih => exact ih (balanced.move first)

/-- A linting is in balance before it is started. -/
theorem new
    (document : Document)
    (rules : RuleSet)
    (timeout? : Option Binary64)
    (precision : Precision) :
    Balanced (.new document rules timeout? precision) := by
  have frozen : (Linting.new document rules timeout? precision).diagnostics.isFrozen = false := by
    rw [diagnostics_new, Collection.isFrozen_afterDeclaring]
    rfl
  refine ⟨fun _ member known => ?_, by simp [Linting.new, Phase.isEarly], by simp [Linting.new],
    by simp [Linting.new], by simp [Linting.new, Phase.isClosed], frozen, rfl, rfl, rfl⟩
  simp only [Linting.new, List.mem_flatMap, membersOf, List.mem_mapIdx] at known
  obtain ⟨rule, -, index, bound, rfl⟩ := known
  exact ⟨_, _, _, rfl⟩

/-- Once a run has come to its end, all members are done. -/
theorem isFinished_of_isClosed
    (balanced : Balanced linting)
    (closed : linting.phase.isClosed = true) :
    ∀ member ∈ linting.members, member.reporter.isFinished = true := by
  have early : linting.phase.isEarly = false := by
    cases phase : linting.phase <;> simp_all [Phase.isClosed, Phase.isEarly]
  have counted := balanced.counted early
  have spent := balanced.closed closed
  have none : linting.unfinished = 0 := by omega
  intro member known
  simpa using List.countP_eq_zero.mp none member known

/-- Once a run has come to its end, a member that is followed changes nothing. -/
theorem same_of_followed
    {later : Linting}
    {index : Nat}
    {member : Member}
    {course : Member.Course}
    (balanced : Balanced linting)
    (closed : linting.phase.isClosed = true)
    (known : linting.members[index]? = some member)
    (conduct : member.Conduct course)
    (followed : Progress.Followed linting later index course) :
    later.state = linting.state ∧ later.diagnostics = linting.diagnostics ∧
      later.phase = linting.phase := by
  have finished := balanced.isFinished_of_isClosed closed member (List.mem_of_getElem? known)
  have none := conduct.delivered_eq_nil finished
  have spent := balanced.closed closed
  refine ⟨followed.state_eq, ?_, ?_⟩
  · rw [followed.diagnostics_eq, none]
    rfl
  · rw [followed.phase_eq, if_neg]
    omega

/-- Once a run has come to its end, nothing that happens changes the state or the diagnostics. -/
theorem same_of_isClosed
    (balanced : Balanced linting)
    (closed : linting.phase.isClosed = true)
    (move : Move) :
    (linting.move move).state = linting.state ∧
      (linting.move move).diagnostics = linting.diagnostics ∧
      (linting.move move).phase = linting.phase := by
  obtain ⟨outcome, phase_eq⟩ := Phase.exists_ended_of_isClosed closed
  have used : ∀ index act, (∀ reporter, Reporter.Used reporter (act reporter).1 (act reporter).2) →
      (linting.useReporter index act).state = linting.state ∧
        (linting.useReporter index act).diagnostics = linting.diagnostics ∧
        (linting.useReporter index act).phase = linting.phase := by
    intro index act used
    cases known : linting.members[index]? with
    | none => simp [Linting.useReporter, known]
    | some member =>
      have conduct := ((Member.Used.start member).use act (used _)).conduct
      simp only [Linting.useReporter, known]
      exact balanced.same_of_followed closed known conduct
        (@Progress.followed_follow (.start linting) index member _ known conduct)
  cases move with
  | start => simp [Linting.move, Linting.start, isStarted, phase_eq, Progress.start]
  | subscribe milestone observer => simp [Linting.move, Linting.subscribe]
  | take now turn =>
    simp only [Linting.move]
    cases taken linting now turn with
    | nothing idle nobody same =>
      rw [same]
      exact ⟨rfl, rfl, rfl⟩
    | begin isRun scheduled same => simp [phase_eq] at scheduled
    | finish isRun settled same => simp [phase_eq] at settled
    | member index own member isMember known same =>
      rw [same]
      have conduct := member.conduct_take linting.toSetting now own
      exact balanced.same_of_followed closed known conduct
        (@Progress.followed_follow (.start linting) index member _ known conduct)
  | enter => simp [Linting.move, phase_eq]
  | invoke index now => simp [Linting.move, phase_eq]
  | report index now severity message node? =>
    simp only [Linting.move]
    split
    · exact used index _ fun _ => .report _ _ _ _ _
    · simp
  | finish index =>
    simp only [Linting.move]
    split
    · exact used index _ .finish
    · simp

theorem same_after_of_isClosed
    (balanced : Balanced linting)
    (closed : linting.phase.isClosed = true)
    (moves : List Move) :
    (linting.after moves).state = linting.state ∧
      (linting.after moves).diagnostics = linting.diagnostics := by
  induction moves generalizing linting with
  | nil => exact ⟨rfl, rfl⟩
  | cons first rest ih =>
    have same := balanced.same_of_isClosed closed first
    have others := ih (balanced.move first) (by rw [same.2.2, closed])
    exact ⟨others.1.trans same.1, others.2.trans same.2.1⟩

/-- A diagnostic that a member may deliver is accepted. -/
theorem isSome_add?_of_mayDeliver
    (balanced : Balanced linting)
    (diagnostic : Diagnostic)
    (delivers : linting.MayDeliver diagnostic) :
    (linting.diagnostics.add? diagnostic).isSome = true := by
  obtain ⟨member, known, now, delivered⟩ := delivers
  have running : member.reporter.isFinished = false := by
    rw [← Bool.not_eq_true]
    intro finished
    rcases delivered with ⟨turn, taken⟩ | invoked | ⟨severity, message, node?, reported⟩
    · exact (member.conduct_take _ now turn).silent finished diagnostic taken
    · exact (member.conduct_invoke _ now).silent finished diagnostic invoked
    · exact (Reporter.Conduct.report _ now severity message node?).silent finished diagnostic reported
  have unfrozen : linting.diagnostics.isFrozen = false := by
    rw [← Bool.not_eq_true, balanced.isFrozen_eq]
    intro closed
    rw [balanced.isFinished_of_isClosed closed member known] at running
    contradiction
  simp [Collection.add?, unfrozen]

/-- The state is running as long as a member is not done. -/
theorem state_of_unfinished
    (balanced : Balanced linting)
    (some : 0 < linting.unfinished) :
    linting.state = .running := by
  have opened : linting.phase.isClosed = false := by
    rw [← Bool.not_eq_true]
    intro closed
    have finished := balanced.isFinished_of_isClosed closed
    obtain ⟨member, known, unfinished⟩ := List.countP_pos_iff.mp some
    simp [finished member known] at unfinished
  have terminal := balanced.isTerminal_eq
  rw [opened] at terminal
  simpa [LintState.isTerminal] using terminal

end Balanced

/-- In every state that a run reaches, between its turns or in the middle of one, the pending
counter of a run that has begun is the number of members that are not done; the state is running as
long as there is such a member; once the state is final, nothing that happens later changes it, the
diagnostics or their number; and every diagnostic that a member may deliver is accepted. -/
theorem pending_and_finality
    (document : Document)
    (rules : RuleSet)
    (timeout? : Option Binary64)
    (precision : Precision)
    (moves : List Move) :
    let linting := (Linting.new document rules timeout? precision).after moves
    (linting.isBegun = true → linting.pending = linting.unfinished ∧ 0 ≤ linting.pending) ∧
      (0 < linting.unfinished → linting.state = .running) ∧
      (linting.state.isTerminal = true → ∀ later : List Move,
        (linting.after later).state = linting.state ∧
          (linting.after later).diagnostics = linting.diagnostics ∧
          ∀ severity, (linting.after later).diagnostics.count severity =
            linting.diagnostics.count severity) ∧
      ∀ diagnostic, linting.MayDeliver diagnostic →
        (linting.diagnostics.add? diagnostic).isSome = true := by
  intro linting
  have balanced : Balanced linting := (Balanced.new document rules timeout? precision).after moves
  refine ⟨fun begun => ?_, balanced.state_of_unfinished, fun terminal later => ?_,
    balanced.isSome_add?_of_mayDeliver⟩
  · have counted := balanced.counted (by simpa [isBegun] using begun)
    exact ⟨counted, by omega⟩
  · have closed : linting.phase.isClosed = true := by rw [← balanced.isTerminal_eq, terminal]
    have same := balanced.same_after_of_isClosed closed later
    exact ⟨same.1, same.2, fun severity => by rw [same.2]⟩

end Linting
end MarkupLint
