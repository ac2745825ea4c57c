import MarkupLint.Linting.Run
import MarkupLint.Proofs.Conduct

/-!
# What a linting takes over from a turn of a member

A linting that follows a turn of one of its members changes that member, adds what is delivered to
its diagnostics, and counts the member as done; nothing else of it changes.

In a turn, a linting does nothing, follows one of its members, comes to its end, or begins: it
invokes its members one after another, and then it was cancelled, waits, or comes to its end at
once.
-/

namespace MarkupLint
namespace Linting

/-- What a turn of a member delivers, in order. -/
def Member.delivered (effects : List Member.Effect) : List Diagnostic :=
  effects.filterMap fun effect =>
    match effect with
    | .delivered diagnostic => some diagnostic
    | _ => none

theorem Member.mem_delivered {effects : List Member.Effect} {diagnostic : Diagnostic} :
    diagnostic ∈ Member.delivered effects ↔ .delivered diagnostic ∈ effects := by
  simp only [Member.delivered, List.mem_filterMap]
  constructor
  · rintro ⟨effect, known, same⟩
    split at same
    · cases same
      exact known
    · contradiction
  · intro known
    exact ⟨_, known, rfl⟩

/-- A member that is done delivers nothing. -/
theorem Member.Conduct.delivered_eq_nil
    {member : Member}
    {course : Member.Course}
    (conduct : member.Conduct course)
    (finished : member.reporter.isFinished = true) :
    Member.delivered course.effects = [] := by
  apply List.eq_nil_iff_forall_not_mem.mpr
  intro diagnostic delivered
  exact conduct.silent finished diagnostic (Member.mem_delivered.mp delivered)

/-- Whether an effect of a turn of a member concerns its turns. -/
def Member.Effect.isTurn : Member.Effect → Bool
  | soon _ => true
  | after _ _ => true
  | cancel _ => true
  | _ => false

/-- The member whose turns an effect concerns, and how. -/
def Effect.member? : Effect → Option (Nat × Member.Effect)
  | soon (.member index turn) => some (index, .soon turn)
  | after seconds (.member index turn) => some (index, .after seconds turn)
  | cancel (.member index turn) => some (index, .cancel turn)
  | _ => none

/-- A view on effects that sees neither turns nor the log. -/
structure Effect.Blind (view : Effect → Option α) : Prop where
  soon : ∀ turn, view (.soon turn) = none
  after : ∀ seconds turn, view (.after seconds turn) = none
  cancel : ∀ turn, view (.cancel turn) = none
  log : ∀ record, view (.log record) = none

namespace Progress

@[simp] theorem linting_start (linting : Linting) : (start linting).linting = linting := rfl

@[simp] theorem linting_emit (progress : Progress) (effect : Effect) :
    (progress.emit effect).linting = progress.linting := rfl

@[simp] theorem linting_log (progress : Progress) (level : LogLevel) (message : String) :
    (progress.log level message).linting = progress.linting := rfl

@[simp] theorem linting_modify (progress : Progress) (change : Linting → Linting) :
    (progress.modify change).linting = change progress.linting := rfl

@[simp] theorem linting_called (progress : Progress) (labels : List String) :
    (progress.called labels).linting = progress.linting := by
  suffices same : ∀ (state : LintState) (size : Nat) (before : Progress),
      (labels.foldl (fun progress label => progress.emit (.called label state size))
        before).linting = before.linting from same _ _ progress
  intro state size
  induction labels with
  | nil => exact fun _ => rfl
  | cons label rest ih => exact fun before => ih (before.emit (.called label state size))

theorem effects_called (progress : Progress) (labels : List String) :
    (progress.called labels).effects =
      progress.effects ++ labels.map
        (.called · progress.linting.state progress.linting.diagnostics.size) := by
  simp only [called]
  generalize progress.linting.state = state
  generalize progress.linting.diagnostics.size = size
  induction labels generalizing progress with
  | nil => simp
  | cons label rest ih =>
    rw [List.foldl_cons, ih]
    simp [emit]

/-- Counting a member as done lowers the pending counter, and the last one settles the run. -/
theorem linting_countDone
    (progress : Progress)
    {index : Nat}
    (known : index < progress.linting.members.length) :
    (progress.countDone index).linting =
      { progress.linting with
        pending := progress.linting.pending - 1
        phase :=
          if progress.linting.pending - 1 = 0 ∧ progress.linting.phase = .waiting then .settled
          else progress.linting.phase } := by
  have found : progress.member? index = some progress.linting.members[index] :=
    List.getElem?_eq_getElem known
  simp only [countDone, found]
  split
  · next last =>
    simp only [Bool.and_eq_true, decide_eq_true_eq] at last
    rw [if_pos (show progress.linting.pending - 1 = 0 ∧ progress.linting.phase = .waiting from last)]
    rfl
  · next others =>
    simp only [Bool.and_eq_true, decide_eq_true_eq] at others
    rw [if_neg (show ¬(progress.linting.pending - 1 = 0 ∧ progress.linting.phase = .waiting)
      from others)]
    rfl

variable {progress : Progress} {index : Nat}

/-- The parts of a linting that turns of its members leave alone. -/
structure Keeps (before after : Linting) : Prop where
  setting_eq : after.toSetting = before.toSetting
  state_eq : after.state = before.state
  audience_eq : after.audience = before.audience

theorem Keeps.trans
    {before middle after : Linting}
    (begun : Keeps before middle)
    (ended : Keeps middle after) :
    Keeps before after where
  setting_eq := ended.setting_eq.trans begun.setting_eq
  state_eq := ended.state_eq.trans begun.state_eq
  audience_eq := ended.audience_eq.trans begun.audience_eq

/-- What having effects of a turn of a known member does to a linting. -/
structure Absorbed (before after : Linting) (effects : List Member.Effect) : Prop
    extends Keeps before after where
  members_eq : after.members = before.members
  diagnostics_eq : after.diagnostics =
    (Member.delivered effects).foldl Collection.accept before.diagnostics
  pending_eq : after.pending = before.pending - effects.count .finished

theorem absorbed_absorb
    (known : index < progress.linting.members.length)
    (effect : Member.Effect) :
    Absorbed progress.linting (absorb index progress effect).linting [effect] := by
  cases effect with
  | finished =>
    simp only [absorb, linting_countDone progress known]
    exact ⟨⟨rfl, rfl, rfl⟩, rfl, rfl, by simp⟩
  | _ => exact ⟨⟨rfl, rfl, rfl⟩, rfl, rfl, by simp [absorb]⟩

theorem absorbed_foldl
    (known : index < progress.linting.members.length)
    (effects : List Member.Effect) :
    Absorbed progress.linting (effects.foldl (absorb index) progress).linting effects := by
  induction effects generalizing progress with
  | nil => exact ⟨⟨rfl, rfl, rfl⟩, rfl, rfl, by simp⟩
  | cons effect rest ih =>
    have first := absorbed_absorb known effect
    have others := @ih (absorb index progress effect) (by rwa [first.members_eq])
    refine ⟨first.toKeeps.trans others.toKeeps, others.members_eq.trans first.members_eq, ?_, ?_⟩
    · rw [List.foldl_cons, others.diagnostics_eq, first.diagnostics_eq, ← List.foldl_append]
      simp only [Member.delivered, ← List.filterMap_append, List.singleton_append]
    · have joined : (effect :: rest).count Member.Effect.finished =
          [effect].count .finished + rest.count .finished := by
        rw [← List.count_append, List.singleton_append]
      rw [List.foldl_cons, others.pending_eq, first.pending_eq, joined]
      omega

/-- Effects that do not say that the member is done leave the phase alone. -/
theorem phase_foldl_of_notMem
    (effects : List Member.Effect)
    (unfinished : .finished ∉ effects) :
    (effects.foldl (absorb index) progress).linting.phase = progress.linting.phase := by
  induction effects generalizing progress with
  | nil => rfl
  | cons effect rest ih =>
    simp only [List.mem_cons, not_or] at unfinished
    rw [List.foldl_cons, ih unfinished.2]
    cases effect <;> simp_all [absorb]

/-- A run is settled exactly when the last member becomes done while it waits. -/
theorem phase_foldl
    (known : index < progress.linting.members.length)
    (effects : List Member.Effect)
    (once : effects.count .finished ≤ 1) :
    (effects.foldl (absorb index) progress).linting.phase =
      if .finished ∈ effects ∧ progress.linting.pending = 1 ∧ progress.linting.phase = .waiting
      then .settled else progress.linting.phase := by
  induction effects generalizing progress with
  | nil => simp
  | cons effect rest ih =>
    by_cases finished : effect = .finished
    · subst finished
      have absent : .finished ∉ rest := by
        rw [List.count_cons_self] at once
        exact List.count_eq_zero.mp (by omega)
      rw [List.foldl_cons, phase_foldl_of_notMem rest absent, absorb, linting_countDone progress known]
      have last : progress.linting.pending - 1 = 0 ↔ progress.linting.pending = 1 := by omega
      simp only [last, List.mem_cons, true_or, true_and]
    · have first := absorbed_absorb known effect
      have phase : (absorb index progress effect).linting.phase = progress.linting.phase := by
        cases effect <;> simp_all [absorb]
      have pending : (absorb index progress effect).linting.pending = progress.linting.pending := by
        rw [first.pending_eq, List.count_singleton]
        simp [finished]
      have fewer : rest.count .finished ≤ 1 := by
        rwa [List.count_cons_of_ne finished] at once
      rw [List.foldl_cons, ih (by rwa [first.members_eq]) fewer, phase, pending]
      have other : Member.Effect.finished ≠ effect := fun equal => finished equal.symm
      simp only [List.mem_cons, other, false_or]

/-- What a linting takes over from a member that conducts itself as it should. -/
structure Followed
    (before after : Linting)
    (index : Nat)
    (course : Member.Course) : Prop extends Keeps before after where
  members_eq : after.members = before.members.set index course.member
  diagnostics_eq : after.diagnostics =
    (Member.delivered course.effects).foldl Collection.accept before.diagnostics
  pending_eq : after.pending = before.pending - course.effects.count .finished
  phase_eq : after.phase =
    if .finished ∈ course.effects ∧ before.pending = 1 ∧ before.phase = .waiting
    then .settled else before.phase

theorem followed_follow
    {member : Member}
    {course : Member.Course}
    (known : progress.linting.members[index]? = some member)
    (conduct : member.Conduct course) :
    Followed progress.linting (progress.follow index course).linting index course := by
  obtain ⟨bound, -⟩ := List.getElem?_eq_some_iff.mp known
  have held : index < (progress.setMember index course.member).linting.members.length := by
    simpa [setMember] using bound
  have once : course.effects.count .finished ≤ 1 := by
    have balance := conduct.balance
    have most : member.reporter.openCount ≤ 1 := by
      unfold Reporter.openCount
      split <;> omega
    omega
  have absorbed := absorbed_foldl held course.effects
  exact ⟨⟨absorbed.setting_eq, absorbed.state_eq, absorbed.audience_eq⟩, absorbed.members_eq,
    absorbed.diagnostics_eq, absorbed.pending_eq, phase_foldl held course.effects once⟩

/-- Having an effect of a turn of a member leads to more effects: the run may be settled, something
may be noted in the log, and turns of the member are passed on. -/
theorem exists_effects_absorb (effect : Member.Effect) :
    ∃ extra, (absorb index progress effect).effects = progress.effects ++ extra ∧
      extra.filterMap Effect.member? = ([effect].filter Member.Effect.isTurn).map (index, ·) ∧
      .cancel .run ∉ extra ∧
      ((absorb index progress effect).linting.phase = .settled →
        progress.linting.phase = .settled ∨ .soon .run ∈ extra) := by
  cases effect with
  | finished =>
    simp only [absorb, countDone]
    split
    · exact ⟨[], by simp, by simp [Member.Effect.isTurn], by simp, fun settled => .inl settled⟩
    · split
      · next last =>
        simp only [log, emit, modify, List.append_assoc, List.singleton_append]
        exact ⟨_, rfl, by simp [Effect.member?, Member.Effect.isTurn], by simp, by simp⟩
      · simp only [log, emit, modify]
        exact ⟨_, rfl, by simp [Effect.member?, Member.Effect.isTurn], by simp, by simp⟩
  | delivered diagnostic =>
    exact ⟨[], by simp [absorb, modify], by simp [Member.Effect.isTurn], by simp,
      fun settled => .inl settled⟩
  | _ =>
    simp only [absorb, emit]
    exact ⟨_, rfl, rfl, by simp, fun settled => .inl settled⟩

/-- A linting that follows a member passes on the turns of the member, in order. -/
theorem exists_effects_follow (progress : Progress) (index : Nat) (course : Member.Course) :
    ∃ extra, (progress.follow index course).effects = progress.effects ++ extra ∧
      extra.filterMap Effect.member? =
        (course.effects.filter Member.Effect.isTurn).map (index, ·) ∧
      .cancel .run ∉ extra ∧
      ((progress.follow index course).linting.phase = .settled →
        progress.linting.phase = .settled ∨ .soon .run ∈ extra) := by
  have folded : ∀ (effects : List Member.Effect) (before : Progress),
      ∃ extra, (effects.foldl (absorb index) before).effects = before.effects ++ extra ∧
        extra.filterMap Effect.member? = (effects.filter Member.Effect.isTurn).map (index, ·) ∧
        .cancel .run ∉ extra ∧
        ((effects.foldl (absorb index) before).linting.phase = .settled →
          before.linting.phase = .settled ∨ .soon .run ∈ extra) := by
    intro effects
    induction effects with
    | nil => exact fun before => ⟨[], by simp, rfl, by simp, fun settled => .inl settled⟩
    | cons effect rest ih =>
      intro before
      obtain ⟨first, first_eq, firstTurns, firstKept, firstSettled⟩ :=
        @exists_effects_absorb before index effect
      obtain ⟨others, others_eq, otherTurns, otherKept, otherSettled⟩ :=
        ih (absorb index before effect)
      refine ⟨first ++ others, ?_, ?_, ?_, fun settled => ?_⟩
      · rw [List.foldl_cons, others_eq, first_eq, List.append_assoc]
      · rw [List.filterMap_append, firstTurns, otherTurns, ← List.map_append, ← List.filter_append,
          List.singleton_append]
      · rw [List.mem_append, not_or]
        exact ⟨firstKept, otherKept⟩
      · rcases otherSettled settled with early | late
        · rcases firstSettled early with before | soon
          · exact .inl before
          · exact .inr (List.mem_append_left _ soon)
        · exact .inr (List.mem_append_right _ late)
  exact folded course.effects (progress.setMember index course.member)

/-- Following a member is not seen by who sees neither turns nor the log. -/
theorem filterMap_follow
    {view : Effect → Option α}
    (blind : Effect.Blind view)
    (course : Member.Course) :
    (progress.follow index course).effects.filterMap view = progress.effects.filterMap view := by
  have once : ∀ (before : Progress) (effect : Member.Effect),
      (absorb index before effect).effects.filterMap view = before.effects.filterMap view := by
    intro before effect
    cases effect with
    | finished =>
      simp only [absorb, countDone]
      split
      · rfl
      · split <;> simp [log, emit, modify, blind.log, blind.soon]
    | soon turn => simp [absorb, emit, blind.soon]
    | after seconds turn => simp [absorb, emit, blind.after]
    | cancel turn => simp [absorb, emit, blind.cancel]
    | log record => simp [absorb, emit, blind.log]
    | delivered diagnostic => rfl
  have folded : ∀ (effects : List Member.Effect) (before : Progress),
      (effects.foldl (absorb index) before).effects.filterMap view =
        before.effects.filterMap view := by
    intro effects
    induction effects with
    | nil => exact fun _ => rfl
    | cons effect rest ih => exact fun before => (ih _).trans (once before effect)
  exact folded course.effects (progress.setMember index course.member)

end Progress

/-! ## What happens in a turn -/

namespace Progress

/-- What invoking the member with an index does, and the failure that stops the run. -/
inductive Invoked (before : Progress) (index : Nat) (now : Rat) (after : Progress × Option Failure) :
    Prop where
  | nobody
      (unknown : before.linting.members[index]? = none)
      (same : after = (before, none))
  | member
      (member : Member)
      (record : LogRecord)
      (known : before.linting.members[index]? = some member)
      (same : after =
        ((before.emit (.invoked index record)).follow index
            (member.invoke before.linting.toSetting now).1,
          (member.invoke before.linting.toSetting now).2))

theorem invoked (progress : Progress) (index : Nat) (now : Rat) :
    Invoked progress index now (progress.invoke index now) := by
  unfold invoke
  split
  · next unknown => exact .nobody unknown rfl
  · next member known => exact .member member _ known rfl

/-- What every invocation keeps, invoking members one after another keeps. -/
theorem invokeAll_induction
    {property : Progress → Prop}
    {now : Rat}
    (step : ∀ progress index, property progress → property (progress.invoke index now).1)
    {progress : Progress}
    (holds : property progress)
    (indices : List Nat) :
    property (progress.invokeAll now indices).1 := by
  induction indices generalizing progress with
  | nil => exact holds
  | cons index rest ih =>
    simp only [invokeAll]
    split
    · exact ih (step progress index holds)
    · exact step progress index holds

/-- What follows when members have been invoked until one of them stopped the run, or all. -/
inductive Begun (invoked : Progress × Option Failure) (after : Progress) : Prop where
  | stopped
      (failure : Failure)
      (stops : invoked.2 = some failure)
      (same : after = invoked.1.close (.stopped failure))
  | waiting
      (goesOn : invoked.2 = none)
      (some : 0 < invoked.1.linting.pending)
      (same : after = invoked.1.modify fun linting => { linting with phase := .waiting })
  | finished
      (goesOn : invoked.2 = none)
      (none : ¬0 < invoked.1.linting.pending)
      (same : after = invoked.1.finish)

theorem begun (progress : Progress) (now : Rat) :
    Begun (progress.invokeEvery now) (progress.begin now) := by
  simp only [begin]
  split
  · next failure stops => exact .stopped failure stops rfl
  · next goesOn =>
    split
    · next some => exact .waiting goesOn some rfl
    · next none => exact .finished goesOn none rfl

end Progress

/-- What a turn does. -/
inductive Taken (linting : Linting) (now : Rat) (turn : Turn) (after : Progress) : Prop where
  | nothing
      (idle : turn = .run → linting.phase ≠ .scheduled ∧ linting.phase ≠ .settled)
      (nobody : ∀ index own, turn = .member index own → linting.members[index]? = none)
      (same : after = .start linting)
  | begin
      (isRun : turn = .run)
      (scheduled : linting.phase = .scheduled)
      (same : after = (Progress.start linting).begin now)
  | finish
      (isRun : turn = .run)
      (settled : linting.phase = .settled)
      (same : after = (Progress.start linting).finish)
  | member
      (index : Nat)
      (own : Member.Turn)
      (member : Member)
      (isMember : turn = .member index own)
      (known : linting.members[index]? = some member)
      (same : after =
        (Progress.start linting).follow index (member.take linting.toSetting now own))

theorem taken (linting : Linting) (now : Rat) (turn : Turn) :
    Taken linting now turn (linting.take now turn) := by
  cases turn with
  | run =>
    simp only [Linting.take, Progress.take]
    split
    · next scheduled => exact .begin rfl scheduled rfl
    · next settled => exact .finish rfl settled rfl
    · next unscheduled unsettled => exact .nothing (fun _ => ⟨unscheduled, unsettled⟩) (by simp) rfl
  | member index own =>
    cases known : linting.members[index]? with
    | none =>
      refine .nothing (by simp) (by simpa using known) ?_
      simp only [Linting.take, Progress.take, Progress.takeMember, Progress.member?,
        Progress.linting_start, known]
    | some member =>
      refine .member index own member rfl known ?_
      simp only [Linting.take, Progress.take, Progress.takeMember, Progress.member?,
        Progress.linting_start, known]

end Linting
end MarkupLint
