import MarkupLint.Proofs.Batch.Follow

/-!
# How far a batch has come

A batch looks at each of its lintings until that has come to its end, and counts it then.  It is at
its end when all of them have been counted, or when it turns out that the run of one of them was
stopped.  No linting is lost on the way: the batch has a turn to look at it or to count it, or it waits
to be told of the end of the linting.
-/

namespace MarkupLint
namespace Batch

/-- The linting that a turn of the batch looks at or counts. -/
def Turn.look? : Turn → Option Nat
  | wait index => some index
  | settle index => some index
  | _ => none

/-- Whether the linting with an index has come to its end. -/
def hasAnswered (batch : Batch) (index : Nat) : Bool :=
  batch.lintings[index]?.any (·.phase.isAnswered)

/-- Whether the linting with an index has come to its end without being stopped. -/
def hasClosed (batch : Batch) (index : Nat) : Bool :=
  batch.lintings[index]?.any (·.phase.isClosed)

theorem hasAnswered_of_hasClosed
    {batch : Batch}
    {index : Nat}
    (closed : batch.hasClosed index = true) :
    batch.hasAnswered index = true := by
  obtain ⟨linting, known, ended⟩ := (Option.any_eq_true _ _).mp closed
  obtain ⟨outcome, phase⟩ := Linting.Phase.exists_ended_of_isClosed ended
  rw [hasAnswered, known, Option.any_some, phase]
  rfl

/-- The lintings that the batch waits to be told of. -/
def expected (batch : Batch) : List Nat := batch.awaited.filter fun index => !batch.hasAnswered index

/-- The lintings that the batch has not counted: it has turns for them, or waits to be told. -/
def looks (batch : Batch) : List Nat := batch.own.filterMap Turn.look? ++ batch.expected

/-- All lintings have come to their ends. -/
def AllAnswered (batch : Batch) : Prop :=
  ∀ index < batch.lintings.length, batch.hasAnswered index = true

/-- All lintings have come to their ends without being stopped. -/
def AllClosed (batch : Batch) : Prop :=
  ∀ index < batch.lintings.length, batch.hasClosed index = true

theorem AllClosed.allAnswered {batch : Batch} (closed : batch.AllClosed) : batch.AllAnswered :=
  fun index bound => hasAnswered_of_hasClosed (closed index bound)

/-- The batch looks at its lintings; none of them is lost, none is looked at twice, and none that was
stopped has been counted. -/
structure Looking (batch : Batch) : Prop where
  closing_eq : batch.closing? = none
  isOver_eq : batch.isOver = false
  turns : ∀ turn ∈ batch.own, turn.look?.isSome = true
  once : batch.looks.Nodup
  known : ∀ index ∈ batch.looks, index < batch.lintings.length
  counted : batch.looks.length + batch.settled = batch.lintings.length
  undone : batch.settled < batch.lintings.length
  kept : ∀ index < batch.lintings.length, batch.hasClosed index = true ∨ index ∈ batch.looks
  settling : ∀ index, .settle index ∈ batch.own → batch.hasAnswered index = true

/-- A batch still looks at its lintings as long as it has as many to look at. -/
theorem Looking.of_perm
    {before after : Batch}
    (looking : before.Looking)
    (closing_eq : after.closing? = before.closing?)
    (isOver_eq : after.isOver = before.isOver)
    (settled_eq : after.settled = before.settled)
    (length_eq : after.lintings.length = before.lintings.length)
    (closed : ∀ index, before.hasClosed index = true → after.hasClosed index = true)
    (answered : ∀ index, before.hasAnswered index = true → after.hasAnswered index = true)
    (looks_perm : after.looks.Perm before.looks)
    (turns : ∀ turn ∈ after.own, turn ∈ before.own ∨
      turn.look?.isSome = true ∧ ∀ index, turn = .settle index → after.hasAnswered index = true) :
    after.Looking where
  closing_eq := closing_eq.trans looking.closing_eq
  isOver_eq := isOver_eq.trans looking.isOver_eq
  turns turn held := (turns turn held).elim (looking.turns turn) (·.1)
  once := looks_perm.nodup_iff.mpr looking.once
  known index held := by
    rw [length_eq]
    exact looking.known index (looks_perm.mem_iff.mp held)
  counted := by
    rw [looks_perm.length_eq, length_eq, settled_eq]
    exact looking.counted
  undone := by
    rw [length_eq, settled_eq]
    exact looking.undone
  kept index bound := by
    rw [length_eq] at bound
    exact (looking.kept index bound).imp (closed index) looks_perm.mem_iff.mpr
  settling index held := by
    rcases turns _ held with early | ⟨-, ended⟩
    · exact answered index (looking.settling index early)
    · exact ended index rfl

/-- Files are still being opened, so the batch itself has nothing to do. -/
structure Unopened (batch : Batch) : Prop where
  closing_eq : batch.closing? = none
  isOver_eq : batch.isOver = false
  own_eq : batch.own = []
  awaited_eq : batch.awaited = []
  settled_eq : batch.settled = 0

/-- How far a batch has come once all files have been opened. -/
inductive Stage (batch : Batch) : Prop where
  /-- All files have been opened, and the batch is about to look at the lintings. -/
  | opened
      (closing_eq : batch.closing? = none)
      (isOver_eq : batch.isOver = false)
      (own_eq : batch.own = [.opened] ∨ batch.own = [.gather])
      (awaited_eq : batch.awaited = [])
      (settled_eq : batch.settled = 0)
  | looking (looking : Looking batch)
  /-- All lintings have been counted, and the batch is about to come to its end. -/
  | closing
      (closing_eq : batch.closing? = some (.ok ()))
      (isOver_eq : batch.isOver = false)
      (own_eq : batch.own = [.conclude])
      (closed : batch.AllClosed)
  | complete
      (closing_eq : batch.closing? = some (.ok ()))
      (isOver_eq : batch.isOver = true)
      (own_eq : batch.own = [])
      (closed : batch.AllClosed)
  /-- The run of a linting was stopped. -/
  | refused
      (refusal : Linting.Refusal)
      (closing_eq : batch.closing? = some (.error refusal))
      (turns : ∀ turn ∈ batch.own, turn.look?.isSome = true ∨ turn = .conclude)

/-- A batch that does not fail has lintings that were not stopped. -/
theorem Stage.of_closing
    {batch : Batch}
    (stage : batch.Stage)
    (closing : batch.closing? = some (.ok ())) :
    batch.AllClosed := by
  cases stage with
  | opened closing_eq => exact absurd (closing.symm.trans closing_eq) (by simp)
  | looking looking => exact absurd (closing.symm.trans looking.closing_eq) (by simp)
  | closing closing_eq isOver_eq own_eq closed => exact closed
  | complete closing_eq isOver_eq own_eq closed => exact closed
  | refused refusal closing_eq => exact absurd (closing.symm.trans closing_eq) (by simp)

/-- At its end, a batch has counted all lintings, unless the run of one of them was stopped. -/
theorem Stage.of_isOver
    {batch : Batch}
    (stage : batch.Stage)
    (complete : batch.isOver = true)
    (unrefused : ∀ refusal, batch.closing? ≠ some (.error refusal)) :
    batch.closing? = some (.ok ()) := by
  cases stage with
  | complete closing_eq isOver_eq own_eq closed => exact closing_eq
  | looking looking => exact absurd (complete.symm.trans looking.isOver_eq) (by simp)
  | opened closing_eq isOver_eq => exact absurd (complete.symm.trans isOver_eq) (by simp)
  | closing closing_eq isOver_eq => exact absurd (complete.symm.trans isOver_eq) (by simp)
  | refused refusal closing_eq => exact absurd closing_eq (unrefused refusal)

/-- A turn that is taken is one less of the batch, or one of a linting. -/
theorem own_next?
    {batch : Batch}
    {first : Turn}
    {schedule : Schedule Turn}
    (next : batch.schedule.next? = some (first, schedule)) :
    batch.own.Perm
      (if first.isOwn then first :: ({ batch with schedule := schedule } : Batch).own
      else ({ batch with schedule := schedule } : Batch).own) := by
  refine ((Schedule.entries_next? next).filter _).trans ?_
  rw [List.filter_cons]
  rfl

section

variable {batch : Batch} {linting : Linting} {index : Nat} {now : Rat} {turn : Linting.Turn}

/-- A linting that has come to its end stays so. -/
theorem isAnswered_take
    (started : linting.isStarted = true)
    (answered : linting.phase.isAnswered = true) :
    (linting.take now turn).linting.phase.isAnswered = true := by
  cases phase : linting.phase with
  | ended outcome =>
    rw [Linting.phase_take_of_ended phase]
    rfl
  | unstarted => simp [Linting.isStarted, phase] at started
  | _ =>
    rw [phase] at answered
    contradiction

theorem hasAnswered_follow
    (known : batch.lintings[index]? = some linting)
    (other : Nat) :
    (batch.follow index (linting.take now turn)).hasAnswered other =
      if other = index then (linting.take now turn).linting.phase.isAnswered
      else batch.hasAnswered other := by
  obtain ⟨bound, -⟩ := List.getElem?_eq_some_iff.mp known
  rw [hasAnswered, (batch.absorbed_follow index _).lintings_eq, List.getElem?_set, if_pos bound]
  split
  · next same =>
    rw [if_pos same.symm]
    rfl
  · next different =>
    rw [if_neg (Ne.symm different)]
    rfl

/-- What a batch has heard of its lintings it does not forget. -/
theorem hasAnswered_follow_of_hasAnswered
    (known : batch.lintings[index]? = some linting)
    (started : linting.isStarted = true)
    {other : Nat}
    (answered : batch.hasAnswered other = true) :
    (batch.follow index (linting.take now turn)).hasAnswered other = true := by
  rw [hasAnswered_follow known]
  split
  · next same =>
    subst same
    rw [hasAnswered, known] at answered
    exact isAnswered_take started answered
  · exact answered

/-- The linting with an index is replaced, and the others are let alone. -/
theorem hasClosed_follow_of_hasClosed
    (known : batch.lintings[index]? = some linting)
    {other : Nat}
    (closed : batch.hasClosed other = true) :
    (batch.follow index (linting.take now turn)).hasClosed other = true := by
  obtain ⟨bound, -⟩ := List.getElem?_eq_some_iff.mp known
  rw [hasClosed, (batch.absorbed_follow index _).lintings_eq, List.getElem?_set, if_pos bound]
  split
  · next same =>
    subst same
    rw [hasClosed, known, Option.any_some] at closed
    obtain ⟨outcome, ended⟩ := Linting.Phase.exists_ended_of_isClosed closed
    rw [Option.any_some, Linting.phase_take_of_ended ended, ← ended, closed]
  · exact closed

theorem length_lintings_follow (progress : Linting.Progress) :
    (batch.follow index progress).lintings.length = batch.lintings.length := by
  rw [(batch.absorbed_follow index progress).lintings_eq]
  exact List.length_set

theorem AllClosed.follow
    (closed : batch.AllClosed)
    (known : batch.lintings[index]? = some linting) :
    (batch.follow index (linting.take now turn)).AllClosed := by
  intro other bound
  rw [length_lintings_follow] at bound
  exact hasClosed_follow_of_hasClosed known (closed other bound)

/-- As long as the batch does not wait for it, a linting gives it no turns. -/
theorem own_follow_of_unexpected
    (known : batch.lintings[index]? = some linting)
    (unexpected : index ∉ batch.expected) :
    (batch.follow index (linting.take now turn)).own.Perm batch.own := by
  have answered : batch.hasAnswered index = linting.phase.isAnswered := by
    rw [hasAnswered, known, Option.any_some]
  by_cases waits : index ∈ batch.awaited
  · have ended : linting.phase.isAnswered = true := by
      rw [← answered]
      by_contra unanswered
      exact unexpected (List.mem_filter.mpr ⟨waits, by simpa using unanswered⟩)
    apply own_follow_of_quiet
    rw [Linting.ends_take, ended]
    rfl
  · refine (batch.absorbed_follow index (linting.take now turn)).own_perm.trans ?_
    rw [if_neg waits, List.append_nil]
    exact .refl _

/-- A batch that is told of the end of a linting waits for the others. -/
theorem expected_follow_of_answered
    (known : batch.lintings[index]? = some linting)
    (distinct : batch.expected.Nodup)
    (ended : (linting.take now turn).linting.phase.isAnswered = true) :
    (batch.follow index (linting.take now turn)).expected = batch.expected.erase index := by
  rw [distinct.erase_eq_filter, expected, expected, (batch.absorbed_follow index _).awaited_eq,
    List.filter_filter]
  apply List.filter_congr
  intro other _
  rw [hasAnswered_follow known]
  by_cases same : other = index
  · simp [same, ended]
  · simp [same]

/-- A batch that is not told of anything waits for the same lintings. -/
theorem expected_follow_of_untold
    (known : batch.lintings[index]? = some linting)
    (started : linting.isStarted = true)
    (untold : ¬(index ∈ batch.expected ∧
      (linting.take now turn).linting.phase.isAnswered = true)) :
    (batch.follow index (linting.take now turn)).expected = batch.expected := by
  have answered_eq : batch.hasAnswered index = linting.phase.isAnswered := by
    rw [hasAnswered, known, Option.any_some]
  rw [expected, expected, (batch.absorbed_follow index _).awaited_eq]
  apply List.filter_congr
  intro other waits
  rw [hasAnswered_follow known]
  split
  · next same =>
    subst same
    rw [answered_eq]
    cases before : linting.phase.isAnswered with
    | true => rw [isAnswered_take started before]
    | false =>
      have waiting : other ∈ batch.expected :=
        List.mem_filter.mpr ⟨waits, by simp [answered_eq, before]⟩
      rw [Bool.eq_false_iff.mpr fun ended => untold ⟨waiting, ended⟩]
  · rfl

/-- A batch that is told of the end of a linting looks at it instead of waiting to be told. -/
theorem looks_follow
    (known : batch.lintings[index]? = some linting)
    (started : linting.isStarted = true)
    (once : batch.looks.Nodup) :
    (batch.follow index (linting.take now turn)).looks.Perm batch.looks := by
  have absorbed := batch.absorbed_follow index (linting.take now turn)
  by_cases told : index ∈ batch.expected ∧ (linting.take now turn).linting.phase.isAnswered = true
  · obtain ⟨waiting, ended⟩ := told
    obtain ⟨waits, unanswered⟩ := List.mem_filter.mp waiting
    have fresh : linting.phase.isAnswered = false := by
      simpa [hasAnswered, known] using unanswered
    have own_perm : (batch.follow index (linting.take now turn)).own.Perm
        (batch.own ++ [.wait index]) := by
      refine absorbed.own_perm.trans ?_
      rw [if_pos waits, Linting.ends_take, fresh, ended]
      exact .refl _
    rw [looks, looks, expected_follow_of_answered known (List.nodup_append.mp once).2.1 ended]
    refine ((own_perm.filterMap _).append_right _).trans ?_
    rw [List.filterMap_append, List.append_assoc]
    exact (List.perm_cons_erase waiting).symm.append_left _
  · have own_perm : (batch.follow index (linting.take now turn)).own.Perm batch.own := by
      by_cases waiting : index ∈ batch.expected
      · apply own_follow_of_quiet
        rw [Linting.ends_take, Bool.eq_false_iff.mpr fun ended => told ⟨waiting, ended⟩,
          Bool.and_false]
        rfl
      · exact own_follow_of_unexpected known waiting
    rw [looks, looks, expected_follow_of_untold known started told]
    exact (own_perm.filterMap _).append_right _

theorem Looking.follow
    (looking : batch.Looking)
    (known : batch.lintings[index]? = some linting)
    (started : linting.isStarted = true) :
    (batch.follow index (linting.take now turn)).Looking := by
  have absorbed := batch.absorbed_follow index (linting.take now turn)
  refine looking.of_perm absorbed.closing_eq absorbed.isOver_eq absorbed.settled_eq
    (length_lintings_follow _) (fun _ => hasClosed_follow_of_hasClosed known)
    (fun _ => hasAnswered_follow_of_hasAnswered known started)
    (looks_follow known started looking.once) fun other held => ?_
  rcases List.mem_append.mp (absorbed.own_perm.mem_iff.mp held) with early | told
  · exact .inl early
  · split at told
    · obtain ⟨-, -, rfl⟩ := List.mem_map.mp told
      exact .inr ⟨rfl, by simp⟩
    · simp at told

theorem Unopened.follow
    (unopened : batch.Unopened)
    (known : batch.lintings[index]? = some linting) :
    (batch.follow index (linting.take now turn)).Unopened := by
  have absorbed := batch.absorbed_follow index (linting.take now turn)
  have own_perm : (batch.follow index (linting.take now turn)).own.Perm batch.own :=
    own_follow_of_unexpected known (by simp [expected, unopened.awaited_eq])
  exact ⟨absorbed.closing_eq.trans unopened.closing_eq, absorbed.isOver_eq.trans unopened.isOver_eq,
    List.perm_nil.mp (unopened.own_eq ▸ own_perm), absorbed.awaited_eq.trans unopened.awaited_eq,
    absorbed.settled_eq.trans unopened.settled_eq⟩

/-- When all files have been opened, the batch is about to look at its lintings. -/
theorem Unopened.stage (unopened : batch.Unopened) : (batch.soon .opened).Stage := by
  have opens := batch.own_soon .opened
  rw [unopened.own_eq] at opens
  exact .opened unopened.closing_eq unopened.isOver_eq (.inl (List.perm_singleton.mp opens))
    unopened.awaited_eq unopened.settled_eq

/-- A turn of a linting does not take a batch further. -/
theorem Stage.follow
    (stage : batch.Stage)
    (known : batch.lintings[index]? = some linting)
    (started : linting.isStarted = true) :
    (batch.follow index (linting.take now turn)).Stage := by
  have absorbed := batch.absorbed_follow index (linting.take now turn)
  have unexpected : batch.AllClosed → index ∉ batch.expected := by
    intro closed expected
    obtain ⟨-, unanswered⟩ := List.mem_filter.mp expected
    rw [closed.allAnswered index (List.getElem?_eq_some_iff.mp known).1] at unanswered
    contradiction
  cases stage with
  | opened closing_eq isOver_eq own_eq awaited_eq settled_eq =>
    have own_perm : (batch.follow index (linting.take now turn)).own.Perm batch.own :=
      own_follow_of_unexpected known (by simp [expected, awaited_eq])
    refine .opened (absorbed.closing_eq.trans closing_eq) (absorbed.isOver_eq.trans isOver_eq) ?_
      (absorbed.awaited_eq.trans awaited_eq) (absorbed.settled_eq.trans settled_eq)
    rcases own_eq with same | same
    · exact .inl (List.perm_singleton.mp (same ▸ own_perm))
    · exact .inr (List.perm_singleton.mp (same ▸ own_perm))
  | looking looking => exact .looking (looking.follow known started)
  | closing closing_eq isOver_eq own_eq closed =>
    have own_perm : (batch.follow index (linting.take now turn)).own.Perm batch.own :=
      own_follow_of_unexpected known (unexpected closed)
    exact .closing (absorbed.closing_eq.trans closing_eq) (absorbed.isOver_eq.trans isOver_eq)
      (List.perm_singleton.mp (own_eq ▸ own_perm)) (closed.follow known)
  | complete closing_eq isOver_eq own_eq closed =>
    have own_perm : (batch.follow index (linting.take now turn)).own.Perm batch.own :=
      own_follow_of_unexpected known (unexpected closed)
    exact .complete (absorbed.closing_eq.trans closing_eq) (absorbed.isOver_eq.trans isOver_eq)
      (List.perm_nil.mp (own_eq ▸ own_perm)) (closed.follow known)
  | refused refusal closing_eq turns =>
    refine .refused refusal (absorbed.closing_eq.trans closing_eq) fun other held => ?_
    rcases List.mem_append.mp (absorbed.own_perm.mem_iff.mp held) with early | told
    · exact turns other early
    · split at told
      · obtain ⟨-, -, rfl⟩ := List.mem_map.mp told
        exact .inl rfl
      · simp at told

end

section

variable {batch : Batch} {schedule : Schedule Turn} {index : Nat}

/-- In a stage whose only turn is taken, the batch has no other turn. -/
theorem own_eq_nil
    {turn : Turn}
    (own_eq : batch.own = [turn])
    (own_perm : batch.own.Perm (turn :: ({ batch with schedule := schedule } : Batch).own)) :
    ({ batch with schedule := schedule } : Batch).own = [] := by
  rw [own_eq, List.singleton_perm] at own_perm
  exact (List.cons.inj own_perm).2.symm

/-- Taking a turn for a linting leaves the lintings to be looked at without it. -/
theorem looks_perm
    {turn : Turn}
    (look : turn.look? = some index)
    (own_perm : batch.own.Perm (turn :: ({ batch with schedule := schedule } : Batch).own)) :
    batch.looks.Perm (index :: ({ batch with schedule := schedule } : Batch).looks) := by
  have looks := (own_perm.filterMap Turn.look?).append_right batch.expected
  rw [List.filterMap_cons_some look] at looks
  exact looks

/-- A batch that looks at its lintings has no turn when there is none to be looked at. -/
theorem Looking.own_eq_nil
    (looking : batch.Looking)
    (kept : ∀ turn ∈ ({ batch with schedule := schedule } : Batch).own, turn ∈ batch.own)
    (none : ({ batch with schedule := schedule } : Batch).looks = []) :
    ({ batch with schedule := schedule } : Batch).own = [] := by
  rw [List.eq_nil_iff_forall_not_mem]
  intro turn known
  obtain ⟨other, look⟩ := Option.isSome_iff_exists.mp (looking.turns turn (kept turn known))
  have held : other ∈ ({ batch with schedule := schedule } : Batch).looks :=
    List.mem_append_left _ (List.mem_filterMap.mpr ⟨turn, known, look⟩)
  simp [none] at held

/-- Taking a turn of a linting off the schedule does not take a batch further. -/
theorem Stage.popped
    (stage : batch.Stage)
    (own_perm : batch.own.Perm ({ batch with schedule := schedule } : Batch).own) :
    ({ batch with schedule := schedule } : Batch).Stage := by
  cases stage with
  | opened closing_eq isOver_eq own_eq awaited_eq settled_eq =>
    refine .opened closing_eq isOver_eq ?_ awaited_eq settled_eq
    rcases own_eq with same | same
    · exact .inl (List.perm_singleton.mp (same ▸ own_perm.symm))
    · exact .inr (List.perm_singleton.mp (same ▸ own_perm.symm))
  | looking looking =>
    refine .looking (looking.of_perm rfl rfl rfl rfl (fun _ known => known) (fun _ known => known) ?_
      fun turn known => .inl (own_perm.mem_iff.mpr known))
    exact (own_perm.symm.filterMap _).append_right _
  | closing closing_eq isOver_eq own_eq closed =>
    exact .closing closing_eq isOver_eq (List.perm_singleton.mp (own_eq ▸ own_perm.symm)) closed
  | complete closing_eq isOver_eq own_eq closed =>
    exact .complete closing_eq isOver_eq (List.perm_nil.mp (own_eq ▸ own_perm.symm)) closed
  | refused refusal closing_eq turns =>
    exact .refused refusal closing_eq fun turn known => turns turn (own_perm.mem_iff.mpr known)

theorem Stage.takeOpened
    (stage : batch.Stage)
    (own_perm : batch.own.Perm (.opened :: ({ batch with schedule := schedule } : Batch).own)) :
    (({ batch with schedule := schedule } : Batch).take .opened).Stage := by
  have held : .opened ∈ batch.own := own_perm.mem_iff.mpr List.mem_cons_self
  cases stage with
  | opened closing_eq isOver_eq own_eq awaited_eq settled_eq =>
    have none := own_eq_nil (own_eq.resolve_right fun same => by simp [same] at held) own_perm
    have gathers := own_soon { batch with schedule := schedule } .gather
    rw [none] at gathers
    exact .opened closing_eq isOver_eq (.inr (List.perm_singleton.mp gathers)) awaited_eq settled_eq
  | looking looking =>
    have look := looking.turns _ held
    contradiction
  | closing closing_eq isOver_eq own_eq closed => simp [own_eq] at held
  | complete closing_eq isOver_eq own_eq closed => simp [own_eq] at held
  | refused refusal closing_eq turns => rcases turns _ held with look | same <;> contradiction

/-- The batch gets a turn to look at each of its lintings. -/
theorem foldl_soon_wait (batch : Batch) (indices : List Nat) :
    ∃ schedule, indices.foldl (fun batch index => batch.soon (.wait index)) batch =
        { batch with schedule := schedule } ∧
      batch.schedule.ready <+: schedule.ready ∧ schedule.timers = batch.schedule.timers ∧
      ({ batch with schedule := schedule } : Batch).own.Perm (batch.own ++ indices.map .wait) := by
  induction indices generalizing batch with
  | nil => exact ⟨batch.schedule, rfl, List.prefix_rfl, rfl, by simp⟩
  | cons index rest ih =>
    obtain ⟨schedule, same, ready, timers, own_perm⟩ := ih (batch.soon (.wait index))
    refine ⟨schedule, same, ?_, timers, ?_⟩
    · refine List.IsPrefix.trans ?_ ready
      simp only [Batch.soon, Schedule.ready_soon]
      exact List.prefix_append _ _
    · refine own_perm.trans (((own_soon _ _).append_right _).trans ?_)
      exact List.perm_middle.symm

theorem Stage.takeGather
    (stage : batch.Stage)
    (own_perm : batch.own.Perm (.gather :: ({ batch with schedule := schedule } : Batch).own)) :
    (({ batch with schedule := schedule } : Batch).take .gather).Stage := by
  have held : .gather ∈ batch.own := own_perm.mem_iff.mpr List.mem_cons_self
  cases stage with
  | opened closing_eq isOver_eq own_eq awaited_eq settled_eq =>
    have none := own_eq_nil (own_eq.resolve_left fun same => by simp [same] at held) own_perm
    simp only [take, gather]
    split
    · next empty =>
      have concludes := own_soon
        { batch with schedule := schedule, closing? := some (.ok ()) } .conclude
      change List.Perm _ (.conclude :: ({ batch with schedule := schedule } : Batch).own) at concludes
      rw [none] at concludes
      refine .closing rfl isOver_eq (List.perm_singleton.mp concludes) fun index bound => ?_
      have length_eq : batch.lintings.length = 0 := by simpa using empty
      exact absurd bound (by simp [Batch.soon, length_eq])
    · next some =>
      obtain ⟨ahead, same, -, -, waits⟩ := foldl_soon_wait { batch with schedule := schedule }
        (List.range batch.lintings.length)
      rw [same]
      rw [none, List.nil_append] at waits
      have looks_perm : ({ batch with schedule := ahead } : Batch).looks.Perm
          (List.range batch.lintings.length) := by
        rw [looks, expected, awaited_eq, List.filter_nil, List.append_nil]
        refine (waits.filterMap _).trans ?_
        rw [List.filterMap_map]
        simp [Function.comp_def, Turn.look?]
      refine .looking ⟨closing_eq, isOver_eq, ?_, ?_, ?_, ?_, ?_, ?_, ?_⟩
      · intro turn known
        obtain ⟨index, -, rfl⟩ := List.mem_map.mp (waits.mem_iff.mp known)
        rfl
      · exact looks_perm.nodup_iff.mpr List.nodup_range
      · exact fun index known => List.mem_range.mp (looks_perm.mem_iff.mp known)
      · rw [looks_perm.length_eq, List.length_range, settled_eq, Nat.add_zero]
      · rw [settled_eq]
        exact List.length_pos_iff.mpr (by simpa using some)
      · exact fun index bound => .inr (looks_perm.mem_iff.mpr (List.mem_range.mpr bound))
      · intro index known
        obtain ⟨other, -, same⟩ := List.mem_map.mp (waits.mem_iff.mp known)
        contradiction
  | looking looking =>
    have look := looking.turns _ held
    contradiction
  | closing closing_eq isOver_eq own_eq closed => simp [own_eq] at held
  | complete closing_eq isOver_eq own_eq closed => simp [own_eq] at held
  | refused refusal closing_eq turns => rcases turns _ held with look | same <;> contradiction

/-- A batch that has a turn to look at a linting or to count it is looking at its lintings, unless the
run of one of them was stopped. -/
theorem Stage.looking_of_look
    {turn : Turn}
    (stage : batch.Stage)
    (held : turn ∈ batch.own)
    (look : turn.look?.isSome = true) :
    batch.Looking ∨ ∃ refusal, batch.closing? = some (.error refusal) := by
  cases stage with
  | looking looking => exact .inl looking
  | opened closing_eq isOver_eq own_eq awaited_eq settled_eq =>
    rcases own_eq with same | same <;> rw [same, List.mem_singleton] at held <;> subst held <;>
      contradiction
  | closing closing_eq isOver_eq own_eq closed =>
    rw [own_eq, List.mem_singleton] at held
    subst held
    contradiction
  | complete closing_eq isOver_eq own_eq closed => simp [own_eq] at held
  | refused refusal closing_eq => exact .inr ⟨refusal, closing_eq⟩

/-- Once the run of a linting was stopped, a batch fails whatever it still looks at. -/
theorem Stage.of_refused
    {before after : Batch}
    {refusal : Linting.Refusal}
    (stage : before.Stage)
    (refused : before.closing? = some (.error refusal))
    (closing_eq : after.closing? = before.closing?)
    (turns : ∀ turn ∈ after.own, turn ∈ before.own ∨ turn.look?.isSome = true) :
    after.Stage := by
  refine .refused refusal (closing_eq.trans refused) fun turn known => ?_
  rcases turns turn known with early | look
  · cases stage with
    | refused _ _ turns => exact turns turn early
    | opened other => exact absurd (refused.symm.trans other) (by simp)
    | looking looking => exact absurd (refused.symm.trans looking.closing_eq) (by simp)
    | closing other => exact absurd (refused.symm.trans other) (by simp)
    | complete other => exact absurd (refused.symm.trans other) (by simp)
  · exact .inl look

theorem Looking.takeWait
    (looking : batch.Looking)
    (own_perm : batch.own.Perm (.wait index :: ({ batch with schedule := schedule } : Batch).own)) :
    (({ batch with schedule := schedule } : Batch).take (.wait index)).Looking := by
  have keeps : ∀ other ∈ ({ batch with schedule := schedule } : Batch).own, other ∈ batch.own :=
    fun other known => own_perm.mem_iff.mpr (List.mem_cons_of_mem _ known)
  have split_looks := looks_perm rfl own_perm
  simp only [take, wait]
  split
  · next answer known =>
    obtain ⟨linting, found, answered⟩ := Option.bind_eq_some_iff.mp known
    have own_soon := own_soon { batch with schedule := schedule } (.settle index)
    refine looking.of_perm rfl rfl rfl rfl (fun _ known => known) (fun _ known => known) ?_ ?_
    · exact ((own_soon.filterMap _).append_right _).trans split_looks.symm
    · intro turn known
      refine (List.mem_cons.mp (own_soon.mem_iff.mp known)).symm.imp (keeps turn) ?_
      rintro rfl
      refine ⟨rfl, ?_⟩
      rintro other ⟨⟩
      have isAnswered := Linting.isSome_answer? linting
      rw [answered] at isAnswered
      simp only [hasAnswered, Batch.soon, show batch.lintings[index]? = some linting from found,
        Option.any_some, ← isAnswered, Option.isSome_some]
  · next unknown =>
    have unanswered : batch.hasAnswered index = false := by
      rw [hasAnswered, ← Bool.not_eq_true, Option.any_eq_true]
      rintro ⟨linting, found, answered⟩
      have isAnswered := Linting.isSome_answer? linting
      rw [show batch.lintings[index]? = some linting from found, Option.bind_some] at unknown
      rw [unknown, answered] at isAnswered
      contradiction
    refine looking.of_perm rfl rfl rfl rfl (fun _ known => known) (fun _ known => known) ?_
      fun turn known => .inl (keeps turn known)
    refine List.Perm.trans ?_ split_looks.symm
    have expected_eq : ({ batch with
          schedule := schedule, awaited := index :: batch.awaited } : Batch).expected =
        index :: batch.expected :=
      List.filter_cons_of_pos (show (!batch.hasAnswered index) = true by rw [unanswered]; rfl)
    rw [looks, expected_eq]
    exact List.perm_middle

theorem Stage.takeWait
    (stage : batch.Stage)
    (own_perm : batch.own.Perm (.wait index :: ({ batch with schedule := schedule } : Batch).own)) :
    (({ batch with schedule := schedule } : Batch).take (.wait index)).Stage := by
  rcases stage.looking_of_look (own_perm.mem_iff.mpr List.mem_cons_self) rfl with
    looking | ⟨refusal, refused⟩
  · exact .looking (looking.takeWait own_perm)
  have keeps : ∀ other ∈ ({ batch with schedule := schedule } : Batch).own, other ∈ batch.own :=
    fun other known => own_perm.mem_iff.mpr (List.mem_cons_of_mem _ known)
  simp only [take, wait]
  split
  · refine stage.of_refused refused rfl fun turn known => ?_
    have own_soon := own_soon { batch with schedule := schedule } (.settle index)
    rcases List.mem_cons.mp (own_soon.mem_iff.mp known) with rfl | early
    · exact .inr rfl
    · exact .inl (keeps turn early)
  · exact stage.of_refused refused rfl fun turn known => .inl (keeps turn known)

/-- A linting that is waited for successfully was not stopped. -/
theorem isClosed_of_answer?
    {linting : Linting}
    {state : LintState}
    (answered : linting.answer? = some (.ok state)) :
    linting.phase.isClosed = true := by
  cases phase : linting.phase with
  | ended outcome =>
    cases outcome with
    | stopped failure => simp [Linting.answer?, phase] at answered
    | _ => rfl
  | _ => simp [Linting.answer?, phase] at answered

/-- A linting whose turn to be counted has come is closed, unless its run was stopped. -/
theorem Looking.closed_of_settle
    (looking : batch.Looking)
    (held : .settle index ∈ batch.own)
    (unrefused : ∀ refusal, batch.lintings[index]?.bind (·.answer?) ≠ some (.error refusal)) :
    batch.hasClosed index = true := by
  obtain ⟨linting, found, answered⟩ := (Option.any_eq_true _ _).mp (looking.settling index held)
  rw [← Linting.isSome_answer?] at answered
  obtain ⟨answer, answered⟩ := Option.isSome_iff_exists.mp answered
  refine (Option.any_eq_true _ _).mpr ⟨linting, found, ?_⟩
  cases answer with
  | ok state => exact isClosed_of_answer? answered
  | error refusal =>
    refine absurd ?_ (unrefused refusal)
    rw [found]
    exact answered

theorem Looking.takeSettle
    (looking : batch.Looking)
    (own_perm : batch.own.Perm
      (.settle index :: ({ batch with schedule := schedule } : Batch).own)) :
    (({ batch with schedule := schedule } : Batch).take (.settle index)).Stage := by
  have held : .settle index ∈ batch.own := own_perm.mem_iff.mpr List.mem_cons_self
  have keeps : ∀ other ∈ ({ batch with schedule := schedule } : Batch).own, other ∈ batch.own :=
    fun other known => own_perm.mem_iff.mpr (List.mem_cons_of_mem _ known)
  have split_looks := looks_perm rfl own_perm
  have length_eq := split_looks.length_eq
  rw [List.length_cons] at length_eq
  have counted := looking.counted
  simp only [take, settle, looking.closing_eq, Option.isSome_none, Bool.false_eq_true, if_false]
  split
  · next refusal refused =>
    refine .refused refusal rfl fun turn known => ?_
    have concludes := own_soon { batch with
      schedule := schedule, closing? := some (.error refusal) } .conclude
    rcases List.mem_cons.mp (concludes.mem_iff.mp known) with rfl | early
    · exact .inr rfl
    · exact .inl (looking.turns turn (keeps turn early))
  · next unrefused =>
    have kept : ∀ other < batch.lintings.length, batch.hasClosed other = true ∨
        other ∈ ({ batch with schedule := schedule } : Batch).looks := by
      intro other bound
      rcases looking.kept other bound with closed | known
      · exact .inl closed
      · rcases List.mem_cons.mp (split_looks.mem_iff.mp known) with rfl | later
        · exact .inl (looking.closed_of_settle held fun refusal => unrefused refusal)
        · exact .inr later
    split
    · next last =>
      have none : ({ batch with schedule := schedule } : Batch).looks = [] :=
        List.length_eq_zero_iff.mp (by
          change batch.settled + 1 = batch.lintings.length at last
          omega)
      have concludes := own_soon { batch with
        schedule := schedule, settled := batch.settled + 1, closing? := some (.ok ()) } .conclude
      change List.Perm _ (.conclude :: ({ batch with schedule := schedule } : Batch).own) at concludes
      rw [looking.own_eq_nil keeps none] at concludes
      refine .closing rfl looking.isOver_eq (List.perm_singleton.mp concludes) fun other bound => ?_
      exact (kept other bound).resolve_right (by simp [none])
    · next others =>
      refine .looking ⟨rfl, looking.isOver_eq,
        fun turn known => looking.turns turn (keeps turn known), ?_, ?_, ?_, ?_, kept,
        fun other known => looking.settling other (keeps _ known)⟩
      · exact (List.nodup_cons.mp (split_looks.nodup_iff.mp looking.once)).2
      · exact fun other known =>
          looking.known other (split_looks.mem_iff.mpr (List.mem_cons_of_mem _ known))
      · change ({ batch with schedule := schedule } : Batch).looks.length + (batch.settled + 1) =
          batch.lintings.length
        omega
      · have undone := looking.undone
        change batch.settled + 1 < batch.lintings.length
        change ¬batch.settled + 1 = batch.lintings.length at others
        omega

theorem Stage.takeSettle
    (stage : batch.Stage)
    (own_perm : batch.own.Perm
      (.settle index :: ({ batch with schedule := schedule } : Batch).own)) :
    (({ batch with schedule := schedule } : Batch).take (.settle index)).Stage := by
  rcases stage.looking_of_look (own_perm.mem_iff.mpr List.mem_cons_self) rfl with
    looking | ⟨refusal, refused⟩
  · exact looking.takeSettle own_perm
  simp only [take, settle, refused, Option.isSome_some, if_true]
  exact stage.of_refused refused refused.symm fun turn known =>
    .inl (own_perm.mem_iff.mpr (List.mem_cons_of_mem _ known))

theorem Stage.takeConclude
    (stage : batch.Stage)
    (own_perm : batch.own.Perm (.conclude :: ({ batch with schedule := schedule } : Batch).own)) :
    (({ batch with schedule := schedule } : Batch).take .conclude).Stage := by
  have held : .conclude ∈ batch.own := own_perm.mem_iff.mpr List.mem_cons_self
  cases stage with
  | opened closing_eq isOver_eq own_eq awaited_eq settled_eq =>
    rcases own_eq with same | same <;> simp [same] at held
  | looking looking =>
    have look := looking.turns _ held
    contradiction
  | closing closing_eq isOver_eq own_eq closed =>
    exact .complete closing_eq rfl (own_eq_nil own_eq own_perm) closed
  | complete closing_eq isOver_eq own_eq closed => simp [own_eq] at held
  | refused refusal closing_eq turns =>
    exact .refused refusal closing_eq fun turn known =>
      turns turn (own_perm.mem_iff.mpr (List.mem_cons_of_mem _ known))

/-- A turn of the batch itself takes it on. -/
theorem Stage.takeOwn
    {turn : Turn}
    (stage : batch.Stage)
    (isOwn : turn.isOwn = true)
    (own_perm : batch.own.Perm (turn :: ({ batch with schedule := schedule } : Batch).own)) :
    (({ batch with schedule := schedule } : Batch).take turn).Stage := by
  cases turn with
  | linting index turn => contradiction
  | opened => exact stage.takeOpened own_perm
  | gather => exact stage.takeGather own_perm
  | wait index => exact stage.takeWait own_perm
  | settle index => exact stage.takeSettle own_perm
  | conclude => exact stage.takeConclude own_perm

end

end Batch
end MarkupLint
