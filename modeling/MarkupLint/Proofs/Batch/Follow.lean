import MarkupLint.Batch.Run
import MarkupLint.Proofs.Linting.Heeding
import MarkupLint.Proofs.Schedule.Entries

/-!
# What a batch takes over from its lintings

A batch that follows one of its lintings passes its turns on.  When the linting comes to its end, the
batch counts it if it has errors, shows it, and looks at it if it has been waiting for it.
-/

namespace MarkupLint
namespace Batch

open Linting (Effect observed ends)

/-- Whether a turn is one of the batch itself, and not of one of its lintings. -/
def Turn.isOwn : Turn → Bool
  | linting _ _ => false
  | _ => true

/-- The turns of the batch itself that are on the schedule. -/
def own (batch : Batch) : List Turn := batch.schedule.entries.filter Turn.isOwn

theorem Watcher.ofLabel?_eq_some {label : String} {watcher : Watcher} :
    ofLabel? label = some watcher ↔ label = watcher.label := by
  constructor
  · intro found
    have same := List.find?_some found
    simpa using Eq.symm (beq_iff_eq.mp same)
  · rintro rfl
    exact ofLabel?_label watcher

/-- Whether the call of an observer counts a linting that has come to its end with errors. -/
def isTallied (call : Linting.ObservedCall) : Bool :=
  call.label = Watcher.tally.label && call.state = .error

/-- Whether the call of an observer shows a linting. -/
def isDisplayed (call : Linting.ObservedCall) : Bool := call.label = Watcher.display.label

/-- What calls of observers show of the linting with an index. -/
def shownBy (batch : Batch) (index : Nat) (calls : List Linting.ObservedCall) :
    List (Nat × Linting) :=
  (calls.filter isDisplayed).flatMap fun _ => batch.lintings[index]?.toList.map (index, ·)

/-- What having effects of the linting with an index does to a batch. -/
structure Absorbed (before after : Batch) (index : Nat) (effects : List Effect) : Prop where
  precision_eq : after.precision = before.precision
  isShown_eq : after.isShown = before.isShown
  lintings_eq : after.lintings = before.lintings
  skipped_eq : after.skipped = before.skipped
  awaited_eq : after.awaited = before.awaited
  settled_eq : after.settled = before.settled
  closing_eq : after.closing? = before.closing?
  isOver_eq : after.isOver = before.isOver
  errorCount_eq : after.errorCount = before.errorCount + (observed effects).countP isTallied
  shown_eq : after.shown = before.shown ++ before.shownBy index (observed effects)
  own_perm : after.own.Perm
    (before.own ++ if index ∈ before.awaited then (ends effects).map fun _ => .wait index else [])
  timers : (∀ timer ∈ before.schedule.timers, timer.2.isOwn = false) →
    ∀ timer ∈ after.schedule.timers, timer.2.isOwn = false
  ready : before.schedule.ready <+: after.schedule.ready
  soon : ∀ turn, .soon turn ∈ effects → .linting index turn ∈ after.schedule.ready

namespace Absorbed

theorem refl (batch : Batch) (index : Nat) : Absorbed batch batch index [] where
  precision_eq := rfl
  isShown_eq := rfl
  lintings_eq := rfl
  skipped_eq := rfl
  awaited_eq := rfl
  settled_eq := rfl
  closing_eq := rfl
  isOver_eq := rfl
  errorCount_eq := rfl
  shown_eq := by simp [shownBy, observed]
  own_perm := by simp [ends]
  timers punctual := punctual
  ready := List.prefix_rfl
  soon := by simp

theorem trans
    {first second third : Batch}
    {index : Nat}
    {effects others : List Effect}
    (early : Absorbed first second index effects)
    (late : Absorbed second third index others) :
    Absorbed first third index (effects ++ others) where
  precision_eq := late.precision_eq.trans early.precision_eq
  isShown_eq := late.isShown_eq.trans early.isShown_eq
  lintings_eq := late.lintings_eq.trans early.lintings_eq
  skipped_eq := late.skipped_eq.trans early.skipped_eq
  awaited_eq := late.awaited_eq.trans early.awaited_eq
  settled_eq := late.settled_eq.trans early.settled_eq
  closing_eq := late.closing_eq.trans early.closing_eq
  isOver_eq := late.isOver_eq.trans early.isOver_eq
  errorCount_eq := by
    rw [late.errorCount_eq, early.errorCount_eq, observed, observed, observed, List.filterMap_append,
      List.countP_append, Nat.add_assoc]
  shown_eq := by
    rw [late.shown_eq, early.shown_eq, shownBy, shownBy, shownBy, early.lintings_eq, observed,
      observed, observed, List.filterMap_append, List.filter_append, List.flatMap_append,
      List.append_assoc]
  own_perm := by
    refine late.own_perm.trans ((early.own_perm.append_right _).trans ?_)
    rw [early.awaited_eq, List.append_assoc, ends, ends, ends, List.filterMap_append]
    split
    · rw [List.map_append]
    · rfl
  timers punctual := late.timers (early.timers punctual)
  ready := early.ready.trans late.ready
  soon turn known := by
    rcases List.mem_append.mp known with before | behind
    · exact late.ready.mem (early.soon turn before)
    · exact late.soon turn behind

end Absorbed

theorem own_soon (batch : Batch) (turn : Turn) :
    (batch.soon turn).own.Perm (if turn.isOwn then turn :: batch.own else batch.own) := by
  refine ((Schedule.entries_soon _ _).filter _).trans ?_
  rw [List.filter_cons]
  rfl

theorem own_after (batch : Batch) (seconds : Rat) (turn : Turn) :
    ({ batch with schedule := batch.schedule.after seconds turn } : Batch).own.Perm
      (if turn.isOwn then turn :: batch.own else batch.own) := by
  refine ((Schedule.entries_after _ _ _).filter _).trans ?_
  rw [List.filter_cons]
  rfl

/-- Without news of the end, the batch gets no turns of its own. -/
theorem own_perm_of_quiet
    {before after : Batch}
    {index : Nat}
    {effects : List Effect}
    (quiet : ends effects = [])
    (same : after.own.Perm before.own) :
    after.own.Perm
      (before.own ++
        if index ∈ before.awaited then (ends effects).map fun _ => .wait index else []) := by
  rw [quiet, List.map_nil, ite_self, List.append_nil]
  exact same

/-- Effects that no observer sees show nothing. -/
theorem shown_eq_of_unseen
    {before after : Batch}
    {effects : List Effect}
    (unseen : observed effects = [])
    (same : after.shown = before.shown)
    (index : Nat) :
    after.shown = before.shown ++ before.shownBy index (observed effects) := by
  rw [unseen, same]
  exact (List.append_nil _).symm

/-- Whatever a watcher counts or shows, the batch has taken it in. -/
theorem absorbed_of_called
    {batch : Batch}
    {index : Nat}
    {label : String}
    {state : LintState}
    {size errorCount : Nat}
    {shown : List (Nat × Linting)}
    (remaining : Int)
    (logs : List LogRecord)
    (errorCount_eq : errorCount = batch.errorCount +
      if label = Watcher.tally.label ∧ state = .error then 1 else 0)
    (shown_eq : shown = batch.shown ++
      if label = Watcher.display.label then batch.lintings[index]?.toList.map (index, ·) else []) :
    Absorbed batch
      { batch with remaining := remaining, errorCount := errorCount, shown := shown, logs := logs }
      index [.called label state size] := by
  have tallied : (observed [Effect.called label state size]).countP isTallied =
      if label = Watcher.tally.label ∧ state = .error then 1 else 0 := by
    simp [observed, Effect.observed?, isTallied, List.countP_singleton]
  have displayed : batch.shownBy index (observed [Effect.called label state size]) =
      if label = Watcher.display.label then batch.lintings[index]?.toList.map (index, ·) else [] := by
    rw [shownBy, observed]
    split
    · next same => simp [Effect.observed?, isDisplayed, same]
    · next other => simp [Effect.observed?, isDisplayed, other]
  refine ⟨rfl, rfl, rfl, rfl, rfl, rfl, rfl, rfl, ?_, ?_, own_perm_of_quiet rfl (.refl _),
    fun punctual => punctual, List.prefix_rfl, by simp⟩
  · rw [tallied, ← errorCount_eq]
  · rw [displayed, ← shown_eq]

/-- Telling a watcher changes the counters, what is shown and the log only. -/
theorem absorbed_called
    (batch : Batch)
    (index : Nat)
    (label : String)
    (state : LintState)
    (size : Nat) :
    Absorbed batch (batch.absorb index (.called label state size)) index
      [.called label state size] := by
  simp only [absorb]
  split
  · next watcher known =>
    have label_eq := Watcher.ofLabel?_eq_some.mp known
    cases watcher with
    | tally =>
      refine absorbed_of_called _ _ ?_ ?_
      · simp only [label_eq, true_and]
        split <;> rfl
      · simp [label_eq, Watcher.label]
    | progress =>
      simp only [tell]
      split <;> exact absorbed_of_called _ _ (by simp [label_eq, Watcher.label])
        (by simp [label_eq, Watcher.label])
    | display =>
      simp only [tell]
      split
      · next linting found =>
        refine absorbed_of_called _ _ (by simp [label_eq, Watcher.label]) ?_
        simp [label_eq, found]
      · next unknown =>
        refine absorbed_of_called _ _ (by simp [label_eq, Watcher.label]) ?_
        simp [label_eq, unknown]
  · next unknown =>
    refine absorbed_of_called _ _ ?_ ?_
    · rw [if_neg]
      · rfl
      · rintro ⟨rfl, -⟩
        rw [Watcher.ofLabel?_label] at unknown
        contradiction
    · rw [if_neg]
      · exact (List.append_nil _).symm
      · rintro rfl
        rw [Watcher.ofLabel?_label] at unknown
        contradiction

/-- An effect that no observer sees changes the schedule and the log only. -/
theorem Absorbed.of_unseen
    {batch : Batch}
    {index : Nat}
    {effect : Effect}
    {schedule : Schedule Turn}
    {logs : List LogRecord}
    (unseen : observed [effect] = [])
    (own_perm : ({ batch with schedule := schedule, logs := logs } : Batch).own.Perm
      (batch.own ++
        if index ∈ batch.awaited then (ends [effect]).map fun _ => .wait index else []))
    (timers : (∀ timer ∈ batch.schedule.timers, timer.2.isOwn = false) →
      ∀ timer ∈ schedule.timers, timer.2.isOwn = false)
    (ready : batch.schedule.ready <+: schedule.ready)
    (soon : ∀ turn, .soon turn ∈ [effect] → .linting index turn ∈ schedule.ready) :
    Absorbed batch { batch with schedule := schedule, logs := logs } index [effect] where
  precision_eq := rfl
  isShown_eq := rfl
  lintings_eq := rfl
  skipped_eq := rfl
  awaited_eq := rfl
  settled_eq := rfl
  closing_eq := rfl
  isOver_eq := rfl
  errorCount_eq := by rw [unseen, List.countP_nil, Nat.add_zero]
  shown_eq := shown_eq_of_unseen unseen rfl index
  own_perm := own_perm
  timers := timers
  ready := ready
  soon := soon

theorem absorbed_absorb (batch : Batch) (index : Nat) (effect : Effect) :
    Absorbed batch (batch.absorb index effect) index [effect] := by
  cases effect with
  | called label state size => exact absorbed_called batch index label state size
  | soon turn =>
    refine .of_unseen rfl (own_perm_of_quiet rfl (own_soon _ _)) (fun punctual => punctual) ?_ ?_
    · rw [Schedule.ready_soon]
      exact List.prefix_append _ _
    · simp
  | after seconds turn =>
    refine .of_unseen rfl (own_perm_of_quiet rfl (own_after _ _ _)) ?_ List.prefix_rfl (by simp)
    intro punctual timer known
    rcases List.mem_cons.mp ((Schedule.insertTimer_perm _ _ _ _).mem_iff.mp known) with rfl | known
    · rfl
    · exact punctual timer known
  | cancel turn =>
    refine .of_unseen rfl ?_ ?_ List.prefix_rfl (by simp)
    · refine own_perm_of_quiet rfl (.of_eq ?_)
      exact Schedule.filter_entries_cancel rfl batch.schedule
    · exact fun punctual timer known => punctual timer (List.mem_of_mem_filter known)
  | ended =>
    simp only [absorb]
    by_cases waits : index ∈ batch.awaited
    · rw [if_pos (by simpa using waits)]
      refine .of_unseen rfl ?_ (fun punctual => punctual) ?_ (by simp)
      · refine (own_soon _ _).trans ?_
        simp [Turn.isOwn, ends, Effect.end?, waits, List.perm_append_singleton, List.Perm.symm]
      · rw [Schedule.ready_soon]
        exact List.prefix_append _ _
    · rw [if_neg (by simpa using waits)]
      exact .of_unseen rfl (by simp [waits]) (fun punctual => punctual) List.prefix_rfl (by simp)
  | _ =>
    exact .of_unseen rfl (own_perm_of_quiet rfl (.refl _)) (fun punctual => punctual)
      List.prefix_rfl (by simp)

theorem absorbed_foldl (batch : Batch) (index : Nat) (effects : List Effect) :
    Absorbed batch (effects.foldl (absorb index) batch) index effects := by
  induction effects generalizing batch with
  | nil => exact .refl batch index
  | cons effect rest ih => exact (absorbed_absorb batch index effect).trans (ih _)

/-- A batch that follows a linting takes its place over and absorbs its effects. -/
theorem absorbed_follow (batch : Batch) (index : Nat) (progress : Linting.Progress) :
    Absorbed { batch with lintings := batch.lintings.set index progress.linting }
      (batch.follow index progress) index progress.effects :=
  absorbed_foldl _ index progress.effects

theorem own_follow_of_quiet
    {batch : Batch}
    {index : Nat}
    {progress : Linting.Progress}
    (quiet : ends progress.effects = []) :
    (batch.follow index progress).own.Perm batch.own := by
  refine (batch.absorbed_follow index progress).own_perm.trans ?_
  rw [quiet, List.map_nil, ite_self, List.append_nil]
  exact .refl _

end Batch
end MarkupLint
