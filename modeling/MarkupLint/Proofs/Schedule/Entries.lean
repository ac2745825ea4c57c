import MarkupLint.Proofs.Insertion
import MarkupLint.Schedule
import Mathlib.Algebra.Order.Ring.Rat
import Mathlib.Data.List.Perm.Basic

/-!
# What is on a schedule

The turns that are ready and those that wait for a timer are the entries of a schedule.  Taking the
next turn takes one entry away, and there is a next turn as long as there are entries.

The turns of this round and of the next one are ready.  They are taken one after another, and what
becomes ready meanwhile comes behind them.  So a turn that is ready is taken after finitely many
others.
-/

namespace MarkupLint

namespace Precedence.Admits

variable {Turn : Type} {precedence : Precedence Turn} {first second third : Rat × Turn}

theorem instant_le (admits : precedence.Admits first second) : first.1 ≤ second.1 :=
  admits.elim le_of_lt fun tied => tied.1.le

theorem of_not (late : ¬precedence.Admits first second) : precedence.Admits second first := by
  rcases lt_trichotomy first.1 second.1 with before | same | behind
  · exact absurd (.inl before) late
  · exact .inr ⟨same.symm, (le_total _ _).resolve_left fun early => late (.inr ⟨same, early⟩)⟩
  · exact .inl behind

theorem trans (early : precedence.Admits first second) (late : precedence.Admits second third) :
    precedence.Admits first third := by
  rcases early with before | ⟨same, precedes⟩
  · exact .inl (before.trans_le late.instant_le)
  · rcases late with before | ⟨tied, follows⟩
    · exact .inl (same.trans_lt before)
    · exact .inr ⟨same.trans tied, precedes.trans follows⟩

instance : IsTrans (Rat × Turn) precedence.Admits := ⟨fun _ _ _ => trans⟩

end Precedence.Admits

namespace Schedule

variable {Turn : Type}

/-- The turns that are ready or will be. -/
def entries (schedule : Schedule Turn) : List Turn :=
  schedule.current ++ schedule.upcoming ++ schedule.timers.map (·.2)

theorem entries_soon (schedule : Schedule Turn) (turn : Turn) :
    (schedule.soon turn).entries.Perm (turn :: schedule.entries) := by
  have moved : (schedule.current ++ schedule.upcoming ++ turn :: schedule.timers.map (·.2)).Perm
      (turn :: schedule.entries) := List.perm_middle
  simpa only [entries, soon, List.append_assoc, List.singleton_append] using moved

theorem inserts_insertTimer (precedence : Precedence Turn) :
    Inserts precedence.Admits fun timer => insertTimer precedence timer.1 timer.2 where
  nil _ := rfl
  cons timer other rest := by
    rw [insertTimer]
    split
    · next early => exact .inr ⟨early, rfl⟩
    · next late => exact .inl ⟨Precedence.Admits.of_not late, rfl⟩

theorem insertTimer_perm
    (precedence : Precedence Turn)
    (instant : Rat)
    (turn : Turn)
    (timers : List (Rat × Turn)) :
    (insertTimer precedence instant turn timers).Perm ((instant, turn) :: timers) :=
  (inserts_insertTimer precedence).perm (instant, turn) timers

theorem entries_after (schedule : Schedule Turn) (seconds : Rat) (turn : Turn) :
    (schedule.after seconds turn).entries.Perm (turn :: schedule.entries) := by
  simp only [entries, after]
  have inserted := (insertTimer_perm schedule.precedence
    (schedule.precision.round (schedule.now + seconds)) turn schedule.timers).map (·.2)
  exact (inserted.append_left _).trans List.perm_middle

/-- Cancelling takes away nothing but timers of the turn. -/
theorem count_entries_cancel
    [DecidableEq Turn]
    {turn other : Turn}
    (different : other ≠ turn)
    (schedule : Schedule Turn) :
    (schedule.cancel turn).entries.count other = schedule.entries.count other := by
  have kept : (schedule.timers.filter fun timer => timer.2 ≠ turn).map (·.2) =
      (schedule.timers.map (·.2)).filter fun own => own ≠ turn := by
    rw [List.filter_map]
    rfl
  simp only [entries, cancel, kept, List.count_append]
  rw [List.count_filter (by simpa using different)]

theorem mem_entries_cancel
    [DecidableEq Turn]
    {schedule : Schedule Turn}
    {turn other : Turn}
    (different : other ≠ turn) :
    other ∈ (schedule.cancel turn).entries ↔ other ∈ schedule.entries := by
  rw [← List.count_pos_iff, ← List.count_pos_iff, count_entries_cancel different]

theorem sublist_entries_cancel
    [DecidableEq Turn]
    (schedule : Schedule Turn)
    (turn : Turn) :
    (schedule.cancel turn).entries.Sublist schedule.entries :=
  (List.filter_sublist.map _).append_left _

/-- Cancelling is not seen by who does not look at the turn. -/
theorem filter_entries_cancel
    [DecidableEq Turn]
    {isSeen : Turn → Bool}
    {turn : Turn}
    (unseen : isSeen turn = false)
    (schedule : Schedule Turn) :
    (schedule.cancel turn).entries.filter isSeen = schedule.entries.filter isSeen := by
  have kept : ((schedule.timers.filter fun timer => timer.2 ≠ turn).map (·.2)).filter isSeen =
      (schedule.timers.map (·.2)).filter isSeen := by
    rw [List.filter_map, List.filter_map, List.filter_filter]
    congr 1
    apply List.filter_congr
    intro timer known
    by_cases same : timer.2 = turn
    · simp [same, unseen]
    · simp [same]
  simp only [entries, List.filter_append]
  exact congrArg _ kept

theorem entries_beginRound
    {schedule : Schedule Turn}
    (spent : schedule.current = []) :
    schedule.beginRound.entries.Perm schedule.entries := by
  simp only [entries, beginRound, spent, List.append_nil, List.nil_append, List.append_assoc]
  rw [← List.map_append, List.takeWhile_append_dropWhile]

/-- The next turn is taken off the schedule. -/
theorem entries_next?
    {schedule later : Schedule Turn}
    {turn : Turn}
    (next : schedule.next? = some (turn, later)) :
    schedule.entries.Perm (turn :: later.entries) := by
  simp only [next?] at next
  split at next
  · next first rest current =>
    cases next
    simp only [entries, current, List.cons_append]
    exact .refl _
  · next spent =>
    have begun := (entries_beginRound spent).symm
    split at next
    · next first rest current =>
      cases next
      apply begun.trans
      simp only [entries, current, List.cons_append]
      exact .refl _
    · contradiction

/-- Taking a turn adds no timers. -/
theorem mem_timers_of_next?
    {schedule later : Schedule Turn}
    {turn : Turn}
    (next : schedule.next? = some (turn, later))
    {timer : Rat × Turn}
    (known : timer ∈ later.timers) :
    timer ∈ schedule.timers := by
  simp only [next?] at next
  split at next
  · next first rest current =>
    cases next
    exact known
  · next spent =>
    split at next
    · next first rest current =>
      cases next
      exact (List.dropWhile_sublist _).mem known
    · contradiction

/-- As long as there are entries, there is a next turn. -/
theorem next?_eq_none_iff (schedule : Schedule Turn) :
    schedule.next? = none ↔ schedule.entries = [] := by
  constructor
  · intro none
    simp only [next?] at none
    split at none
    · contradiction
    · next spent =>
      split at none
      · contradiction
      · next empty =>
        simp only [beginRound, List.append_eq_nil_iff, List.map_eq_nil_iff] at empty
        cases timers : schedule.timers with
        | nil => simp [entries, spent, empty.1, timers]
        | cons timer rest =>
          have waits := empty.2
          rw [empty.1, timers] at waits
          simp only [← max_def] at waits
          simp at waits
  · intro empty
    simp only [entries, List.append_eq_nil_iff, List.map_eq_nil_iff] at empty
    obtain ⟨⟨current, upcoming⟩, timers⟩ := empty
    simp [next?, beginRound, current, upcoming, timers]

/-! ## Turns that are ready -/

/-- The turns that are ready, in the order in which they are taken. -/
def ready (schedule : Schedule Turn) : List Turn := schedule.current ++ schedule.upcoming

@[simp] theorem ready_soon (schedule : Schedule Turn) (turn : Turn) :
    (schedule.soon turn).ready = schedule.ready ++ [turn] :=
  (List.append_assoc _ _ _).symm

@[simp] theorem ready_after (schedule : Schedule Turn) (seconds : Rat) (turn : Turn) :
    (schedule.after seconds turn).ready = schedule.ready := rfl

@[simp] theorem ready_cancel [DecidableEq Turn] (schedule : Schedule Turn) (turn : Turn) :
    (schedule.cancel turn).ready = schedule.ready := rfl

/-- The turn that is taken next is the first one that is ready, and the others stay in order. -/
theorem ready_next?
    {schedule later : Schedule Turn}
    {turn first : Turn}
    {rest : List Turn}
    (next : schedule.next? = some (turn, later))
    (same : schedule.ready = first :: rest) :
    turn = first ∧ rest <+: later.ready := by
  cases current : schedule.current with
  | cons head others =>
    simp only [next?, current, Option.some.injEq, Prod.mk.injEq] at next
    obtain ⟨rfl, rfl⟩ := next
    simp only [ready, current, List.cons_append, List.cons.injEq] at same
    obtain ⟨rfl, rfl⟩ := same
    exact ⟨rfl, List.prefix_rfl⟩
  | nil =>
    have upcoming : schedule.upcoming = first :: rest := by simpa [ready, current] using same
    simp only [next?, current, beginRound, upcoming, List.cons_append, Option.some.injEq,
      Prod.mk.injEq] at next
    obtain ⟨rfl, rfl⟩ := next
    exact ⟨rfl, (List.prefix_append rest _).trans (List.prefix_append _ _)⟩

/-- A turn that is ready stays so while another one is taken. -/
theorem mem_ready_next?
    {schedule later : Schedule Turn}
    {turn first : Turn}
    (next : schedule.next? = some (first, later))
    (known : turn ∈ schedule.ready)
    (other : turn ≠ first) :
    turn ∈ later.ready := by
  obtain ⟨head, rest, same⟩ := List.exists_cons_of_ne_nil (List.ne_nil_of_mem known)
  obtain ⟨rfl, kept⟩ := ready_next? next same
  rw [same, List.mem_cons] at known
  exact kept.mem (known.resolve_left other)

/-- No time passes as long as a turn is ready. -/
theorem now_next?
    {schedule later : Schedule Turn}
    {turn : Turn}
    (next : schedule.next? = some (turn, later))
    (ready : schedule.ready ≠ []) :
    later.now = schedule.now := by
  cases current : schedule.current with
  | cons head others =>
    simp only [next?, current, Option.some.injEq, Prod.mk.injEq] at next
    rw [← next.2]
  | nil =>
    cases upcoming : schedule.upcoming with
    | nil => simp [Schedule.ready, current, upcoming] at ready
    | cons head others =>
      simp only [next?, current, beginRound, upcoming, List.cons_append, Option.some.injEq,
        Prod.mk.injEq] at next
      rw [← next.2]

/-- There is a next turn as long as one is ready. -/
theorem exists_next?_of_mem_ready
    {schedule : Schedule Turn}
    {turn : Turn}
    (known : turn ∈ schedule.ready) :
    ∃ first later, schedule.next? = some (first, later) := by
  cases next : schedule.next? with
  | some taken => exact ⟨taken.1, taken.2, rfl⟩
  | none =>
    have none := (next?_eq_none_iff schedule).mp next
    have entry : turn ∈ schedule.entries := List.mem_append_left _ known
    simp [none] at entry

/-- In a system whose steps take the turns of a schedule, a turn that is ready comes: what holds until
it is taken, and brings something about when it is, does so after finitely many steps. -/
theorem exists_of_mem_ready
    {State : Type}
    {Step : State → State → Prop}
    {schedule : State → Schedule Turn}
    {before after : State → Prop}
    {turn : Turn}
    (step : ∀ state first rest, before state → (schedule state).next? = some (first, rest) →
      ∃ later, Step state later ∧
        (after later ∨ before later ∧ first ≠ turn ∧ rest.ready <+: (schedule later).ready))
    {state : State}
    (holds : before state)
    (known : turn ∈ (schedule state).ready) :
    ∃ later, Relation.ReflTransGen Step state later ∧ after later := by
  obtain ⟨ahead, behind, same⟩ := List.append_of_mem known
  -- Every step that does not take the turn takes one of those ahead of it.
  induction ahead generalizing state behind with
  | nil =>
    obtain ⟨first, rest, next⟩ := exists_next?_of_mem_ready known
    obtain ⟨rfl, -⟩ := ready_next? next same
    obtain ⟨later, stepped, done | ⟨-, other, -⟩⟩ := step state first rest holds next
    · exact ⟨later, .single stepped, done⟩
    · exact absurd rfl other
  | cons head ahead ih =>
    obtain ⟨first, rest, next⟩ := exists_next?_of_mem_ready known
    rw [List.cons_append] at same
    obtain ⟨rfl, kept⟩ := ready_next? next same
    obtain ⟨later, stepped, done | ⟨held, -, left⟩⟩ := step state first rest holds next
    · exact ⟨later, .single stepped, done⟩
    · obtain ⟨extra, ready_eq⟩ := kept.trans left
      rw [List.append_assoc, List.cons_append] at ready_eq
      have still : turn ∈ (schedule later).ready := by
        rw [← ready_eq]
        exact List.mem_append_right _ List.mem_cons_self
      obtain ⟨last, path, done⟩ := ih held still _ ready_eq.symm
      exact ⟨last, path.head stepped, done⟩

end Schedule
end MarkupLint
