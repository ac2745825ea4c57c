import MarkupLint.Proofs.Schedule.Projection
import MarkupLint.Proofs.Schedule.Entries

/-!
# How time passes

As long as all timers lie ahead, the turns that are ready are taken without time passing.  When no
turn is ready, time passes to the earliest timer, and the turns of that instant become ready.
-/

namespace MarkupLint
namespace Schedule

variable {Turn : Type} {schedule later : Schedule Turn} {turn first : Turn} {instant : Rat}

/-- All timers lie ahead, in order. -/
structure IsAhead (schedule : Schedule Turn) : Prop where
  sorted : schedule.Sorted
  ahead : ∀ timer ∈ schedule.timers, schedule.now < timer.1

/-- How the next turn is taken: it was ready, or time has passed to it. -/
inductive Passed (schedule : Schedule Turn) (turn : Turn) (later : Schedule Turn) : Prop where
  | ready
      (ready_eq : schedule.ready = turn :: later.ready)
      (now_eq : later.now = schedule.now)
      (timers_eq : later.timers = schedule.timers)
  | due
      (due : List (Rat × Turn))
      (idle : schedule.ready = [])
      (passes : schedule.now < later.now)
      (timers_eq : schedule.timers = due ++ later.timers)
      (ready_eq : due.map (·.2) = turn :: later.ready)
      (instant_eq : ∀ timer ∈ due, timer.1 = later.now)
      (ahead : ∀ timer ∈ later.timers, later.now < timer.1)

/-- When turns of the next round are ready, the first of them is taken, without time passing. -/
theorem IsAhead.passed_of_upcoming
    {others : List Turn}
    (isAhead : schedule.IsAhead)
    (current : schedule.current = [])
    (upcoming : schedule.upcoming = first :: others)
    (next : schedule.next? = some (turn, later)) :
    schedule.Passed turn later := by
  have now_eq : schedule.roundInstant = schedule.now := by rw [roundInstant, upcoming]
  have none : schedule.timers.filter (fun timer => decide (timer.1 ≤ schedule.now)) = [] :=
    List.filter_eq_nil_iff.mpr fun timer known => by
      simpa using isAhead.ahead timer known
  have all : schedule.timers.filter (fun timer => !decide (timer.1 ≤ schedule.now)) =
      schedule.timers :=
    List.filter_eq_self.mpr fun timer known => by
      simpa using isAhead.ahead timer known
  simp only [next?, current, beginRound_eq isAhead.sorted] at next
  rw [now_eq, none, all, upcoming] at next
  simp only [List.map_nil, List.append_nil, Option.some.injEq, Prod.mk.injEq] at next
  obtain ⟨rfl, rfl⟩ := next
  refine .ready ?_ rfl rfl
  rw [ready, current, List.nil_append, upcoming, ready, List.append_nil]

/-- When no turn is ready, time passes to the earliest timer. -/
theorem IsAhead.passed_of_timer
    {timer : Rat × Turn}
    {rest : List (Rat × Turn)}
    (isAhead : schedule.IsAhead)
    (current : schedule.current = [])
    (upcoming : schedule.upcoming = [])
    (timers : schedule.timers = timer :: rest)
    (next : schedule.next? = some (turn, later)) :
    schedule.Passed turn later := by
  have instants := takeWhile_due isAhead.sorted.instants schedule.roundInstant
  have before := isAhead.ahead timer (by rw [timers]; exact List.mem_cons_self)
  have now_eq : schedule.roundInstant = timer.1 := by
    rw [roundInstant, upcoming, timers]
    exact max_eq_right before.le
  have split := @List.takeWhile_append_dropWhile _
    (fun timer => decide (timer.1 ≤ schedule.roundInstant)) schedule.timers
  rw [instants.1, instants.2] at split
  simp only [next?, current, beginRound_eq isAhead.sorted] at next
  rw [upcoming, List.nil_append] at next
  revert next
  split
  · next taken others known =>
    intro next
    simp only [Option.some.injEq, Prod.mk.injEq] at next
    obtain ⟨rfl, rfl⟩ := next
    refine .due _ (by rw [ready, current, upcoming, List.append_nil])
      (by rw [now_eq]; exact before) split.symm (by rw [known, ready, List.append_nil]) ?_ ?_
    · intro other known
      obtain ⟨waits, early⟩ := List.mem_filter.mp known
      have order := isAhead.sorted.instants
      rw [timers, List.pairwise_cons] at order
      rw [timers] at waits
      refine le_antisymm (of_decide_eq_true early) (now_eq.trans_le ?_)
      rcases List.mem_cons.mp waits with rfl | behind
      · exact le_refl _
      · exact order.1 other behind
    · intro other known
      simpa using (List.mem_filter.mp known).2
  · intro next
    contradiction

theorem IsAhead.passed
    (isAhead : schedule.IsAhead)
    (next : schedule.next? = some (turn, later)) :
    schedule.Passed turn later := by
  cases current : schedule.current with
  | cons head others =>
    simp only [next?, current, Option.some.injEq, Prod.mk.injEq] at next
    obtain ⟨rfl, rfl⟩ := next
    exact .ready (by rw [ready, current]; rfl) rfl rfl
  | nil =>
    cases upcoming : schedule.upcoming with
    | cons head others => exact isAhead.passed_of_upcoming current upcoming next
    | nil =>
      cases timers : schedule.timers with
      | cons timer rest => exact isAhead.passed_of_timer current upcoming timers next
      | nil =>
        simp only [next?, current, beginRound_eq isAhead.sorted] at next
        rw [upcoming, timers] at next
        simp at next

theorem Passed.now_le (passed : schedule.Passed turn later) : schedule.now ≤ later.now := by
  cases passed with
  | ready ready_eq now_eq timers_eq => exact now_eq.ge
  | due due idle passes => exact passes.le

/-- Time does not pass as long as a turn is ready. -/
theorem Passed.now_eq_of_mem_ready
    (passed : schedule.Passed turn later)
    (known : first ∈ schedule.ready) :
    later.now = schedule.now := by
  cases passed with
  | ready ready_eq now_eq timers_eq => exact now_eq
  | due due idle passes =>
    rw [idle] at known
    contradiction

theorem IsAhead.next?
    (isAhead : schedule.IsAhead)
    (next : schedule.next? = some (turn, later)) :
    later.IsAhead where
  sorted := sorted_of_next? isAhead.sorted next
  ahead := by
    cases isAhead.passed next with
    | ready ready_eq now_eq timers_eq =>
      rw [now_eq, timers_eq]
      exact isAhead.ahead
    | due due idle passes timers_eq ready_eq instant_eq ahead => exact ahead

theorem IsAhead.soon (isAhead : schedule.IsAhead) (turn : Turn) : (schedule.soon turn).IsAhead :=
  ⟨isAhead.sorted, isAhead.ahead⟩

theorem IsAhead.cancel [DecidableEq Turn] (isAhead : schedule.IsAhead) (turn : Turn) :
    (schedule.cancel turn).IsAhead :=
  ⟨isAhead.sorted.cancel turn, fun timer known => isAhead.ahead timer (List.mem_filter.mp known).1⟩

/-- Without rounding, a timer for later lies ahead. -/
theorem IsAhead.after
    {seconds : Rat}
    (isAhead : schedule.IsAhead)
    (exact_eq : schedule.precision = .exact)
    (positive : 0 < seconds)
    (turn : Turn) :
    (schedule.after seconds turn).IsAhead where
  sorted := isAhead.sorted.after seconds turn
  ahead := by
    intro timer known
    rcases List.mem_cons.mp ((insertTimer_perm _ _ _ _).mem_iff.mp known) with rfl | old
    · rw [exact_eq]
      exact lt_add_of_pos_right schedule.now positive
    · exact isAhead.ahead timer old

theorem precision_of_next? (next : schedule.next? = some (turn, later)) :
    later.precision = schedule.precision := by
  have same := congrArg precision (advance_of_next? next)
  have advanced : schedule.advance.precision = schedule.precision := by
    unfold advance
    split <;> rfl
  exact same.symm.trans advanced

/-- A turn comes at an instant only. -/
structure ComesAt (schedule : Schedule Turn) (turn : Turn) (instant : Rat) : Prop where
  ready : turn ∈ schedule.ready → schedule.now = instant
  timer : ∀ timer ∈ schedule.timers, timer.2 = turn → timer.1 = instant

/-- A turn comes at an instant or before. -/
def ComesBy (schedule : Schedule Turn) (turn : Turn) (instant : Rat) : Prop :=
  turn ∈ schedule.ready ∨ ∃ timer ∈ schedule.timers, timer.2 = turn ∧ timer.1 ≤ instant

namespace ComesAt

theorem next?
    (comes : schedule.ComesAt turn instant)
    (isAhead : schedule.IsAhead)
    (next : schedule.next? = some (first, later)) :
    (first = turn → later.now = instant) ∧ later.ComesAt turn instant := by
  cases isAhead.passed next with
  | ready ready_eq now_eq timers_eq =>
    rw [now_eq]
    refine ⟨?_, ?_, ?_⟩
    · rintro rfl
      exact comes.ready (by rw [ready_eq]; exact List.mem_cons_self)
    · intro known
      rw [now_eq]
      exact comes.ready (by rw [ready_eq]; exact List.mem_cons_of_mem _ known)
    · rw [timers_eq]
      exact comes.timer
  | due due idle passes timers_eq ready_eq instant_eq ahead =>
    have now : turn ∈ due.map (·.2) → later.now = instant := by
      intro known
      obtain ⟨timer, held, same⟩ := List.mem_map.mp known
      rw [← instant_eq timer held]
      exact comes.timer timer (by rw [timers_eq]; exact List.mem_append_left _ held) same
    rw [ready_eq] at now
    refine ⟨?_, fun known => now (List.mem_cons_of_mem _ known), fun timer known => ?_⟩
    · rintro rfl
      exact now List.mem_cons_self
    · exact comes.timer timer (by rw [timers_eq]; exact List.mem_append_right _ known)

/-- A turn on the schedule does not come in the past. -/
theorem now_le
    (comes : schedule.ComesAt turn instant)
    (isAhead : schedule.IsAhead)
    (known : turn ∈ schedule.entries) :
    schedule.now ≤ instant := by
  rcases List.mem_append.mp known with ready | timed
  · exact (comes.ready ready).le
  · obtain ⟨timer, waits, same⟩ := List.mem_map.mp timed
    exact (isAhead.ahead timer waits).le.trans (comes.timer timer waits same).le

theorem soon (comes : schedule.ComesAt turn instant) (other : first ≠ turn) :
    (schedule.soon first).ComesAt turn instant where
  ready known := by
    rw [ready_soon, List.mem_append, List.mem_singleton] at known
    exact comes.ready (known.resolve_right other.symm)
  timer := comes.timer

/-- A turn that is not on the schedule comes when its timer is up. -/
theorem of_after
    (unknown : turn ∉ schedule.entries)
    (exact_eq : schedule.precision = .exact)
    (seconds : Rat) :
    (schedule.after seconds turn).ComesAt turn (schedule.now + seconds) where
  ready known := absurd (List.mem_append_left _ known) unknown
  timer timer known same := by
    rcases List.mem_cons.mp ((insertTimer_perm _ _ _ _).mem_iff.mp known) with rfl | old
    · rw [exact_eq]
      rfl
    · exact absurd (List.mem_append_right _ (List.mem_map.mpr ⟨timer, old, same⟩)) unknown

theorem cancel [DecidableEq Turn] (comes : schedule.ComesAt turn instant) (first : Turn) :
    (schedule.cancel first).ComesAt turn instant where
  ready := comes.ready
  timer timer known := comes.timer timer (List.mem_filter.mp known).1

theorem after
    (comes : schedule.ComesAt turn instant)
    (other : first ≠ turn)
    (seconds : Rat) :
    (schedule.after seconds first).ComesAt turn instant where
  ready := comes.ready
  timer timer known same := by
    rcases List.mem_cons.mp ((insertTimer_perm _ _ _ _).mem_iff.mp known) with rfl | old
    · exact absurd same other
    · exact comes.timer timer old same

end ComesAt

namespace ComesBy

theorem of_after (exact_eq : schedule.precision = .exact) (seconds : Rat) (turn : Turn) :
    (schedule.after seconds turn).ComesBy turn (schedule.now + seconds) :=
  .inr ⟨_, (insertTimer_perm _ _ _ _).mem_iff.mpr List.mem_cons_self, rfl, by rw [exact_eq]; rfl⟩

theorem mono
    {deadline : Rat}
    (comes : schedule.ComesBy turn instant)
    (before : instant ≤ deadline) :
    schedule.ComesBy turn deadline := by
  refine comes.imp_right ?_
  rintro ⟨timer, known, same, early⟩
  exact ⟨timer, known, same, early.trans before⟩

theorem next?
    (comes : schedule.ComesBy turn instant)
    (isAhead : schedule.IsAhead)
    (next : schedule.next? = some (first, later))
    (other : first ≠ turn) :
    later.ComesBy turn instant := by
  cases isAhead.passed next with
  | ready ready_eq now_eq timers_eq =>
    rw [ComesBy, ready_eq, List.mem_cons] at comes
    rw [ComesBy, timers_eq]
    exact comes.imp_left fun known => known.resolve_left other.symm
  | due due idle passes timers_eq ready_eq instant_eq ahead =>
    rw [ComesBy, idle] at comes
    obtain ⟨timer, known, same, early⟩ := comes.resolve_left (List.not_mem_nil)
    rw [timers_eq] at known
    rcases List.mem_append.mp known with soon | waits
    · have held : timer.2 ∈ due.map (·.2) := List.mem_map_of_mem soon
      rw [ready_eq, same] at held
      exact .inl ((List.mem_cons.mp held).resolve_left other.symm)
    · exact .inr ⟨timer, waits, same, early⟩

/-- Until a turn has come, time does not pass beyond the instant by which it comes. -/
theorem now_le
    (comes : schedule.ComesBy turn instant)
    (isAhead : schedule.IsAhead)
    (next : schedule.next? = some (first, later))
    (before : schedule.now ≤ instant) :
    later.now ≤ instant := by
  cases isAhead.passed next with
  | ready ready_eq now_eq timers_eq => exact now_eq.trans_le before
  | due due idle passes timers_eq ready_eq instant_eq ahead =>
    rw [ComesBy, idle] at comes
    obtain ⟨timer, known, same, early⟩ := comes.resolve_left (List.not_mem_nil)
    refine le_trans ?_ early
    rw [timers_eq] at known
    rcases List.mem_append.mp known with soon | waits
    · exact (instant_eq timer soon).ge
    · exact (ahead timer waits).le

theorem soon (comes : schedule.ComesBy turn instant) (first : Turn) :
    (schedule.soon first).ComesBy turn instant := by
  rw [ComesBy, ready_soon, List.mem_append]
  exact comes.imp_left .inl

theorem cancel
    [DecidableEq Turn]
    (comes : schedule.ComesBy turn instant)
    (other : turn ≠ first) :
    (schedule.cancel first).ComesBy turn instant := by
  refine comes.imp_right ?_
  rintro ⟨timer, known, same, early⟩
  exact ⟨timer, List.mem_filter.mpr ⟨known, by simpa [same] using other⟩, same, early⟩

theorem after (comes : schedule.ComesBy turn instant) (seconds : Rat) (first : Turn) :
    (schedule.after seconds first).ComesBy turn instant := by
  refine comes.imp_right ?_
  rintro ⟨timer, known, same, early⟩
  exact ⟨timer, (insertTimer_perm _ _ _ _).mem_iff.mpr (List.mem_cons_of_mem _ known), same, early⟩

end ComesBy

/-- How often a turn is on the schedule for an instant before another one. -/
def countBefore [DecidableEq Turn] (schedule : Schedule Turn) (turn : Turn) (instant : Rat) : Nat :=
  (if schedule.now < instant then schedule.ready.count turn else 0) +
    (schedule.timers.filter fun timer => timer.1 < instant).countP fun timer => timer.2 = turn

section

variable [DecidableEq Turn]

/-- Time passes to turns, and takes those that come before an instant from those. -/
theorem countBefore_next?
    (isAhead : schedule.IsAhead)
    (next : schedule.next? = some (first, later)) :
    later.countBefore turn instant + (if first = turn ∧ later.now < instant then 1 else 0) =
      schedule.countBefore turn instant := by
  unfold countBefore
  cases isAhead.passed next with
  | ready ready_eq now_eq timers_eq =>
    rw [ready_eq, now_eq, timers_eq, List.count_cons]
    by_cases early : schedule.now < instant <;> simp [early, Nat.add_right_comm]
  | due due idle passes timers_eq ready_eq instant_eq ahead =>
    have taken : (due.filter fun timer => timer.1 < instant).countP (fun timer => timer.2 = turn) =
        if later.now < instant then (first :: later.ready).count turn else 0 := by
      rw [← ready_eq]
      split
      · next early =>
        rw [List.filter_eq_self.mpr fun timer known => by simp [instant_eq timer known, early],
          List.count, List.countP_map]
        rfl
      · next late =>
        rw [List.filter_eq_nil_iff.mpr fun timer known => by simp [instant_eq timer known, late]]
        rfl
    rw [idle, timers_eq, List.filter_append, List.countP_append, taken, List.count_cons]
    by_cases early : later.now < instant <;> simp [early]
    omega

theorem countBefore_soon (other : first ≠ turn) :
    (schedule.soon first).countBefore turn instant = schedule.countBefore turn instant := by
  simp only [countBefore, ready_soon, List.count_append, List.count_singleton, beq_iff_eq, other,
    if_false, Nat.add_zero]
  rfl

theorem countBefore_cancel_le :
    (schedule.cancel first).countBefore turn instant ≤ schedule.countBefore turn instant :=
  Nat.add_le_add_left (List.filter_sublist.filter _).countP_le _

/-- A timer for another turn, or for an instant that is not before, does not count. -/
theorem countBefore_after
    {seconds : Rat}
    (exact_eq : schedule.precision = .exact)
    (late : first = turn → instant ≤ schedule.now + seconds) :
    (schedule.after seconds first).countBefore turn instant = schedule.countBefore turn instant := by
  have perm := ((insertTimer_perm schedule.precedence (schedule.now + seconds) first
    schedule.timers).filter
    fun timer => timer.1 < instant).countP_eq fun timer => timer.2 = turn
  have none : ¬(first = turn ∧ schedule.now + seconds < instant) :=
    fun early => early.2.not_ge (late early.1)
  unfold countBefore
  rw [after, exact_eq, Precision.round_exact]
  refine congrArg _ (perm.trans ?_)
  rw [List.filter_cons]
  split
  · next early =>
    rw [List.countP_cons, if_neg]
    · rfl
    · simpa using fun same => none ⟨same, of_decide_eq_true early⟩
  · rfl

theorem countBefore_le (schedule : Schedule Turn) (turn : Turn) (instant : Rat) :
    schedule.countBefore turn instant ≤
      schedule.ready.count turn + (schedule.timers.map (·.2)).count turn := by
  refine Nat.add_le_add ?_ ?_
  · split
    · exact le_refl _
    · exact Nat.zero_le _
  · rw [List.count, List.countP_map]
    exact List.filter_sublist.countP_le

end

end Schedule
end MarkupLint
