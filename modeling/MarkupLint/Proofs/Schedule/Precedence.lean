import MarkupLint.Proofs.Schedule.Entries

/-!
# The order of the timers of one instant

The order in which the timers of one instant come matters only where two of them are of different
turns.  So a schedule whose timers are all of one turn, or whose order is exchanged for another one
that compares its turns alike, goes on as before.
-/

namespace MarkupLint

/-- Two orders compare all turns alike. -/
def Precedence.Concurs {Turn : Type} (first second : Precedence Turn) : Prop :=
  ∀ instant turn other,
    first instant turn ≤ first instant other ↔ second instant turn ≤ second instant other

namespace Schedule

variable {Turn : Type}

/-- The schedule with another order of the timers of one instant, for those that are set from now on. -/
def withPrecedence (schedule : Schedule Turn) (precedence : Precedence Turn) : Schedule Turn :=
  { schedule with precedence := precedence }

@[simp] theorem precedence_withPrecedence (schedule : Schedule Turn) (precedence : Precedence Turn) :
    (schedule.withPrecedence precedence).precedence = precedence := rfl

@[simp] theorem withPrecedence_self (schedule : Schedule Turn) :
    schedule.withPrecedence schedule.precedence = schedule := rfl

/-- Which turn is next does not depend on the order of timers that are yet to be set. -/
theorem next?_withPrecedence (schedule : Schedule Turn) (precedence : Precedence Turn) :
    (schedule.withPrecedence precedence).next? =
      schedule.next?.map fun next => (next.1, next.2.withPrecedence precedence) := by
  cases current : schedule.current with
  | cons turn rest => simp [next?, withPrecedence, current]
  | nil =>
    have begun : (schedule.withPrecedence precedence).beginRound =
        schedule.beginRound.withPrecedence precedence := rfl
    have same : (schedule.withPrecedence precedence).current = [] := current
    simp only [next?, current, same, begun]
    cases ready : schedule.beginRound.current <;> simp [withPrecedence, ready]

theorem precedence_of_next?
    {schedule later : Schedule Turn}
    {turn : Turn}
    (next : schedule.next? = some (turn, later)) :
    later.precedence = schedule.precedence := by
  unfold next? at next
  split at next
  · cases next
    rfl
  · simp only at next
    split at next
    · cases next
      rfl
    · contradiction

/-- A timer is inserted at the same place whenever all timers compare with it alike. -/
theorem insertTimer_congr
    {first second : Precedence Turn}
    {instant : Rat}
    {turn : Turn}
    {timers : List (Rat × Turn)}
    (alike : ∀ timer ∈ timers,
      first.Admits timer (instant, turn) ↔ second.Admits timer (instant, turn)) :
    insertTimer first instant turn timers = insertTimer second instant turn timers := by
  induction timers with
  | nil => rfl
  | cons timer rest ih =>
    have later := ih fun other known => alike other (List.mem_cons_of_mem _ known)
    simp only [insertTimer, alike timer List.mem_cons_self, later]

variable {schedule : Schedule Turn} {precedence : Precedence Turn}

/-- A timer is set alike under orders that compare all turns alike. -/
theorem after_withPrecedence
    (concurs : schedule.precedence.Concurs precedence)
    (seconds : Rat)
    (turn : Turn) :
    (schedule.withPrecedence precedence).after seconds turn =
      (schedule.after seconds turn).withPrecedence precedence := by
  simp only [after, withPrecedence]
  congr 1
  refine (insertTimer_congr fun timer _ => ?_).symm
  refine or_congr_right (and_congr_right fun same => ?_)
  rw [same]
  exact concurs _ _ _

/-- A timer is set alike under all orders if the others are of the same turn. -/
theorem after_withPrecedence_of_forall
    {turn : Turn}
    (same : ∀ timer ∈ schedule.timers, timer.2 = turn)
    (seconds : Rat)
    (precedence : Precedence Turn) :
    (schedule.withPrecedence precedence).after seconds turn =
      (schedule.after seconds turn).withPrecedence precedence := by
  simp only [after, withPrecedence]
  congr 1
  refine (insertTimer_congr fun timer known => ?_).symm
  refine or_congr_right (and_congr_right fun instant_eq => ?_)
  rw [instant_eq, same timer known]
  exact iff_of_true (le_refl _) (le_refl _)

end Schedule
end MarkupLint
