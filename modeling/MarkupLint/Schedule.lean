import MarkupLint.Number.Binary64

/-!
# Schedules

A schedule says which turn is next and what time it is.  Turns are taken in rounds: the turns that
are ready when a round begins are taken in the order in which they became ready, and turns that
become ready meanwhile wait for the next round.  Turns take no time.  A timer makes a turn ready at
an instant; only when no turn is ready does the time move on, to the earliest timer.  Which of the
timers of one instant comes first is left open: each schedule has an order of its own for them.
-/

namespace MarkupLint

/-- How instants are computed. -/
inductive Precision where
  | exact
  /-- Every sum and difference is rounded to a binary number of 64 bits. -/
  | binary64
deriving DecidableEq, Repr, Inhabited

namespace Precision

/-- The instant that stands for a computed one. -/
def round (precision : Precision) (value : Rat) : Rat :=
  match precision with
  | exact => value
  | binary64 => Binary64.roundRat value

@[simp] theorem round_exact (value : Rat) : exact.round value = value := rfl

end Precision

/-- Which timers of one instant come first: those of the turns with the lower numbers, and of turns
with the same number the one that was set first. -/
def Precedence (Turn : Type) : Type := Rat → Turn → Nat

namespace Precedence

variable {Turn : Type}

/-- The timers of one instant come in the order in which they were set. -/
def creation : Precedence Turn := fun _ _ => 0

/-- A timer does not come behind another one that is set later. -/
def Admits (precedence : Precedence Turn) (first second : Rat × Turn) : Prop :=
  first.1 < second.1 ∨
    first.1 = second.1 ∧ precedence first.1 first.2 ≤ precedence second.1 second.2

instance (precedence : Precedence Turn) (first second : Rat × Turn) :
    Decidable (precedence.Admits first second) :=
  inferInstanceAs (Decidable (_ ∨ _))

end Precedence

/-- The turns that are ready, the timers, and the time. -/
structure Schedule (Turn : Type) where
  precision : Precision
  precedence : Precedence Turn
  now : Rat
  /-- The turns of this round that have not been taken. -/
  current : List Turn
  /-- The turns of the next round. -/
  upcoming : List Turn
  /-- The timers, the earliest first and those of one instant in the order of precedence. -/
  timers : List (Rat × Turn)

namespace Schedule

variable {Turn : Type}

/-- Nothing to do at the beginning of time. -/
def empty (precision : Precision) (precedence : Precedence Turn) : Schedule Turn :=
  ⟨precision, precedence, 0, [], [], []⟩

/-- Make a turn ready. -/
def soon (schedule : Schedule Turn) (turn : Turn) : Schedule Turn :=
  { schedule with upcoming := schedule.upcoming ++ [turn] }

/-- Put a timer behind those that do not come behind it. -/
def insertTimer (precedence : Precedence Turn) (instant : Rat) (turn : Turn) :
    List (Rat × Turn) → List (Rat × Turn)
  | [] => [(instant, turn)]
  | timer :: rest =>
    if precedence.Admits timer (instant, turn) then
      timer :: insertTimer precedence instant turn rest
    else (instant, turn) :: timer :: rest

/-- Make a turn ready after some seconds. -/
def after (schedule : Schedule Turn) (seconds : Rat) (turn : Turn) : Schedule Turn :=
  let instant := schedule.precision.round (schedule.now + seconds)
  { schedule with timers := insertTimer schedule.precedence instant turn schedule.timers }

/-- Remove the timers of a turn. -/
def cancel [DecidableEq Turn] (schedule : Schedule Turn) (turn : Turn) : Schedule Turn :=
  { schedule with timers := schedule.timers.filter fun timer => timer.2 ≠ turn }

/-- Begin a round: let time move on if no turn is ready, and make the turns of the timers ready
whose instant has come. -/
def beginRound (schedule : Schedule Turn) : Schedule Turn :=
  let now :=
    match schedule.upcoming, schedule.timers with
    | [], (instant, _) :: _ => if schedule.now ≤ instant then instant else schedule.now
    | _, _ => schedule.now
  let isDue := fun timer : Rat × Turn => timer.1 ≤ now
  { schedule with
    now := now
    current := schedule.upcoming ++ (schedule.timers.takeWhile (isDue ·)).map (·.2)
    upcoming := []
    timers := schedule.timers.dropWhile (isDue ·) }

/-- The next turn and the schedule without it, unless nothing can ever happen again. -/
def next? (schedule : Schedule Turn) : Option (Turn × Schedule Turn) :=
  match schedule.current with
  | turn :: rest => some (turn, { schedule with current := rest })
  | [] =>
    let begun := schedule.beginRound
    match begun.current with
    | turn :: rest => some (turn, { begun with current := rest })
    | [] => none

instance : Inhabited (Schedule Turn) := ⟨.empty .exact .creation⟩

@[simp] theorem next?_empty (precision : Precision) (precedence : Precedence Turn) :
    (empty precision precedence).next? = none := rfl

end Schedule
end MarkupLint
