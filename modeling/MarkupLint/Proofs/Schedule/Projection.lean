import MarkupLint.Proofs.Schedule.Entries

/-!
# The part of a schedule that concerns some turns

A schedule may be looked at by someone who knows some of its turns only.  What the others do is not
seen there: taking, adding or cancelling their turns leaves the turns that are known, and the
instants at which they are taken, as they are.
-/

namespace MarkupLint
namespace Schedule

variable {Turn Own : Type}

/-- Some turns, seen as turns of one's own. -/
structure Part (Turn Own : Type) where
  own? : Turn → Option Own
  turn : Own → Turn
  known_iff : ∀ other own, own? other = some own ↔ other = turn own

/-- How the turns that are known precede one another. -/
def Part.precedence (part : Part Turn Own) (precedence : Precedence Turn) : Precedence Own :=
  fun instant own => precedence instant (part.turn own)

/-- The part of a schedule that concerns the turns that are known. -/
def project (part : Part Turn Own) (schedule : Schedule Turn) : Schedule Own where
  precision := schedule.precision
  precedence := part.precedence schedule.precedence
  now := schedule.now
  current := schedule.current.filterMap part.own?
  upcoming := schedule.upcoming.filterMap part.own?
  timers := schedule.timers.filterMap fun timer => (part.own? timer.2).map (timer.1, ·)

/-- The timers are in the order of their instants, and those of one instant in the order of
precedence. -/
def Sorted (schedule : Schedule Turn) : Prop :=
  schedule.timers.Pairwise schedule.precedence.Admits

/-- The schedule once a round has begun. -/
def advance (schedule : Schedule Turn) : Schedule Turn :=
  match schedule.current with
  | [] => schedule.beginRound
  | _ :: _ => schedule

/-- Two schedules have the same turns taken at the same instants, and as long as there are turns to
take, they differ only until the next round begins. -/
def Alike (first second : Schedule Turn) : Prop :=
  first.advance = second.advance ∨ first.entries = [] ∧ second.entries = []

/-- The instant at which the next round begins. -/
def roundInstant (schedule : Schedule Turn) : Rat :=
  match schedule.upcoming, schedule.timers with
  | [], (instant, _) :: _ => max schedule.now instant
  | _, _ => schedule.now

namespace Sorted

variable {schedule : Schedule Turn}

theorem instants (sorted : schedule.Sorted) :
    schedule.timers.Pairwise fun first second => first.1 ≤ second.1 :=
  sorted.imp Precedence.Admits.instant_le

theorem soon (sorted : schedule.Sorted) (turn : Turn) : (schedule.soon turn).Sorted := sorted

theorem after (sorted : schedule.Sorted) (seconds : Rat) (turn : Turn) :
    (schedule.after seconds turn).Sorted :=
  (inserts_insertTimer schedule.precedence).pairwise (_, turn) sorted

theorem cancel [DecidableEq Turn] (sorted : schedule.Sorted) (turn : Turn) :
    (schedule.cancel turn).Sorted :=
  sorted.filter _

theorem advance (sorted : schedule.Sorted) : schedule.advance.Sorted := by
  unfold Schedule.advance
  split
  · exact sorted.sublist (List.dropWhile_sublist _)
  · exact sorted

end Sorted

/-- Of timers in order, those that are due come first. -/
theorem takeWhile_due
    {timers : List (Rat × Turn)}
    (sorted : timers.Pairwise fun first second => first.1 ≤ second.1)
    (now : Rat) :
    timers.takeWhile (fun timer => timer.1 ≤ now) = timers.filter (fun timer => timer.1 ≤ now) ∧
      timers.dropWhile (fun timer => timer.1 ≤ now) =
        timers.filter (fun timer => !decide (timer.1 ≤ now)) := by
  induction timers with
  | nil => simp
  | cons timer rest ih =>
    rw [List.pairwise_cons] at sorted
    obtain ⟨due, later⟩ := ih sorted.2
    by_cases early : timer.1 ≤ now
    · simp [early, due, later]
    · have none : ∀ other ∈ rest, ¬other.1 ≤ now := by
        intro other known due
        exact early ((sorted.1 other known).trans due)
      have all : rest.filter (fun timer => !decide (timer.1 ≤ now)) = rest := by
        apply List.filter_eq_self.mpr
        intro other known
        simpa using none other known
      have nil : rest.filter (fun timer => decide (timer.1 ≤ now)) = [] := by
        apply List.filter_eq_nil_iff.mpr
        intro other known
        simpa using none other known
      simp [early, all, nil]

theorem beginRound_eq {schedule : Schedule Turn} (sorted : schedule.Sorted) :
    schedule.beginRound =
      { precision := schedule.precision
        precedence := schedule.precedence
        now := schedule.roundInstant
        current := schedule.upcoming ++
          (schedule.timers.filter fun timer => timer.1 ≤ schedule.roundInstant).map (·.2)
        upcoming := []
        timers := schedule.timers.filter fun timer => !decide (timer.1 ≤ schedule.roundInstant) } := by
  obtain ⟨due, later⟩ := takeWhile_due sorted.instants schedule.roundInstant
  rw [← due, ← later]
  rfl

/-- What the beginning of a round depends on. -/
theorem beginRound_congr
    {first second : Schedule Turn}
    (precision_eq : first.precision = second.precision)
    (precedence_eq : first.precedence = second.precedence)
    (instant_eq : first.roundInstant = second.roundInstant)
    (upcoming_eq : first.upcoming = second.upcoming)
    (timers_eq : first.timers = second.timers) :
    first.beginRound = second.beginRound := by
  have unfolded : ∀ schedule : Schedule Turn, schedule.beginRound =
      { precision := schedule.precision
        precedence := schedule.precedence
        now := schedule.roundInstant
        current := schedule.upcoming ++
          (schedule.timers.takeWhile fun timer => timer.1 ≤ schedule.roundInstant).map (·.2)
        upcoming := []
        timers := schedule.timers.dropWhile fun timer => timer.1 ≤ schedule.roundInstant } :=
    fun _ => rfl
  rw [unfolded, unfolded, precision_eq, precedence_eq, instant_eq, upcoming_eq, timers_eq]

theorem now_le_roundInstant (schedule : Schedule Turn) : schedule.now ≤ schedule.roundInstant := by
  unfold roundInstant
  split
  · exact le_max_left _ _
  · exact le_refl _

theorem roundInstant_le
    {schedule : Schedule Turn}
    {timer : Rat × Turn}
    (sorted : schedule.Sorted)
    (known : timer ∈ schedule.timers) :
    schedule.roundInstant ≤ max schedule.now timer.1 := by
  unfold roundInstant
  split
  · next earliest turn rest _ timers =>
    have ordered := sorted.instants
    rw [timers] at known ordered
    rcases List.mem_cons.mp known with rfl | later
    · exact le_refl _
    · exact max_le_max (le_refl _) ((List.pairwise_cons.mp ordered).1 timer later)
  · exact le_max_left _ _

theorem next?_eq_advance (schedule : Schedule Turn) :
    schedule.next? =
      match schedule.advance.current with
      | [] => none
      | turn :: rest => some (turn, { schedule.advance with current := rest }) := by
  simp only [next?, advance]
  cases current : schedule.current with
  | nil => cases begun : schedule.beginRound.current <;> rfl
  | cons turn rest => simp [current]

theorem advance_of_next?
    {schedule later : Schedule Turn}
    {turn : Turn}
    (next : schedule.next? = some (turn, later)) :
    schedule.advance = { later with current := turn :: later.current } := by
  rw [next?_eq_advance] at next
  split at next
  · contradiction
  · next first rest current =>
    cases next
    rw [← current]

theorem now_le_advance (schedule : Schedule Turn) : schedule.now ≤ schedule.advance.now := by
  unfold advance
  split
  · exact schedule.now_le_roundInstant
  · exact le_refl _

theorem now_le_of_next?
    {schedule later : Schedule Turn}
    {turn : Turn}
    (next : schedule.next? = some (turn, later)) :
    schedule.now ≤ later.now :=
  schedule.now_le_advance.trans (congrArg now (advance_of_next? next)).le

theorem entries_advance (schedule : Schedule Turn) :
    schedule.advance.entries.Perm schedule.entries := by
  unfold advance
  split
  · next spent => exact entries_beginRound spent
  · exact .refl _

namespace Alike

variable {first second third : Schedule Turn}

theorem refl (schedule : Schedule Turn) : Alike schedule schedule := .inl rfl

theorem entries_eq_nil
    (alike : Alike first second)
    (spent : first.entries = []) :
    second.entries = [] := by
  rcases alike with same | ⟨-, empty⟩
  · have moved := (entries_advance first).symm.trans ((List.Perm.of_eq (congrArg entries same)).trans
      (entries_advance second))
    rw [spent] at moved
    exact moved.nil_eq.symm
  · exact empty

theorem trans (begun : Alike first second) (ended : Alike second third) : Alike first third := by
  rcases begun with same | ⟨spent, empty⟩
  · rcases ended with later | ⟨empty, spent⟩
    · exact .inl (same.trans later)
    · exact .inr ⟨entries_eq_nil (.inl same.symm) empty, spent⟩
  · exact .inr ⟨spent, ended.entries_eq_nil empty⟩

end Alike

section

variable {part : Part Turn Own} {schedule : Schedule Turn}

theorem entries_project : (schedule.project part).entries = schedule.entries.filterMap part.own? := by
  simp only [entries, project, List.filterMap_append, List.filterMap_map, List.map_filterMap]
  congr 2
  funext timer
  cases known : part.own? timer.2 <;> simp [known]

/-- Timers that are known come in the same order, whoever looks at them. -/
theorem admits_project
    {first second : Rat × Turn}
    {one other : Own}
    (known : part.own? first.2 = some one)
    (otherKnown : part.own? second.2 = some other) :
    (schedule.project part).precedence.Admits (first.1, one) (second.1, other) ↔
      schedule.precedence.Admits first second := by
  obtain ⟨instant, turn⟩ := first
  obtain ⟨otherInstant, otherTurn⟩ := second
  obtain rfl := (part.known_iff turn one).mp known
  obtain rfl := (part.known_iff otherTurn other).mp otherKnown
  exact Iff.rfl

theorem sorted_project (sorted : schedule.Sorted) : (schedule.project part).Sorted := by
  refine List.Pairwise.filterMap _ (fun first second ordered one oneEq other otherEq => ?_) sorted
  obtain ⟨turn, known, rfl⟩ := Option.map_eq_some_iff.mp oneEq
  obtain ⟨turn, otherKnown, rfl⟩ := Option.map_eq_some_iff.mp otherEq
  exact (admits_project known otherKnown).mpr ordered

/-- What is seen of timers that satisfy a condition on their instants. -/
theorem filterMap_filter_timers (timers : List (Rat × Turn)) (isDue : Rat → Bool) :
    (timers.filter fun timer => isDue timer.1).filterMap
        (fun timer => (part.own? timer.2).map (timer.1, ·)) =
      (timers.filterMap fun timer => (part.own? timer.2).map (timer.1, ·)).filter
        fun timer => isDue timer.1 := by
  induction timers with
  | nil => rfl
  | cons timer rest ih =>
    cases due : isDue timer.1 <;> cases known : part.own? timer.2 <;> simp [due, known, ih]

theorem filterMap_map_timers (timers : List (Rat × Turn)) :
    (timers.map (·.2)).filterMap part.own? =
      (timers.filterMap fun timer => (part.own? timer.2).map (timer.1, ·)).map (·.2) := by
  induction timers with
  | nil => rfl
  | cons timer rest ih => cases known : part.own? timer.2 <;> simp [known, ih]

/-- What is seen of the beginning of a round. -/
theorem project_beginRound (sorted : schedule.Sorted) :
    schedule.beginRound.project part =
      { precision := schedule.precision
        precedence := (schedule.project part).precedence
        now := schedule.roundInstant
        current := (schedule.project part).upcoming ++
          ((schedule.project part).timers.filter fun timer =>
            timer.1 ≤ schedule.roundInstant).map (·.2)
        upcoming := []
        timers := (schedule.project part).timers.filter fun timer =>
          !decide (timer.1 ≤ schedule.roundInstant) } := by
  have due := @filterMap_filter_timers Turn Own part schedule.timers
    fun instant => instant ≤ schedule.roundInstant
  have later := @filterMap_filter_timers Turn Own part schedule.timers
    fun instant => !decide (instant ≤ schedule.roundInstant)
  rw [beginRound_eq sorted]
  simp only [project, List.filterMap_append, filterMap_map_timers, due, later, List.filterMap_nil]

/-- A round in which a known turn is ready begins at the instant that is foreseen. -/
theorem roundInstant_project
    (sorted : schedule.Sorted)
    (ready : (schedule.beginRound.project part).current ≠ []) :
    (schedule.project part).roundInstant = schedule.roundInstant := by
  rw [project_beginRound sorted] at ready
  cases own : (schedule.project part).upcoming with
  | cons turn rest =>
    have busy : schedule.upcoming ≠ [] := by
      rintro idle
      simp [project, idle] at own
    cases upcoming : schedule.upcoming with
    | nil => exact absurd upcoming busy
    | cons first others =>
      simp only [roundInstant, own, upcoming]
      rfl
  | nil =>
    cases timers : (schedule.project part).timers with
    | nil =>
      rw [own, timers] at ready
      exact absurd rfl ready
    | cons timer rest =>
      have ordered := (@sorted_project Turn Own part schedule sorted).instants
      rw [timers, List.pairwise_cons] at ordered
      have early : timer.1 ≤ schedule.roundInstant := by
        rw [own, timers, List.nil_append, Ne, List.map_eq_nil_iff] at ready
        obtain ⟨other, found⟩ := List.exists_mem_of_ne_nil _ ready
        obtain ⟨known, due⟩ := List.mem_filter.mp found
        rw [decide_eq_true_eq] at due
        rcases List.mem_cons.mp known with rfl | later
        · exact due
        · exact (ordered.1 other later).trans due
      have seen : timer ∈ (schedule.project part).timers := by
        rw [timers]
        exact List.mem_cons_self
      obtain ⟨origin, known, same⟩ := List.mem_filterMap.mp seen
      obtain ⟨turn, -, rfl⟩ := Option.map_eq_some_iff.mp same
      have instant : (schedule.project part).roundInstant = max schedule.now origin.1 := by
        simp only [roundInstant, own, timers]
        rfl
      rw [instant]
      exact le_antisymm (max_le (now_le_roundInstant schedule) early) (roundInstant_le sorted known)

/-- The beginning of a round changes nothing that is seen of the turns that are taken. -/
theorem alike_beginRound
    (sorted : schedule.Sorted)
    (spent : schedule.current = []) :
    Alike (schedule.beginRound.project part) (schedule.project part) := by
  have idle : (schedule.project part).current = [] := by simp [project, spent]
  have foreseen : (schedule.project part).advance = (schedule.project part).beginRound := by
    simp [advance, idle]
  by_cases ready : (schedule.beginRound.project part).current = []
  · rw [project_beginRound sorted] at ready ⊢
    obtain ⟨upcoming, due⟩ := List.append_eq_nil_iff.mp ready
    rw [List.map_eq_nil_iff, List.filter_eq_nil_iff] at due
    have all : ((schedule.project part).timers.filter fun timer =>
        !decide (timer.1 ≤ schedule.roundInstant)) = (schedule.project part).timers :=
      List.filter_eq_self.mpr fun timer known => by simpa using due timer known
    rw [upcoming, List.filter_eq_nil_iff.mpr due, all]
    cases timers : (schedule.project part).timers with
    | nil => exact .inr ⟨rfl, by simp [entries, idle, upcoming, timers]⟩
    | cons timer rest =>
      have late : schedule.roundInstant ≤ timer.1 := by
        have waits := due timer (by simp [timers])
        rw [decide_eq_true_eq] at waits
        exact le_of_lt (not_le.mp waits)
      have later : schedule.now ≤ timer.1 := (now_le_roundInstant schedule).trans late
      have foreseenInstant : (schedule.project part).roundInstant = timer.1 := by
        simp only [roundInstant, upcoming, timers]
        exact max_eq_right later
      refine .inl ?_
      rw [foreseen]
      refine beginRound_congr rfl rfl ?_ upcoming.symm timers.symm
      rw [foreseenInstant]
      exact max_eq_right late
  · refine .inl ?_
    have begun : (schedule.beginRound.project part).advance =
        schedule.beginRound.project part := by
      unfold advance
      split
      · next none => exact absurd none ready
      · rfl
    rw [begun, foreseen, project_beginRound sorted, beginRound_eq (sorted_project sorted),
      roundInstant_project sorted ready]
    rfl

theorem alike_advance (sorted : schedule.Sorted) :
    Alike (schedule.advance.project part) (schedule.project part) := by
  unfold advance
  split
  · next spent => exact alike_beginRound sorted spent
  · exact .refl _

/-- A turn that is known is taken by both, who see the same schedule from then on. -/
theorem next?_of_alike
    {later : Schedule Turn}
    {other : Schedule Own}
    {turn : Turn}
    {own : Own}
    (sorted : schedule.Sorted)
    (alike : Alike (schedule.project part) other)
    (next : schedule.next? = some (turn, later))
    (known : part.own? turn = some own) :
    other.next? = some (own, later.project part) := by
  have advanced := advance_of_next? next
  have seen : (schedule.advance.project part).current = own :: (later.project part).current := by
    rw [advanced]
    simp [project, known]
  have whole : (schedule.advance.project part).advance = schedule.advance.project part := by
    rw [Schedule.advance, seen]
  rcases (alike_advance sorted).trans alike with same | ⟨spent, -⟩
  · rw [whole] at same
    rw [next?_eq_advance, ← same, seen, advanced]
    rfl
  · simp [entries, seen] at spent

/-- A turn that is not known is not seen. -/
theorem alike_of_next?
    {later : Schedule Turn}
    {other : Schedule Own}
    {turn : Turn}
    (sorted : schedule.Sorted)
    (alike : Alike (schedule.project part) other)
    (next : schedule.next? = some (turn, later))
    (unknown : part.own? turn = none) :
    Alike (later.project part) other := by
  have same : schedule.advance.project part = later.project part := by
    rw [advance_of_next? next]
    simp [project, unknown]
  rw [← same]
  exact (alike_advance sorted).trans alike

theorem sorted_of_next?
    {later : Schedule Turn}
    {turn : Turn}
    (sorted : schedule.Sorted)
    (next : schedule.next? = some (turn, later)) :
    later.Sorted := by
  have advanced := sorted.advance
  rw [advance_of_next? next] at advanced
  exact advanced

theorem project_soon_of_known {turn : Turn} {own : Own} (known : part.own? turn = some own) :
    (schedule.soon turn).project part = (schedule.project part).soon own := by
  simp [project, soon, known]

theorem project_soon_of_unknown {turn : Turn} (unknown : part.own? turn = none) :
    (schedule.soon turn).project part = schedule.project part := by
  simp [project, soon, unknown]

theorem filterMap_insertTimer_of_unknown
    {turn : Turn}
    (unknown : part.own? turn = none)
    (precedence : Precedence Turn)
    (instant : Rat)
    (timers : List (Rat × Turn)) :
    (insertTimer precedence instant turn timers).filterMap
        (fun timer => (part.own? timer.2).map (timer.1, ·)) =
      timers.filterMap fun timer => (part.own? timer.2).map (timer.1, ·) := by
  induction timers with
  | nil => simp [insertTimer, unknown]
  | cons timer rest ih =>
    simp only [insertTimer]
    split
    · rw [List.filterMap_cons, List.filterMap_cons, ih]
    · rw [List.filterMap_cons, unknown]
      rfl

theorem insertTimer_of_forall_late
    {precedence : Precedence Turn}
    {timers : List (Rat × Turn)}
    {instant : Rat}
    {turn : Turn}
    (late : ∀ timer ∈ timers, ¬precedence.Admits timer (instant, turn)) :
    insertTimer precedence instant turn timers = (instant, turn) :: timers := by
  cases timers with
  | nil => rfl
  | cons timer rest => rw [insertTimer, if_neg (late timer List.mem_cons_self)]

/-- Among timers in order, a new one takes the same place, whoever else is seen. -/
theorem filterMap_insertTimer_of_known
    {turn : Turn}
    {own : Own}
    {timers : List (Rat × Turn)}
    (known : part.own? turn = some own)
    (sorted : timers.Pairwise schedule.precedence.Admits)
    (instant : Rat) :
    (insertTimer schedule.precedence instant turn timers).filterMap
        (fun timer => (part.own? timer.2).map (timer.1, ·)) =
      insertTimer (schedule.project part).precedence instant own
        (timers.filterMap fun timer => (part.own? timer.2).map (timer.1, ·)) := by
  induction timers with
  | nil => simp [insertTimer, known]
  | cons timer rest ih =>
    rw [List.pairwise_cons] at sorted
    have later := ih sorted.2
    by_cases early : schedule.precedence.Admits timer (instant, turn)
    · simp only [insertTimer, if_pos early, List.filterMap_cons]
      cases seen : part.own? timer.2 with
      | none => simpa [seen] using later
      | some other =>
        have still := (@admits_project _ _ _ schedule timer (instant, turn) _ _ seen known).mpr early
        simpa [insertTimer, still] using later
    · have late : ∀ other ∈ (timer :: rest).filterMap
          (fun timer => (part.own? timer.2).map (timer.1, ·)),
          ¬(schedule.project part).precedence.Admits other (instant, own) := by
        intro other seen due
        obtain ⟨origin, held, same⟩ := List.mem_filterMap.mp seen
        obtain ⟨seenOwn, ownKnown, rfl⟩ := Option.map_eq_some_iff.mp same
        have admitted :=
          (@admits_project _ _ _ schedule origin (instant, turn) _ _ ownKnown known).mp due
        rcases List.mem_cons.mp held with rfl | held
        · exact early admitted
        · exact early ((sorted.1 origin held).trans admitted)
      rw [insertTimer_of_forall_late late, insertTimer, if_neg early, List.filterMap_cons, known]
      rfl

theorem project_after_of_unknown {turn : Turn} (unknown : part.own? turn = none) (seconds : Rat) :
    (schedule.after seconds turn).project part = schedule.project part := by
  simp only [project, after, filterMap_insertTimer_of_unknown unknown]

theorem project_after_of_known
    {turn : Turn}
    {own : Own}
    (sorted : schedule.Sorted)
    (known : part.own? turn = some own)
    (seconds : Rat) :
    (schedule.after seconds turn).project part = (schedule.project part).after seconds own := by
  simp only [after]
  rw [project, filterMap_insertTimer_of_known known sorted]
  rfl

theorem project_cancel_of_unknown
    [DecidableEq Turn]
    {turn : Turn}
    (unknown : part.own? turn = none) :
    (schedule.cancel turn).project part = schedule.project part := by
  have same : ∀ timers : List (Rat × Turn),
      (timers.filter fun timer => timer.2 ≠ turn).filterMap
          (fun timer => (part.own? timer.2).map (timer.1, ·)) =
        timers.filterMap fun timer => (part.own? timer.2).map (timer.1, ·) := by
    intro timers
    induction timers with
    | nil => rfl
    | cons timer rest ih =>
      by_cases cancelled : timer.2 = turn
      · rw [List.filter_cons_of_neg (by simpa using cancelled), ih, List.filterMap_cons, cancelled,
          unknown]
        rfl
      · rw [List.filter_cons_of_pos (by simpa using cancelled), List.filterMap_cons,
          List.filterMap_cons, ih]
  simp only [project, cancel, same]

theorem project_cancel_of_known
    [DecidableEq Turn]
    [DecidableEq Own]
    {turn : Turn}
    {own : Own}
    (isKnown : part.own? turn = some own) :
    (schedule.cancel turn).project part = (schedule.project part).cancel own := by
  have known : ∀ other, part.own? other = some own ↔ other = turn := by
    obtain rfl := (part.known_iff turn own).mp isKnown
    exact fun other => part.known_iff other own
  have same : ∀ timers : List (Rat × Turn),
      (timers.filter fun timer => timer.2 ≠ turn).filterMap
          (fun timer => (part.own? timer.2).map (timer.1, ·)) =
        (timers.filterMap fun timer => (part.own? timer.2).map (timer.1, ·)).filter
          fun timer => timer.2 ≠ own := by
    intro timers
    induction timers with
    | nil => rfl
    | cons timer rest ih =>
      by_cases cancelled : timer.2 = turn
      · have seen := (known timer.2).mpr cancelled
        rw [List.filter_cons_of_neg (by simpa using cancelled), ih, List.filterMap_cons, seen]
        simp
      · rw [List.filter_cons_of_pos (by simpa using cancelled), List.filterMap_cons,
          List.filterMap_cons, ih]
        cases seen : part.own? timer.2 with
        | none => rfl
        | some other =>
          have different : other ≠ own := by
            rintro rfl
            exact cancelled ((known timer.2).mp seen)
          simp [different]
  simp only [project, cancel, same]

end

end Schedule
end MarkupLint
