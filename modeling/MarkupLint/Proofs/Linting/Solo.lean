import MarkupLint.Proofs.Grouping
import MarkupLint.Proofs.Linting.Orderly
import Mathlib.Data.List.Nodup
import Mathlib.Logic.Relation

/-!
# Members on their own

A member can be run on its own: with a schedule of its own turns only, and the diagnostics that it
delivers.  What a session shows of one of its members is such a solo: the other members and the
caller do not matter to it.
-/

namespace MarkupLint
namespace Linting

/-- A member with the turns that are on the schedule for it and the diagnostics that it has
delivered. -/
structure Solo where
  member : Member
  schedule : Schedule Member.Turn
  diagnostics : List Diagnostic

namespace Solo

/-- Do with a schedule what an effect of a turn of a member demands. -/
def obey (schedule : Schedule Member.Turn) : Member.Effect → Schedule Member.Turn
  | .soon turn => schedule.soon turn
  | .after seconds turn => schedule.after seconds turn
  | .cancel turn => schedule.cancel turn
  | _ => schedule

/-- Take over what the member has done. -/
def follow (solo : Solo) (course : Member.Course) : Solo where
  member := course.member
  schedule := course.effects.foldl obey solo.schedule
  diagnostics := solo.diagnostics ++ Member.delivered course.effects

/-- Take a turn. -/
def take (setting : Setting) (solo : Solo) (turn : Member.Turn) : Solo :=
  solo.follow (solo.member.take setting solo.schedule.now turn)

/-- One turn, unless nothing can ever happen again. -/
def step? (setting : Setting) (solo : Solo) : Option Solo :=
  solo.schedule.next?.map fun next => { solo with schedule := next.2 }.take setting next.1

/-- A solo becomes another one, turn by turn. -/
abbrev Reaches (setting : Setting) : Solo → Solo → Prop :=
  Relation.ReflTransGen fun solo next => solo.step? setting = some next

end Solo

/-- The turn of the member with an index that a turn of a session is. -/
def SessionTurn.own? (index : Nat) (turn : SessionTurn) : Option Member.Turn :=
  turn.member?.bind fun own => if own.1 = index then some own.2 else none

/-- What effects demand of the schedule of the member with an index. -/
def ownEffects (index : Nat) (effects : List Effect) : List Member.Effect :=
  effects.filterMap fun effect =>
    effect.member?.bind fun own => if own.1 = index then some own.2 else none

theorem ownEffects_eq_nil
    {effects : List Effect}
    (foreign : effects.filterMap Effect.member? = [])
    (index : Nat) :
    ownEffects index effects = [] := by
  rw [List.filterMap_eq_nil_iff] at foreign
  apply List.filterMap_eq_nil_iff.mpr
  intro effect known
  rw [foreign effect known]
  rfl

theorem ownEffects_append (index : Nat) (first second : List Effect) :
    ownEffects index (first ++ second) = ownEffects index first ++ ownEffects index second :=
  List.filterMap_append

/-- Of what a linting takes over from a member, only that member's schedule is concerned. -/
theorem ownEffects_follow
    (progress : Progress)
    (index other : Nat)
    (course : Member.Course) :
    ownEffects other (progress.follow index course).effects =
      ownEffects other progress.effects ++
        if index = other then course.effects.filter Member.Effect.isTurn else [] := by
  obtain ⟨extra, extra_eq, turns, -⟩ := Progress.exists_effects_follow progress index course
  have split : ownEffects other extra = (extra.filterMap Effect.member?).filterMap
      fun own => if own.1 = other then some own.2 else none := by
    rw [List.filterMap_filterMap]
    rfl
  rw [extra_eq, ownEffects_append, split, turns]
  by_cases same : index = other
  · simp [same, List.filterMap_map]
  · simp [same, List.filterMap_map]

theorem Solo.foldl_obey_filter (schedule : Schedule Member.Turn) (effects : List Member.Effect) :
    (effects.filter Member.Effect.isTurn).foldl obey schedule = effects.foldl obey schedule := by
  induction effects generalizing schedule with
  | nil => rfl
  | cons effect rest ih =>
    cases effect <;> simp [List.filter_cons, Member.Effect.isTurn, obey, ih]

/-- What holds of a schedule still does when effects have been obeyed, if each of them keeps it. -/
theorem Solo.foldl_obey_induction
    {motive : Schedule Member.Turn → Prop}
    {schedule : Schedule Member.Turn}
    {effects : List Member.Effect}
    (keeps : ∀ effect ∈ effects, ∀ schedule, motive schedule → motive (obey schedule effect))
    (holds : motive schedule) :
    motive (effects.foldl obey schedule) := by
  induction effects generalizing schedule with
  | nil => exact holds
  | cons effect rest ih =>
    exact ih (fun other known => keeps other (List.mem_cons_of_mem _ known))
      (keeps effect List.mem_cons_self schedule holds)

theorem Solo.now_foldl_obey (schedule : Schedule Member.Turn) (effects : List Member.Effect) :
    (effects.foldl obey schedule).now = schedule.now :=
  @foldl_obey_induction (·.now = schedule.now) schedule effects
    (fun effect _ _ same => by cases effect <;> exact same) rfl

theorem Solo.precedence_foldl_obey
    (schedule : Schedule Member.Turn)
    (effects : List Member.Effect) :
    (effects.foldl obey schedule).precedence = schedule.precedence :=
  @foldl_obey_induction (·.precedence = schedule.precedence) schedule effects
    (fun effect _ _ same => by cases effect <;> exact same) rfl

theorem Solo.precision_foldl_obey (schedule : Schedule Member.Turn) (effects : List Member.Effect) :
    (effects.foldl obey schedule).precision = schedule.precision :=
  @foldl_obey_induction (·.precision = schedule.precision) schedule effects
    (fun effect _ _ same => by cases effect <;> exact same) rfl

namespace Session

theorem own?_eq_some_iff (index : Nat) (turn : SessionTurn) (own : Member.Turn) :
    turn.own? index = some own ↔ turn = .linting (.member index own) := by
  cases turn with
  | linting turn =>
    cases turn with
    | run => simp [SessionTurn.own?, SessionTurn.member?]
    | member other turn =>
      by_cases same : other = index <;> simp [SessionTurn.own?, SessionTurn.member?, same]
  | _ => simp [SessionTurn.own?, SessionTurn.member?]

/-- The turns of the member with an index. -/
def ownPart (index : Nat) : Schedule.Part SessionTurn Member.Turn where
  own? := SessionTurn.own? index
  turn := fun own => .linting (.member index own)
  known_iff := own?_eq_some_iff index

/-- The turns of the member with an index that are on the schedule of a session. -/
def ownSchedule (session : Session) (index : Nat) : Schedule Member.Turn :=
  session.schedule.project (ownPart index)

theorem ownSchedule_absorb
    {session : Session}
    (sorted : session.schedule.Sorted)
    (index : Nat)
    (effect : Effect) :
    ownSchedule (session.absorb effect) index =
      (ownEffects index [effect]).foldl Solo.obey (session.ownSchedule index) := by
  have known : ∀ own, (SessionTurn.linting (.member index own)).own? index = some own :=
    fun own => (own?_eq_some_iff index _ own).mpr rfl
  have unknown : ∀ other own, other ≠ index →
      (SessionTurn.linting (.member other own)).own? index = none := by
    intro other own different
    simp [SessionTurn.own?, SessionTurn.member?, different]
  have mine : ∀ (effect : Effect) (own : Member.Effect), effect.member? = some (index, own) →
      ownEffects index [effect] = [own] := by
    intro effect own concerned
    simp [ownEffects, concerned]
  have others : ∀ (effect : Effect) (other : Nat) (own : Member.Effect),
      effect.member? = some (other, own) → other ≠ index → ownEffects index [effect] = [] := by
    intro effect other own concerned different
    simp [ownEffects, concerned, different]
  cases effect with
  | soon turn =>
    cases turn with
    | run => exact Schedule.project_soon_of_unknown rfl
    | member other own =>
      by_cases same : other = index
      · subst same
        rw [mine _ (.soon own) rfl]
        exact Schedule.project_soon_of_known (known own)
      · rw [others _ other (.soon own) rfl same]
        exact Schedule.project_soon_of_unknown (unknown other own same)
  | after seconds turn =>
    cases turn with
    | run => exact Schedule.project_after_of_unknown rfl seconds
    | member other own =>
      by_cases same : other = index
      · subst same
        rw [mine _ (.after seconds own) rfl]
        exact Schedule.project_after_of_known sorted (known own) seconds
      · rw [others _ other (.after seconds own) rfl same]
        exact Schedule.project_after_of_unknown (unknown other own same) seconds
  | cancel turn =>
    cases turn with
    | run => exact Schedule.project_cancel_of_unknown rfl
    | member other own =>
      by_cases same : other = index
      · subst same
        rw [mine _ (.cancel own) rfl]
        exact Schedule.project_cancel_of_known (known own)
      · rw [others _ other (.cancel own) rfl same]
        exact Schedule.project_cancel_of_unknown (unknown other own same)
  | ended =>
    simp only [absorb]
    split
    · exact Schedule.project_soon_of_unknown rfl
    · rfl
  | _ => rfl

/-- Effects do with the turns of a member what they demand. -/
theorem ownSchedule_foldl_absorb
    {session : Session}
    (sorted : session.schedule.Sorted)
    (index : Nat)
    (effects : List Effect) :
    ownSchedule (effects.foldl absorb session) index =
      (ownEffects index effects).foldl Solo.obey (session.ownSchedule index) := by
  induction effects generalizing session with
  | nil => rfl
  | cons effect rest ih =>
    have joined : ownEffects index (effect :: rest) =
        ownEffects index [effect] ++ ownEffects index rest :=
      ownEffects_append index [effect] rest
    have still : (session.absorb effect).schedule.Sorted := sorted_foldl_absorb sorted [effect]
    rw [List.foldl_cons, ih still, ownSchedule_absorb sorted, joined, List.foldl_append]

end Session

/-- What a member delivers is attributed to it, and to nobody else. -/
theorem attributed_of_followed
    {before after : Linting}
    {index : Nat}
    {member : Member}
    {course : Member.Course}
    (balanced : Balanced before)
    (known : before.members[index]? = some member)
    (conduct : member.Conduct course)
    (followed : Progress.Followed before after index course)
    (key : String × Int) :
    after.diagnostics.attributed key = before.diagnostics.attributed key ++
      if member.key = key then Member.delivered course.effects else [] := by
  rw [followed.diagnostics_eq]
  cases frozen : before.diagnostics.isFrozen
  · refine Collection.attributed_foldl_accept frozen (fun diagnostic delivered => ?_) key
    obtain ⟨rule_eq, index_eq⟩ := conduct.attributed diagnostic (Member.mem_delivered.mp delivered)
    rw [Diagnostic.key, Member.key, rule_eq, index_eq]
  · have finished := balanced.isFinished_of_isClosed (balanced.isFrozen_eq.symm.trans frozen) member
      (List.mem_of_getElem? known)
    simp [conduct.delivered_eq_nil finished]

end Linting
end MarkupLint
