import MarkupLint.Proofs.Linting.Lockstep

/-!
# The order in which instances are invoked

What a session does to the instances is an account of acts: each instance is invoked, and the body
of its script may begin later.  Unless the run is stopped, all instances are invoked once, in order,
before any body begins.
-/

namespace MarkupLint
namespace Linting

/-- What is done to the instance with a rule and an index. -/
inductive Act where
  | invoked (key : String × Int)
  /-- The awaited steps of the instance begin. -/
  | began (key : String × Int)
deriving DecidableEq, Repr, Inhabited

/-- The member that is invoked, if an effect says so. -/
def Effect.invoked? : Effect → Option Nat
  | .invoked index _ => some index
  | _ => none

/-- Whether the awaited steps of a member begin in a turn; a task that is cancelled before ends
without them. -/
def Member.begins (member : Member) (turn : Member.Turn) : Bool :=
  match turn, member.task with
  | .task, .fresh _ => !member.isCancelling
  | _, _ => false

/-- The members whose awaited steps begin in a turn. -/
def beginners (linting : Linting) : Turn → List Nat
  | .run => []
  | .member index turn => if linting.members[index]?.any (·.begins turn) then [index] else []

/-- The acts on members with the given indices. -/
def actsOn (linting : Linting) (act : String × Int → Act) (indices : List Nat) : List Act :=
  indices.filterMap fun index => linting.keys[index]?.map act

/-- The acts of a turn. -/
def turnActs (linting : Linting) (now : Rat) (turn : Turn) : List Act :=
  linting.actsOn .invoked ((linting.take now turn).effects.filterMap Effect.invoked?) ++
    linting.actsOn .began (linting.beginners turn)

namespace Session

/-- The acts of the next turn, if there is one. -/
def nextActs (session : Session) : List Act :=
  match session.schedule.next? with
  | some (.linting turn, schedule) => session.linting.turnActs schedule.now turn
  | _ => []

/-- The acts of at most the given number of turns. -/
def acts : Nat → Session → List Act
  | 0, _ => []
  | turns + 1, session =>
    session.nextActs ++
      match session.step? with
      | none => []
      | some later => acts turns later

end Session

theorem filterMap_getElem?_range (items : List α) (act : α → β) :
    (List.range items.length).filterMap (fun index => items[index]?.map act) = items.map act := by
  induction items with
  | nil => rfl
  | cons item rest ih =>
    rw [List.length_cons, List.range_succ_eq_map, List.filterMap_cons]
    simp [List.filterMap_map, ih]

/-- The acts on all members, in order. -/
theorem actsOn_range (linting : Linting) (act : String × Int → Act) :
    linting.actsOn act (List.range linting.members.length) = linting.keys.map act := by
  have length_eq : linting.members.length = linting.keys.length := (List.length_map _).symm
  rw [actsOn, length_eq, filterMap_getElem?_range]

theorem exists_bodies_actsOn_began (linting : Linting) (indices : List Nat) :
    ∃ bodies : List (String × Int), linting.actsOn .began indices = bodies.map .began := by
  refine ⟨indices.filterMap (linting.keys[·]?), ?_⟩
  rw [actsOn, List.map_filterMap]

namespace Progress

variable {progress : Progress}

theorem invoked?_finish :
    progress.finish.effects.filterMap Effect.invoked? =
      progress.effects.filterMap Effect.invoked? := by
  have called : ∀ labels : List String, ∀ state size,
      (labels.map (Effect.called · state size)).filterMap Effect.invoked? = [] := by
    intro labels state size
    simp [List.filterMap_map, Function.comp_def, Effect.invoked?]
  simp only [finish]
  split <;>
    simp only [close, modify, log, emit, effects_called, List.filterMap_append, called] <;>
    simp [Effect.invoked?]

theorem invoked?_follow (index : Nat) (course : Member.Course) :
    (progress.follow index course).effects.filterMap Effect.invoked? =
      progress.effects.filterMap Effect.invoked? :=
  filterMap_follow ⟨fun _ => rfl, fun _ _ => rfl, fun _ => rfl, fun _ => rfl⟩ course

theorem invoked?_invoke
    {index : Nat}
    (known : index < progress.linting.members.length)
    (now : Rat) :
    (progress.invoke index now).1.effects.filterMap Effect.invoked? =
      progress.effects.filterMap Effect.invoked? ++ [index] := by
  cases progress.invoked index now with
  | nobody unknown same =>
    rw [List.getElem?_eq_getElem known] at unknown
    contradiction
  | member member record found same =>
    rw [same, invoked?_follow]
    simp [emit, Effect.invoked?]

end Progress

/-- The effects tell who is invoked. -/
theorem Entering.invoked?_invokeAll
    {linting : Linting}
    {progress : Progress}
    {indices : List Nat}
    (entering : Entering linting progress)
    (once : indices.Nodup)
    (untouched : ∀ index ∈ indices, progress.linting.members[index]? = linting.members[index]?)
    (known : ∀ index ∈ indices, index < linting.members.length)
    (now : Rat) :
    (progress.invokeAll now indices).1.effects.filterMap Effect.invoked? =
      progress.effects.filterMap Effect.invoked? ++ callees (linting.goesOn now) indices := by
  induction indices generalizing progress with
  | nil => exact (List.append_nil _).symm
  | cons first rest ih =>
    rw [List.nodup_cons] at once
    have goes := entering.goesOn_eq (untouched first List.mem_cons_self) now
    have length_eq : progress.linting.members.length = linting.members.length := by
      have same := congrArg List.length entering.keys_eq
      rwa [keys, keys, List.length_map, List.length_map] at same
    have bound : first < progress.linting.members.length := by
      rw [length_eq]
      exact known first List.mem_cons_self
    have invoked := Progress.invoked?_invoke bound now
    simp only [Progress.invokeAll, goes, callees]
    split
    · rw [ih (entering.invoke first now) once.2 ?_ ?_, invoked, List.append_assoc]
      · rfl
      · intro index later
        rw [members_invoke_of_mem once.1 later]
        exact untouched index (List.mem_cons_of_mem _ later)
      · exact fun index later => known index (List.mem_cons_of_mem _ later)
    · exact invoked

/-- The turn in which the run begins tells who is invoked. -/
theorem invoked?_begin
    {linting : Linting}
    (balanced : Balanced linting)
    (scheduled : linting.phase = .scheduled)
    (now : Rat) :
    ((Progress.start linting).begin now).effects.filterMap Effect.invoked? =
      linting.invokees now := by
  have once : (List.range linting.members.length).Nodup := List.nodup_range
  have every : ((Progress.start linting).invokeEvery now).1.effects.filterMap Effect.invoked? =
      linting.invokees now :=
    (Entering.enter balanced scheduled).invoked?_invokeAll once (fun _ _ => rfl)
      (fun _ known => List.mem_range.mp known) now
  cases (Progress.start linting).begun now with
  | stopped failure stops same =>
    rw [same, Progress.close, Progress.emit, List.filterMap_append, Progress.modify, every]
    exact List.append_nil _
  | waiting goesOn some same =>
    rw [same]
    exact every
  | finished goesOn none same =>
    rw [same, Progress.invoked?_finish]
    exact every

/-- Once the run has begun, nobody is invoked. -/
theorem invoked?_take
    {linting : Linting}
    (begun : linting.phase.isEarly = false)
    (now : Rat)
    (turn : Turn) :
    (linting.take now turn).effects.filterMap Effect.invoked? = [] := by
  cases taken linting now turn with
  | nothing idle nobody same =>
    rw [same]
    rfl
  | begin isRun scheduled same =>
    rw [scheduled] at begun
    contradiction
  | finish isRun settled same =>
    rw [same, Progress.invoked?_finish]
    rfl
  | member index own member isMember known same =>
    rw [same, Progress.invoked?_follow]
    rfl

namespace Session

theorem nextActs_of_begun
    {session : Session}
    (begun : session.linting.phase.isEarly = false) :
    ∃ bodies : List (String × Int), session.nextActs = bodies.map .began := by
  unfold nextActs
  split
  · next turn schedule next =>
    rw [turnActs, invoked?_take begun]
    exact exists_bodies_actsOn_began session.linting _
  · exact ⟨[], rfl⟩

/-- In the turn in which the run begins, members are invoked and nothing else is done. -/
theorem Begins.nextActs_eq_invokees
    {linting : Linting}
    {session : Session}
    {schedule : Schedule SessionTurn}
    (begins : session.Begins schedule)
    (unbegun : Unbegun linting session) :
    session.nextActs = linting.actsOn .invoked (linting.invokees schedule.now) := by
  have took : session.linting.take schedule.now .run =
      (Progress.start session.linting).begin schedule.now := by
    simp only [Linting.take, Progress.take, Progress.linting_start, begins.scheduled]
  simp only [nextActs, begins.next, turnActs, took, beginners]
  rw [invoked?_begin unbegun.balanced begins.scheduled,
    invokees_congr unbegun.setting_eq unbegun.members_eq, actsOn, keys, unbegun.members_eq]
  exact List.append_nil _

theorem Begins.nextActs_eq
    {linting : Linting}
    {session : Session}
    {schedule : Schedule SessionTurn}
    (begins : session.Begins schedule)
    (unbegun : Unbegun linting session)
    (goes : ∀ now, ∀ index < linting.members.length, linting.goesOn now index = true) :
    session.nextActs = linting.keys.map .invoked := by
  have everyone : linting.invokees schedule.now = List.range linting.members.length :=
    callees_eq_self fun index known => goes _ index (List.mem_range.mp known)
  rw [begins.nextActs_eq_invokees unbegun, everyone, actsOn_range]

theorem Unbegun.nextActs_eq
    {linting : Linting}
    {session : Session}
    (unbegun : Unbegun linting session)
    (waits : ¬∃ schedule, session.Begins schedule) :
    session.nextActs = [] := by
  unfold nextActs
  split
  · next turn schedule next =>
    cases turn with
    | member index own =>
      have known := (Schedule.entries_next? next).mem_iff.mpr List.mem_cons_self
      have foreign := unbegun.quiet _ known
      contradiction
    | run =>
      cases taken session.linting schedule.now .run with
      | nothing idle nobody same =>
        rw [turnActs, same]
        rfl
      | begin isRun scheduled same => exact absurd ⟨schedule, next, scheduled⟩ waits
      | finish isRun settled same =>
        have early := unbegun.early
        rw [settled] at early
        contradiction
      | member index own member isMember known same => contradiction
  · rfl

end Session
end Linting
end MarkupLint
