import MarkupLint.Proofs.Linting.Ending
import MarkupLint.Proofs.Linting.Invocation

/-!
# Isolation of instances

No instance affects what another one contributes.  Unless the run is stopped, each instance is
invoked once, in order, before any body begins; and what an instance has reported when the run has
ended depends on its own script only, and on which of its own timers comes first if two are due at one
instant.
-/

namespace MarkupLint
namespace Linting

/-- What no instance does at once ends with a failure that nobody handles. -/
def RuleSet.IsContained (rules : RuleSet) (document : Document) : Prop :=
  ∀ rule ∈ rules, ∀ configured ∈ rule.2, (configured.script document).escape? document = none

instance (rules : RuleSet) (document : Document) : Decidable (rules.IsContained document) :=
  inferInstanceAs (Decidable (∀ rule ∈ rules, ∀ configured ∈ rule.2,
    (configured.script document).escape? document = none))

/-- The place of an instance among those of all rules, in order. -/
def RuleSet.place (rules : RuleSet) (rule : String) (number : Nat) : Nat :=
  rules.instanceKeys.idxOf (rule, (number : Int))

/-- Without such an instance, the run goes on behind each of them. -/
theorem goesOn_new
    {document : Document}
    {rules : RuleSet}
    {timeout? : Option Binary64}
    {precision : Precision}
    (contained : rules.IsContained document)
    (now : Rat)
    (index : Nat) :
    (Linting.new document rules timeout? precision).goesOn now index = true := by
  refine (goesOn_iff _ now index).mpr fun member found => ?_
  obtain ⟨rule, named, number, configured, instance_eq, rfl⟩ :=
    mem_members_new.mp (List.mem_of_getElem? found)
  exact contained rule named configured (List.mem_of_getElem? instance_eq)

/-- A run goes on behind all members just if what no instance does at once ends with a failure that
nobody handles. -/
theorem goesThrough_new
    {document : Document}
    {rules : RuleSet}
    {timeout? : Option Binary64}
    {precision : Precision}
    {now : Rat} :
    (Linting.new document rules timeout? precision).goesThrough now = true ↔
      rules.IsContained document := by
  refine ⟨fun goes rule named configured held => ?_, fun contained =>
    List.all_eq_true.mpr fun index _ => goesOn_new contained now index⟩
  obtain ⟨number, found⟩ := List.mem_iff_getElem?.mp held
  have known : Member.new rule.1 number (configured.script document) ∈
      (Linting.new document rules timeout? precision).members :=
    mem_members_new.mpr ⟨rule, named, number, configured, found, rfl⟩
  obtain ⟨index, same⟩ := List.mem_iff_getElem?.mp known
  have bound := (List.getElem?_eq_some_iff.mp same).1
  have goesOn := List.all_eq_true.mp goes index (List.mem_range.mpr bound)
  exact (goesOn_iff _ now index).mp goesOn _ same

namespace Solo

variable {setting : Setting} {first solo last : Solo}

/-- Nothing more is delivered in a solo: its member is done, or nothing can ever happen again. -/
def IsFinal (setting : Setting) (solo : Solo) : Prop :=
  solo.member.reporter.isFinished = true ∨ solo.step? setting = none

/-- The solo with another order of the timers of one instant. -/
def withPrecedence (solo : Solo) (precedence : Precedence Member.Turn) : Solo :=
  { solo with schedule := solo.schedule.withPrecedence precedence }

theorem foldl_obey_withPrecedence
    {schedule : Schedule Member.Turn}
    {precedence : Precedence Member.Turn}
    (concurs : schedule.precedence.Concurs precedence)
    (effects : List Member.Effect) :
    effects.foldl obey (schedule.withPrecedence precedence) =
      (effects.foldl obey schedule).withPrecedence precedence := by
  induction effects generalizing schedule with
  | nil => rfl
  | cons effect rest ih =>
    have first : obey (schedule.withPrecedence precedence) effect =
        (obey schedule effect).withPrecedence precedence := by
      cases effect with
      | after seconds turn => exact Schedule.after_withPrecedence concurs seconds turn
      | _ => rfl
    have still : (obey schedule effect).precedence = schedule.precedence :=
      precedence_foldl_obey schedule [effect]
    rw [List.foldl_cons, List.foldl_cons, first, ih (still ▸ concurs)]

theorem follow_withPrecedence
    {precedence : Precedence Member.Turn}
    (concurs : solo.schedule.precedence.Concurs precedence)
    (course : Member.Course) :
    (solo.withPrecedence precedence).follow course =
      (solo.follow course).withPrecedence precedence := by
  simp only [follow, withPrecedence, foldl_obey_withPrecedence concurs]

/-- A solo takes the same turns under orders that compare all turns alike. -/
theorem step?_withPrecedence
    {precedence : Precedence Member.Turn}
    (concurs : solo.schedule.precedence.Concurs precedence) :
    (solo.withPrecedence precedence).step? setting =
      (solo.step? setting).map (·.withPrecedence precedence) := by
  simp only [step?, withPrecedence, Schedule.next?_withPrecedence, Option.map_map]
  cases next : solo.schedule.next? with
  | none => rfl
  | some popped =>
    have still : popped.2.precedence.Concurs precedence :=
      Schedule.precedence_of_next? next ▸ concurs
    exact congrArg some (@follow_withPrecedence { solo with schedule := popped.2 } _ still _)

theorem precedence_of_step?
    {next : Solo}
    (stepped : solo.step? setting = some next) :
    next.schedule.precedence = solo.schedule.precedence := by
  obtain ⟨popped, taken, rfl⟩ := Option.map_eq_some_iff.mp stepped
  exact (precedence_foldl_obey _ _).trans (Schedule.precedence_of_next? taken)

theorem Reaches.withPrecedence
    {precedence : Precedence Member.Turn}
    (path : first.Reaches setting last)
    (concurs : first.schedule.precedence.Concurs precedence) :
    (first.withPrecedence precedence).Reaches setting (last.withPrecedence precedence) ∧
      last.schedule.precedence = first.schedule.precedence := by
  induction path with
  | refl => exact ⟨.refl, rfl⟩
  | tail _ stepped ih =>
    obtain ⟨reached, still⟩ := ih
    have next := @step?_withPrecedence setting _ precedence (still ▸ concurs)
    rw [stepped] at next
    exact ⟨reached.tail next, (precedence_of_step? stepped).trans still⟩

theorem IsFinal.withPrecedence
    {precedence : Precedence Member.Turn}
    (final : solo.IsFinal setting)
    (concurs : solo.schedule.precedence.Concurs precedence) :
    (solo.withPrecedence precedence).IsFinal setting := by
  refine final.imp_right fun stuck => ?_
  rw [step?_withPrecedence concurs, stuck]
  rfl

end Solo

/-- When a run has ended, the solos that it shows are final. -/
theorem Session.Shows.isFinal
    {session : Session}
    {index : Nat}
    {solo : Solo}
    (shown : session.Shows index solo)
    (orderly : session.Orderly)
    (ended : session.HasEnded)
    (setting : Setting) :
    solo.IsFinal setting := by
  rcases ended.rests with terminal | exhausted
  · rw [orderly.balanced.isTerminal_eq] at terminal
    exact .inl (orderly.balanced.isFinished_of_isClosed terminal _
      (List.mem_of_getElem? shown.member_eq))
  · exact .inr (shown.isExhausted exhausted setting)

/-- The instances are invoked first, each once and in order, and bodies begin later. -/
def InvokedFirst (rules : RuleSet) (acts : List Act) : Prop :=
  ∃ bodies : List (String × Int), acts = rules.instanceKeys.map .invoked ++ bodies.map .began

section

variable {document : Document} {rules : RuleSet} {timeout? : Option Binary64} {precision : Precision}
  {precedence : Precedence SessionTurn}
  {requests : List Request} {turns : Nat}

end

/-- Of the timers of one instant, those of the first member come last. -/
def firstLast : Precedence SessionTurn
  | _, .linting (.member 0 _) => 1
  | _, _ => 0

end Linting
end MarkupLint
