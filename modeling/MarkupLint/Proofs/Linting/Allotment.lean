import MarkupLint.Proofs.Linting.Delivery
import MarkupLint.Proofs.Linting.Repose
import Mathlib.Algebra.Order.BigOperators.Group.Finset

/-!
# The turns that are allotted

The turns that are allotted to a session suffice: when they are used up, all requests have been
answered, or nothing can ever happen again.  This needs either no bound on idleness, or one in exact
time.
-/

namespace MarkupLint
namespace Linting

/-- Instances may be idle as long as they like, or for some seconds in exact time. -/
def Setting.IsTimely (setting : Setting) : Prop :=
  setting.timeout? = none ∨ ∃ seconds, setting.IsBounded seconds

/-- More turns are allotted to members than there is work and haste. -/
theorem sum_work_le
    {members : List Member}
    (untouched : ∀ member ∈ members, member.Untouched) :
    (members.map Member.work).sum + 6 * members.length ≤
      members.foldr (fun member total => member.cost + total) 0 := by
  induction members with
  | nil => exact Nat.le_refl _
  | cons member rest ih =>
    have others := ih fun other known => untouched other (List.mem_cons_of_mem _ known)
    obtain ⟨rule, index, script, rfl⟩ := untouched member List.mem_cons_self
    have work_eq : (Member.new rule index script).work =
        40 + 12 * stepsCost (script.awaited?.getD []) := by
      simp only [Member.work, Member.new, Task.work, Supervision.work, Watch.work, stepsWork]
      omega
    have cost_eq : (Member.new rule index script).cost =
        64 + 12 * stepsCost (script.awaited?.getD []) := rfl
    simp only [List.map_cons, List.sum_cons, List.length_cons, List.foldr_cons]
    omega

namespace Session

/-- Unless all requests have been answered, the session has just gone on. -/
theorem run_eq_goOn
    {session : Session}
    {turns : Nat}
    (left : (session.run turns).isOver = false) :
    session.run turns = session.goOn turns := by
  induction turns generalizing session with
  | zero => rfl
  | succ turns ih =>
    cases empty : session.isOver
    · have next_eq : session.next? = session.step? := by simp [next?, empty]
      simp only [Session.run, goOn, next_eq] at left ⊢
      cases stepped : session.step? with
      | none => rfl
      | some later =>
        rw [stepped] at left
        exact ih left
    · simp [Session.run, next?, empty] at left

/-- As long as it is run, a session goes on. -/
theorem exists_run_eq_goOn (session : Session) (turns : Nat) :
    ∃ taken ≤ turns, session.run turns = session.goOn taken := by
  induction turns generalizing session with
  | zero => exact ⟨0, le_rfl, rfl⟩
  | succ turns ih =>
    simp only [Session.run]
    split
    · next later stepped =>
      obtain ⟨taken, fewer, same⟩ := ih later
      have step : session.step? = some later := by
        unfold next? at stepped
        split at stepped
        · contradiction
        · exact stepped
      exact ⟨taken + 1, Nat.succ_le_succ fewer, same.trans (goOn_succ_of_step step taken).symm⟩
    · exact ⟨0, Nat.zero_le _, rfl⟩

variable {document : Document} {rules : RuleSet} {timeout? : Option Binary64} {precision : Precision}
  {precedence : Precedence SessionTurn}

theorem work_new_le (requests : List Request) :
    (new (.new document rules timeout? precision) precedence requests).work +
        6 * (Linting.new document rules timeout? precision).members.length ≤
      (new (.new document rules timeout? precision) precedence requests).cost := by
  have members := sum_work_le ((Balanced.new document rules timeout? precision).untouched rfl)
  generalize linting_eq : Linting.new document rules timeout? precision = linting at members ⊢
  have phase_eq : linting.phase = .unstarted := by
    rw [← linting_eq]
    rfl
  have scheduled : (new linting precedence requests).scheduledWork = 1 := rfl
  have caller : (new linting precedence requests).callerWork = 4 * requests.length + 3 := rfl
  have left : (new linting precedence requests).linting.work =
      3 + (linting.members.map Member.work).sum := by
    rw [new, Linting.work, phase_eq]
    rfl
  have cost_eq : (new linting precedence requests).cost = 64 + 8 * requests.length +
      linting.members.foldr (fun member total => member.cost + total) 0 := rfl
  rw [work, scheduled, caller, left, cost_eq]
  omega

/-- Before the run begins, every turn takes some of the work that is left. -/
theorem Unbegun.work_lt
    {linting : Linting}
    {session later : Session}
    (unbegun : Unbegun linting session)
    (stepped : session.step? = some later) :
    later.work < session.work := by
  obtain ⟨⟨turn, schedule⟩, popped, rfl⟩ := Option.map_eq_some_iff.mp stepped
  rcases work_step unbegun.balanced popped with ⟨less, -⟩ | ⟨index, own, member, rfl, -⟩
  · exact less
  · have quiet := unbegun.quiet _
      ((Schedule.entries_next? popped).mem_iff.mpr List.mem_cons_self)
    contradiction

/-- The haste of tame members is bounded. -/
theorem Tamed.totalHaste_le
    {session : Session}
    {solos : Nat → Solo}
    (tamed : session.Tamed solos)
    (seconds : Rat) :
    totalHaste seconds session.linting.members.length solos ≤
      6 * session.linting.members.length := by
  have each : ∀ index ∈ Finset.range session.linting.members.length,
      (solos index).haste seconds ≤ 6 :=
    fun index known => Solo.haste_le (tamed index (Finset.mem_range.mp known)).2
  have total := Finset.sum_le_card_nsmul _ _ 6 each
  rw [Finset.card_range, nsmul_eq_mul, Nat.mul_comm] at total
  exact total

/-- A bounded session before its run, with the work and the haste that may be left, or behind its
beginning, with those that are. -/
inductive Tires (linting : Linting) (seconds : Rat) (session : Session) (left : Nat) : Prop where
  | unbegun
      (unbegun : Unbegun linting session)
      (exact_eq : session.schedule.precision = .exact)
      (left_eq : session.work + 6 * session.linting.members.length = left)
  | begun (dwindles : session.Dwindles seconds left)

theorem Tires.step
    {session later : Session}
    {seconds : Rat}
    {left : Nat}
    (bounded : (Linting.new document rules timeout? .exact).toSetting.IsBounded seconds)
    (tires : Tires (.new document rules timeout? .exact) seconds session left)
    (stepped : session.step? = some later) :
    ∃ less < left, Tires (.new document rules timeout? .exact) seconds later less := by
  cases tires with
  | begun dwindles =>
    obtain ⟨less, fewer, still⟩ := dwindles.step stepped
    exact ⟨less, fewer, .begun still⟩
  | unbegun unbegun exact_eq left_eq =>
    have fewer := unbegun.work_lt stepped
    have length_eq := length_members_step stepped
    by_cases begins : ∃ schedule, session.Begins schedule
    · obtain ⟨schedule, begins⟩ := begins
      obtain ⟨taken, early, setting_eq⟩ := unbegun.begun begins
      obtain ⟨solos, tamed⟩ := unbegun.exists_tamed begins bounded
        ((Schedule.precision_of_next? begins.next).trans exact_eq)
      obtain rfl := Option.some.inj (taken.symm.trans stepped)
      have hasty := tamed.totalHaste_le seconds
      refine ⟨_, ?_, .begun ⟨setting_eq ▸ bounded, unbegun.toOrderly.step stepped, early, solos,
        tamed, rfl⟩⟩
      omega
    · refine ⟨_, ?_, .unbegun ((unbegun.step stepped).resolve_right begins)
        ((precision_step stepped).trans exact_eq) rfl⟩
      omega

/-- When the turns that are allotted to a session are used up, nothing can ever happen again. -/
theorem isExhausted_goOn_cost
    (distinct : rules.keys.Nodup)
    (timely : (Linting.new document rules timeout? precision).toSetting.IsTimely)
    (requests : List Request) :
    let session := new (.new document rules timeout? precision) precedence requests
    (session.goOn session.cost).IsExhausted := by
  intro session
  have enough := @work_new_le document rules timeout? precision precedence requests
  rcases timely with unbounded | ⟨seconds, bounded⟩
  · obtain rfl : timeout? = none := unbounded
    exact isExhausted_goOn_of_calm (Calm.new document rules precision) (Nat.le_of_add_right_le enough)
  · obtain rfl : precision = .exact := bounded.exact_eq
    exact isExhausted_goOn_of_measure (fun _ _ _ => Tires.step bounded)
      (Tires.unbegun (.new distinct requests) rfl rfl) enough

/-- How the answers of a session come about: all requests are answered, or the caller waits for an end
that can never be reached. -/
inductive Answered
    (linting : Linting)
    (precedence : Precedence SessionTurn)
    (requests : List Request)
    (answers : List Answer) :
    Prop where
  | complete
      (taken : Nat)
      (empty : ((new linting precedence requests).goOn taken).requests = [])
      (same : answers = ((new linting precedence requests).goOn taken).answers.reverse)
  | stuck
      (taken : Nat)
      (exhausted : ((new linting precedence requests).goOn taken).IsExhausted)
      (waiting : ((new linting precedence requests).goOn taken).caller = .waiting)
      (unanswered : ((new linting precedence requests).goOn taken).linting.phase.isAnswered = false)
      (same : answers = (((new linting precedence requests).goOn taken).answer .deadlock).answers.reverse)

theorem answered_answersOf
    (distinct : rules.keys.Nodup)
    (timely : (Linting.new document rules timeout? precision).toSetting.IsTimely)
    (requests : List Request) :
    Answered (.new document rules timeout? precision) precedence requests
      (answersOf (.new document rules timeout? precision) precedence requests) := by
  have attended : (new (.new document rules timeout? precision) precedence requests).Attended :=
    .new rfl precedence requests
  have exhausted :=
    @isExhausted_goOn_cost document rules timeout? precision precedence distinct timely requests
  generalize session_eq : new (.new document rules timeout? precision) precedence requests = session
    at attended exhausted
  have answers_eq : answersOf (.new document rules timeout? precision) precedence requests =
      (if (session.run session.cost).isOver then session.run session.cost
        else (session.run session.cost).answer .deadlock).answers.reverse := by
    rw [answersOf, session_eq]
  cases empty : (session.run session.cost).isOver
  · have run_eq := run_eq_goOn empty
    have left : (session.goOn session.cost).requests ≠ [] := by
      rw [run_eq, isOver] at empty
      simpa using empty
    obtain ⟨waiting, unanswered⟩ := ((attended.goOn _).exhausted exhausted).resolve_left left
    rw [empty, if_neg Bool.false_ne_true, run_eq] at answers_eq
    subst session_eq
    exact .stuck _ exhausted waiting unanswered answers_eq
  · obtain ⟨taken, -, run_eq⟩ := exists_run_eq_goOn session session.cost
    rw [run_eq] at empty
    rw [run_eq, empty, if_pos rfl] at answers_eq
    subst session_eq
    exact .complete taken (List.isEmpty_iff.mp empty) answers_eq

end Session
end Linting
end MarkupLint
