import MarkupLint.Proofs.Linting.Haste
import Mathlib.Algebra.BigOperators.Group.Finset.Basic

/-!
# Bounded sessions come to rest

With a bound on idleness, in exact time, every turn of a session takes some of the work and of the
haste that are left, so after finitely many turns nothing can happen any more.
-/

namespace MarkupLint
namespace Linting
namespace Session

/-- A session that shows tame solos of all its members. -/
def Tamed (session : Session) (solos : Nat → Solo) : Prop :=
  ∀ index < session.linting.members.length,
    session.Shows index (solos index) ∧ Solo.Tame (solos index).schedule

/-- The haste of the supervisors of a number of members. -/
def totalHaste (seconds : Rat) (count : Nat) (solos : Nat → Solo) : Nat :=
  ∑ index ∈ Finset.range count, (solos index).haste seconds

theorem length_members_step {session later : Session} (stepped : session.step? = some later) :
    later.linting.members.length = session.linting.members.length := by
  have keys_eq := congrArg List.length (keys_step stepped)
  rw [keys, keys, List.length_map, List.length_map] at keys_eq
  exact keys_eq

/-- When one of the solos is replaced, the haste changes by that of the solo. -/
theorem totalHaste_update
    {seconds : Rat}
    {count index : Nat}
    (bound : index < count)
    (solos : Nat → Solo)
    (solo : Solo) :
    totalHaste seconds count (Function.update solos index solo) + (solos index).haste seconds =
      totalHaste seconds count solos + solo.haste seconds := by
  have known := Finset.mem_range.mpr bound
  have others : ∑ other ∈ (Finset.range count).erase index,
      (Function.update solos index solo other).haste seconds =
        ∑ other ∈ (Finset.range count).erase index, (solos other).haste seconds :=
    Finset.sum_congr rfl fun other held => by
      rw [Function.update_of_ne (Finset.ne_of_mem_erase held)]
  rw [totalHaste, totalHaste, ← Finset.add_sum_erase _ _ known, others, Function.update_self,
    ← Finset.add_sum_erase _ (fun other => (solos other).haste seconds) known]
  omega

/-- Every turn takes some of the work and of the haste that are left. -/
theorem Tamed.step
    {session later : Session}
    {seconds : Rat}
    {solos : Nat → Solo}
    (tamed : session.Tamed solos)
    (bounded : session.linting.toSetting.IsBounded seconds)
    (orderly : session.Orderly)
    (begun : session.linting.phase.isEarly = false)
    (stepped : session.step? = some later) :
    ∃ next, later.Tamed next ∧
      later.work + totalHaste seconds later.linting.members.length next <
        session.work + totalHaste seconds session.linting.members.length solos := by
  have length_eq := length_members_step stepped
  simp only [Tamed, length_eq]
  obtain ⟨⟨turn, schedule⟩, popped, rfl⟩ := Option.map_eq_some_iff.mp stepped
  dsimp only
  rcases work_step orderly.balanced popped with
    ⟨less, nobody⟩ | ⟨index, own, member, rfl, known, taken⟩
  · refine ⟨solos, fun index bound => ?_, by omega⟩
    obtain ⟨shown, tame⟩ := tamed index bound
    refine ⟨shown.step_other orderly begun popped ?_, tame⟩
    apply Option.eq_none_iff_forall_ne_some.mpr
    intro own isOwn
    have unknown := nobody index own ((own?_eq_some_iff index turn own).mp isOwn)
    rw [List.getElem?_eq_none_iff] at unknown
    exact absurd bound (Nat.not_lt.mpr unknown)
  · obtain ⟨bound, -⟩ := List.getElem?_eq_some_iff.mp known
    obtain ⟨shown, tame⟩ := tamed index bound
    obtain ⟨alone, next, now_eq, showing⟩ := shown.step_own orderly popped
    obtain rfl := Option.some.inj (known.symm.trans shown.member_eq)
    obtain ⟨still, less⟩ := tame.take bounded next
    rw [now_eq] at still less
    let after := ({ solos index with schedule := alone } : Solo).take session.linting.toSetting own
    have total := @totalHaste_update seconds _ _ bound solos after
    refine ⟨Function.update solos index after, fun other known => ?_, ?_⟩
    · by_cases same : other = index
      · subst same
        rw [Function.update_self]
        refine ⟨showing, ?_⟩
        simp only [after, Solo.take, Solo.schedule_follow, now_eq]
        exact still
      · rw [Function.update_of_ne same]
        refine ⟨(tamed other known).1.step_other orderly begun popped ?_, (tamed other known).2⟩
        simp [SessionTurn.own?, SessionTurn.member?, Ne.symm same]
    · have after_eq : after = ({ solos index with schedule := alone } : Solo).follow
          ((solos index).member.take session.linting.toSetting schedule.now own) := by
        simp only [after, Solo.take, now_eq]
      rw [← after_eq] at less
      omega

/-- A bounded session whose run has begun, with the work and the haste that are left. -/
def Dwindles (seconds : Rat) (session : Session) (left : Nat) : Prop :=
  session.linting.toSetting.IsBounded seconds ∧ session.Orderly ∧
    session.linting.phase.isEarly = false ∧ ∃ solos, session.Tamed solos ∧
      session.work + totalHaste seconds session.linting.members.length solos = left

theorem Dwindles.step
    {seconds : Rat}
    {session later : Session}
    {left : Nat}
    (dwindles : session.Dwindles seconds left)
    (stepped : session.step? = some later) :
    ∃ less < left, later.Dwindles seconds less := by
  obtain ⟨bounded, orderly, begun, solos, tamed, rfl⟩ := dwindles
  obtain ⟨next, still, less⟩ := tamed.step bounded orderly begun stepped
  obtain ⟨laterBegun, setting_eq⟩ := begun_step begun stepped
  exact ⟨_, less, setting_eq ▸ bounded, orderly.step stepped, laterBegun, next, still, rfl⟩

theorem precision_step {session later : Session} (stepped : session.step? = some later) :
    later.schedule.precision = session.schedule.precision := by
  obtain ⟨⟨turn, schedule⟩, popped, rfl⟩ := Option.map_eq_some_iff.mp stepped
  rw [← Schedule.precision_of_next? popped]
  have same : Indifferent (·.precision = schedule.precision) :=
    ⟨fun _ _ _ => id, fun _ _ _ _ => id, fun _ _ _ => id⟩
  cases turn with
  | linting turn => exact precision_foldl_absorb _ _
  | caller => exact @schedule_resume { session with schedule := schedule } _ same rfl
  | wakeCaller => rfl

end Session

namespace Solo

variable {setting : Setting} {seconds : Rat} {place : Nat} {member : Member}
  {schedule : Schedule SessionTurn}

theorem tame_idle (exact_eq : schedule.precision = .exact) :
    Tame (idle place member schedule).schedule where
  isAhead := ⟨List.Pairwise.nil, by simp [idle, Schedule.empty]⟩
  exact_eq := exact_eq
  ready := Nat.zero_le _
  timers := Nat.zero_le _

theorem tame_invoke
    (exact_eq : schedule.precision = .exact)
    (untouched : member.Untouched) :
    Tame ((idle place member schedule).follow (member.invoke setting schedule.now).1).schedule := by
  obtain ⟨rule, index, script, rfl⟩ := untouched
  have entered := @Member.entered (.new rule index script) Watch.noConfusion setting schedule.now
  rw [schedule_follow]
  refine (tame_idle exact_eq).foldl_obey ?_
  cases entered with
  | launched performed steps performed_eq goesOn awaits member_eq turns_eq delivered_eq =>
    simp [turns_eq, Member.Effect.IsTame]
  | spent performed performed_eq member_eq turns_eq delivered_eq => simp [turns_eq]

theorem tame_reaches
    {solo last : Solo}
    (bounded : setting.IsBounded seconds)
    (tame : Tame solo.schedule)
    (path : solo.Reaches setting last) :
    Tame last.schedule := by
  induction path with
  | refl => exact tame
  | @tail solo last path stepped ih =>
    obtain ⟨⟨turn, schedule⟩, popped, rfl⟩ := Option.map_eq_some_iff.mp stepped
    rw [Solo.take, schedule_follow]
    exact (ih.take bounded popped).1

end Solo

namespace Session

variable {document : Document} {rules : RuleSet} {timeout? : Option Binary64} {session : Session}
  {schedule : Schedule SessionTurn} {seconds : Rat}

/-- When the run of a bounded session begins, the session shows tame solos of all its members. -/
theorem Unbegun.exists_tamed
    (unbegun : Unbegun (.new document rules timeout? .exact) session)
    (begins : session.Begins schedule)
    (bounded : (Linting.new document rules timeout? .exact).toSetting.IsBounded seconds)
    (exact_eq : schedule.precision = .exact) :
    ∃ solos, (({ session with schedule := schedule } : Session).follow
      ((Progress.start session.linting).begin schedule.now)).Tamed solos := by
  obtain ⟨stepped, -, -⟩ := unbegun.begun begins
  have begun : session.goOn 1 = ({ session with schedule := schedule } : Session).follow
      ((Progress.start session.linting).begin schedule.now) := by
    simp only [goOn, stepped]
  have shows : ∀ index, ∃ solo, index < (session.goOn 1).linting.members.length →
      (session.goOn 1).Shows index solo ∧ Solo.Tame solo.schedule := by
    intro index
    cases known : (Linting.new document rules timeout? .exact).members[index]? with
    | none =>
      refine ⟨.idle index default schedule, fun bound => ?_⟩
      rw [begun, length_members_step stepped, unbegun.members_eq] at bound
      exact absurd bound (Nat.not_lt.mpr (List.getElem?_eq_none_iff.mp known))
    | some member =>
      have untouched : member.Untouched := (Balanced.new document rules timeout? .exact).untouched rfl
        member (List.mem_of_getElem? known)
      obtain ⟨last, shown, path⟩ := unbegun.shows begins known (attributed_new _) 0
      refine ⟨last, fun _ => ⟨shown, Solo.tame_reaches bounded ?_ path⟩⟩
      split
      · exact Solo.tame_invoke exact_eq untouched
      · exact Solo.tame_idle exact_eq
  choose solos tamed using shows
  rw [begun] at tamed
  exact ⟨solos, tamed⟩

/-- Once the run of a bounded session begins, nothing can happen any more after finitely many turns. -/
theorem Unbegun.exists_isExhausted_goOn
    (unbegun : Unbegun (.new document rules timeout? .exact) session)
    (begins : session.Begins schedule)
    (bounded : (Linting.new document rules timeout? .exact).toSetting.IsBounded seconds)
    (exact_eq : schedule.precision = .exact) :
    ∃ turns, (session.goOn (turns + 1)).IsExhausted := by
  obtain ⟨stepped, early, setting_eq⟩ := unbegun.begun begins
  obtain ⟨solos, tamed⟩ := unbegun.exists_tamed begins bounded exact_eq
  have exhausted := isExhausted_goOn_of_measure (fun _ _ _ => Dwindles.step)
    ⟨setting_eq ▸ bounded, unbegun.toOrderly.step stepped, early, solos, tamed, rfl⟩ le_rfl
  exact ⟨_, goOn_succ_of_step stepped _ ▸ exhausted⟩

end Session
end Linting
end MarkupLint
