import MarkupLint.Proofs.Linting.Solo

/-!
# What a session shows of a member

A session shows a solo of one of its members when it has the same member, the same turns of it, and
the same diagnostics from it.  Once the run has begun, every turn of the session is a turn of the
solo or is not seen there: neither the other members nor the caller matter.
-/

namespace MarkupLint
namespace Linting
namespace Session

/-- A session whose members can be told apart, in balance and with timers in order. -/
structure Orderly (session : Session) : Prop where
  balanced : Balanced session.linting
  sorted : session.schedule.Sorted
  distinct : session.linting.keys.Nodup

theorem keys_step {session later : Session} (stepped : session.step? = some later) :
    later.linting.keys = session.linting.keys :=
  @linting_step session (fun linting => linting.keys = session.linting.keys) later
    (fun linting kept => (keys_start linting).trans kept)
    (fun linting milestone observer kept => (keys_subscribe linting milestone observer).trans kept)
    (fun linting now turn kept => (keys_take linting now turn).trans kept) stepped rfl

theorem keys_goOn (session : Session) (turns : Nat) :
    (session.goOn turns).linting.keys = session.linting.keys :=
  @goOn_induction (fun later => later.linting.keys = session.linting.keys)
    (fun _ _ kept stepped => (keys_step stepped).trans kept) session rfl turns

theorem Orderly.step
    {session later : Session}
    (orderly : session.Orderly)
    (stepped : session.step? = some later) :
    later.Orderly where
  balanced := linting_step (fun _ balanced => balanced.start)
    (fun _ milestone observer balanced => balanced.subscribe milestone observer)
    (fun _ now turn balanced => balanced.take now turn) stepped orderly.balanced
  sorted := sorted_step orderly.sorted stepped
  distinct := by
    rw [keys_step stepped]
    exact orderly.distinct

theorem Orderly.goOn {session : Session} (orderly : session.Orderly) (turns : Nat) :
    (session.goOn turns).Orderly :=
  goOn_induction (fun _ _ orderly stepped => orderly.step stepped) orderly turns

/-- A session shows a solo of the member with an index. -/
structure Shows (session : Session) (index : Nat) (solo : Solo) : Prop where
  member_eq : session.linting.members[index]? = some solo.member
  alike : Schedule.Alike (session.ownSchedule index) solo.schedule
  diagnostics_eq : session.linting.diagnostics.attributed solo.member.key = solo.diagnostics
  /-- The solo is not ahead of the session. -/
  now_le : solo.schedule.now ≤ session.schedule.now

section

variable {session : Session} {progress : Progress} {index : Nat} {solo : Solo}

theorem now_follow (session : Session) (progress : Progress) :
    (session.follow progress).schedule.now = session.schedule.now :=
  now_foldl_absorb { session with linting := progress.linting } progress.effects

theorem ownSchedule_follow
    (sorted : session.schedule.Sorted)
    (progress : Progress)
    (index : Nat) :
    (session.follow progress).ownSchedule index =
      (ownEffects index progress.effects).foldl Solo.obey (session.ownSchedule index) :=
  @ownSchedule_foldl_absorb { session with linting := progress.linting } sorted index
    progress.effects

theorem ownSchedule_follow_emit
    {effect : Effect}
    (sorted : session.schedule.Sorted)
    (foreign : effect.member? = none)
    (index : Nat) :
    (session.follow (progress.emit effect)).ownSchedule index =
      (session.follow progress).ownSchedule index := by
  have none : [effect].filterMap Effect.member? = [] := by simp [foreign]
  rw [ownSchedule_follow sorted, ownSchedule_follow sorted, Progress.emit, ownEffects_append,
    ownEffects_eq_nil none, List.append_nil]

/-- A turn of a member does with its own schedule what the member demands, and nothing with that of
another one. -/
theorem ownSchedule_follow_follow
    (sorted : session.schedule.Sorted)
    (other : Nat)
    (course : Member.Course) :
    (session.follow (progress.follow other course)).ownSchedule index =
      if other = index
      then course.effects.foldl Solo.obey ((session.follow progress).ownSchedule index)
      else (session.follow progress).ownSchedule index := by
  rw [ownSchedule_follow sorted, ownSchedule_follow sorted, ownEffects_follow, List.foldl_append]
  split
  · exact Solo.foldl_obey_filter _ course.effects
  · rfl

namespace Shows

/-- What is shown depends on the member, its turns and its diagnostics only. -/
theorem of_same
    {later : Session}
    (shown : session.Shows index solo)
    (member_eq : later.linting.members[index]? = session.linting.members[index]?)
    (alike : Schedule.Alike (later.ownSchedule index) (session.ownSchedule index))
    (diagnostics_eq : ∀ key,
      later.linting.diagnostics.attributed key = session.linting.diagnostics.attributed key)
    (now_eq : later.schedule.now = session.schedule.now) :
    later.Shows index solo where
  member_eq := member_eq.trans shown.member_eq
  alike := alike.trans shown.alike
  diagnostics_eq := (diagnostics_eq _).trans shown.diagnostics_eq
  now_le := shown.now_le.trans now_eq.ge

/-- In its own turn, the member goes on as it does on its own. -/
theorem follow_self
    {course : Member.Course}
    (shown : (session.follow progress).Shows index solo)
    (schedule_eq : (session.follow progress).ownSchedule index = solo.schedule)
    (sorted : session.schedule.Sorted)
    (balanced : Balanced progress.linting)
    (conduct : solo.member.Conduct course) :
    (session.follow (progress.follow index course)).Shows index (solo.follow course) := by
  obtain ⟨known, -, diagnostics_eq, now_le⟩ := shown
  rw [linting_follow] at known diagnostics_eq
  rw [now_follow] at now_le
  have followed := Progress.followed_follow known conduct
  have key_eq := conduct.key_eq
  refine ⟨?_, ?_, ?_, ?_⟩
  · obtain ⟨bound, -⟩ := List.getElem?_eq_some_iff.mp known
    rw [linting_follow, followed.members_eq, List.getElem?_set_self bound]
    rfl
  · rw [ownSchedule_follow_follow sorted, if_pos rfl, schedule_eq]
    exact .refl _
  · rw [linting_follow, attributed_of_followed balanced known conduct followed]
    simp only [Solo.follow, key_eq, if_true, diagnostics_eq]
  · rw [now_follow, Solo.follow, Solo.now_foldl_obey]
    exact now_le

/-- The turn of another member is not seen. -/
theorem follow_other
    {other : Nat}
    {member : Member}
    {course : Member.Course}
    (shown : (session.follow progress).Shows index solo)
    (sorted : session.schedule.Sorted)
    (balanced : Balanced progress.linting)
    (distinct : progress.linting.keys.Nodup)
    (different : other ≠ index)
    (known : progress.linting.members[other]? = some member)
    (conduct : member.Conduct course) :
    (session.follow (progress.follow other course)).Shows index solo := by
  have own := shown.member_eq
  have followed := Progress.followed_follow known conduct
  rw [linting_follow] at own
  have keys_ne : member.key ≠ solo.member.key := by
    intro same
    have first := getElem?_keys known
    have second := getElem?_keys own
    rw [← same] at second
    obtain ⟨bound, -⟩ := List.getElem?_eq_some_iff.mp first
    exact different ((List.getElem?_inj bound distinct).mp (first.trans second.symm))
  refine ⟨?_, ?_, ?_, ?_⟩
  · rw [linting_follow, followed.members_eq, List.getElem?_set_ne different, own]
  · rw [ownSchedule_follow_follow sorted, if_neg different]
    exact shown.alike
  · have same := shown.diagnostics_eq
    rw [linting_follow] at same
    rw [linting_follow, attributed_of_followed balanced known conduct followed, if_neg keys_ne,
      List.append_nil, same]
  · have behind := shown.now_le
    rw [now_follow] at behind ⊢
    exact behind

/-- Effects that do not concern the member, and changes of other parts, are not seen. -/
theorem follow_foreign
    {after : Progress}
    {extra : List Effect}
    (shown : (session.follow progress).Shows index solo)
    (sorted : session.schedule.Sorted)
    (effects_eq : after.effects = progress.effects ++ extra)
    (foreign : extra.filterMap Effect.member? = [])
    (members_eq : after.linting.members = progress.linting.members)
    (diagnostics_eq : ∀ key,
      after.linting.diagnostics.attributed key = progress.linting.diagnostics.attributed key) :
    (session.follow after).Shows index solo := by
  refine shown.of_same ?_ ?_ (fun key => ?_) ?_
  · rw [linting_follow, linting_follow, members_eq]
  · rw [ownSchedule_follow sorted, ownSchedule_follow sorted, effects_eq, ownEffects_append,
      ownEffects_eq_nil foreign, List.append_nil]
    exact .refl _
  · rw [linting_follow, linting_follow, diagnostics_eq]
  · rw [now_follow, now_follow]

end Shows

/-- The end of a run is not seen. -/
theorem Shows.follow_finish
    (shown : (session.follow progress).Shows index solo)
    (sorted : session.schedule.Sorted) :
    (session.follow progress.finish).Shows index solo := by
  obtain ⟨extra, extra_eq, foreign, -⟩ := progress.exists_effects_finish
  refine @follow_foreign _ _ _ _ _ (extra ++ [.ended]) shown sorted ?_ ?_ ?_ fun key => ?_
  · rw [extra_eq, List.append_assoc]
  · rw [List.filterMap_append, foreign]
    rfl
  · rw [Progress.linting_finish]
  · rw [Progress.linting_finish]
    rfl

theorem own?_eq_none {turn : SessionTurn} (foreign : turn.member? = none) : turn.own? index = none := by
  rw [SessionTurn.own?, foreign]
  rfl

/-- Turns of others than members do not affect the turns of a member. -/
theorem indifferent_project (index : Nat) (own : Schedule Member.Turn) :
    Indifferent fun schedule => schedule.project (ownPart index) = own where
  soon := fun _ _ foreign same => (Schedule.project_soon_of_unknown (own?_eq_none foreign)).trans same
  after := fun _ seconds _ foreign same =>
    (Schedule.project_after_of_unknown (own?_eq_none foreign) seconds).trans same
  cancel := fun _ _ foreign same =>
    (Schedule.project_cancel_of_unknown (own?_eq_none foreign)).trans same

/-- Requests leave the setting, the members and the diagnostics alone. -/
theorem untouched_resume (session : Session) :
    session.resume.linting.toSetting = session.linting.toSetting ∧
      session.resume.linting.members = session.linting.members ∧
      session.resume.linting.diagnostics = session.linting.diagnostics := by
  refine @linting_resume session (fun linting => linting.toSetting = session.linting.toSetting ∧
    linting.members = session.linting.members ∧
      linting.diagnostics = session.linting.diagnostics) ?_ ?_ ⟨rfl, rfl, rfl⟩
  · intro linting same
    simp only [Linting.start]
    split
    · exact same
    · simpa using same
  · intro linting milestone observer same
    simpa [Linting.subscribe] using same

/-- The caller's going on is not seen. -/
theorem Shows.resume (shown : session.Shows index solo) : session.resume.Shows index solo := by
  obtain ⟨-, members_eq, diagnostics_eq⟩ := session.untouched_resume
  have schedule_eq : session.resume.ownSchedule index = session.ownSchedule index :=
    schedule_resume (indifferent_project index _) rfl
  refine shown.of_same (by rw [members_eq]) ?_ (fun key => by rw [diagnostics_eq]) ?_
  · rw [schedule_eq]
    exact .refl _
  · exact congrArg (fun own : Schedule Member.Turn => own.now) schedule_eq

/-- A turn of the member in the session is one of the solo. -/
theorem Shows.step_own
    {own : Member.Turn}
    {schedule : Schedule SessionTurn}
    (shown : session.Shows index solo)
    (orderly : session.Orderly)
    (next : session.schedule.next? = some (.linting (.member index own), schedule)) :
    ∃ alone, solo.schedule.next? = some (own, alone) ∧ alone.now = schedule.now ∧
      (({ session with schedule := schedule } : Session).take (.linting (.member index own))).Shows
        index (({ solo with schedule := alone } : Solo).take session.linting.toSetting own) := by
  have sorted := Schedule.sorted_of_next? orderly.sorted next
  have popped := Schedule.next?_of_alike orderly.sorted shown.alike next
    ((own?_eq_some_iff index _ own).mpr rfl)
  refine ⟨_, popped, rfl, ?_⟩
  simp only [Session.take]
  cases taken session.linting schedule.now (.member index own) with
  | nothing idle nobody same =>
    have nothing := nobody _ _ rfl
    rw [shown.member_eq] at nothing
    contradiction
  | begin isRun scheduled same => contradiction
  | finish isRun settled same => contradiction
  | member other turn member isMember known same =>
    obtain ⟨rfl, rfl⟩ := Turn.member.inj isMember
    obtain rfl := Option.some.inj (known.symm.trans shown.member_eq)
    rw [same]
    refine @follow_self { session with schedule := schedule } (.start session.linting) index
      { solo with schedule := schedule.project (ownPart index) } _ ?_ rfl sorted
      orderly.balanced (solo.member.conduct_take session.linting.toSetting schedule.now own)
    exact ⟨shown.member_eq, .refl _, shown.diagnostics_eq, le_refl _⟩

/-- Once the run has begun, a turn of anybody else is not seen. -/
theorem Shows.step_other
    {turn : SessionTurn}
    {schedule : Schedule SessionTurn}
    (shown : session.Shows index solo)
    (orderly : session.Orderly)
    (begun : session.linting.phase.isEarly = false)
    (next : session.schedule.next? = some (turn, schedule))
    (foreign : turn.own? index = none) :
    (({ session with schedule := schedule } : Session).take turn).Shows index solo := by
  have sorted := Schedule.sorted_of_next? orderly.sorted next
  have unseen : ({ session with schedule := schedule } : Session).Shows index solo :=
    ⟨shown.member_eq, Schedule.alike_of_next? orderly.sorted shown.alike next foreign,
      shown.diagnostics_eq, shown.now_le.trans (Schedule.now_le_of_next? next)⟩
  cases turn with
  | caller => exact unseen.resume
  | wakeCaller =>
    refine unseen.of_same rfl ?_ (fun _ => rfl) rfl
    exact .inl (congrArg Schedule.advance (Schedule.project_soon_of_unknown rfl))
  | linting turn =>
    simp only [Session.take]
    cases taken session.linting schedule.now turn with
    | nothing idle nobody same =>
      rw [same]
      exact unseen
    | begin isRun scheduled same =>
      rw [scheduled] at begun
      contradiction
    | finish isRun settled same =>
      rw [same]
      exact @Shows.follow_finish { session with schedule := schedule } (.start session.linting) index
        solo unseen sorted
    | member other own member isMember known same =>
      have different : other ≠ index := by
        rintro rfl
        rw [isMember, (own?_eq_some_iff other _ own).mpr rfl] at foreign
        contradiction
      rw [same]
      exact @follow_other { session with schedule := schedule } (.start session.linting) index
        solo other member _ unseen sorted orderly.balanced orderly.distinct different known
        (member.conduct_take session.linting.toSetting schedule.now own)

/-- Once the run has begun, a turn of the session is one of the solo, or it is not seen there. -/
theorem Shows.step
    {later : Session}
    (shown : session.Shows index solo)
    (orderly : session.Orderly)
    (begun : session.linting.phase.isEarly = false)
    (stepped : session.step? = some later) :
    ∃ next, later.Shows index next ∧
      (next = solo ∨ solo.step? session.linting.toSetting = some next) := by
  obtain ⟨⟨turn, schedule⟩, next, rfl⟩ := Option.map_eq_some_iff.mp stepped
  cases isOwn : turn.own? index with
  | none => exact ⟨solo, shown.step_other orderly begun next isOwn, .inl rfl⟩
  | some own =>
    obtain rfl := (own?_eq_some_iff index turn own).mp isOwn
    obtain ⟨alone, popped, -, showing⟩ := shown.step_own orderly next
    exact ⟨_, showing, .inr (Option.map_eq_some_iff.mpr ⟨_, popped, rfl⟩)⟩

end

/-- A run that has begun stays so, and the setting never changes. -/
theorem begun_step
    {session later : Session}
    (begun : session.linting.phase.isEarly = false)
    (stepped : session.step? = some later) :
    later.linting.phase.isEarly = false ∧
      later.linting.toSetting = session.linting.toSetting := by
  refine @linting_step session (fun linting => linting.phase.isEarly = false ∧
    linting.toSetting = session.linting.toSetting) later ?_ ?_ ?_ stepped ⟨begun, rfl⟩
  · intro linting kept
    simp only [Linting.start]
    split
    · exact kept
    · next unstarted =>
      have early : linting.phase = .unstarted := by simpa [isStarted] using unstarted
      rw [early] at kept
      exact absurd kept.1 (by simp [Phase.isEarly])
  · intro linting milestone observer kept
    simpa [Linting.subscribe] using kept
  · intro linting now turn kept
    exact ⟨isEarly_take kept.1 now turn, (setting_take linting now turn).trans kept.2⟩

/-- Once the run has begun, what a session shows goes on as a solo does. -/
theorem Shows.goOn
    {session : Session}
    {index : Nat}
    {solo : Solo}
    (shown : session.Shows index solo)
    (orderly : session.Orderly)
    (begun : session.linting.phase.isEarly = false)
    (turns : Nat) :
    ∃ last, (session.goOn turns).Shows index last ∧
      solo.Reaches session.linting.toSetting last := by
  induction turns generalizing session solo with
  | zero => exact ⟨solo, shown, .refl⟩
  | succ turns ih =>
    simp only [Session.goOn]
    split
    · next later stepped =>
      obtain ⟨next, showing, moved⟩ := shown.step orderly begun stepped
      obtain ⟨still, same⟩ := begun_step begun stepped
      obtain ⟨last, lastShown, path⟩ := ih showing (orderly.step stepped) still
      rw [same] at path
      refine ⟨last, lastShown, ?_⟩
      rcases moved with rfl | moved
      · exact path
      · exact .head moved path
    · exact ⟨solo, shown, .refl⟩

/-- When nothing can ever happen again, nothing can happen in a solo either. -/
theorem Shows.isExhausted
    {session : Session}
    {index : Nat}
    {solo : Solo}
    (shown : session.Shows index solo)
    (exhausted : session.IsExhausted)
    (setting : Setting) :
    solo.step? setting = none := by
  have spent := entries_eq_nil_of_step? exhausted
  have none : solo.schedule.entries = [] := by
    apply shown.alike.entries_eq_nil
    rw [ownSchedule, Schedule.entries_project, spent]
    rfl
  rw [Solo.step?, (Schedule.next?_eq_none_iff _).mpr none]
  rfl

end Session

end Linting
end MarkupLint
