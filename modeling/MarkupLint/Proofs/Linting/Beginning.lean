import MarkupLint.Proofs.Linting.Showing

/-!
# How a run begins

The members are invoked one after another until one of them stops the run.  Each of those that are
invoked begins as it does on its own, at the same instant, whatever the others do.
-/

namespace MarkupLint
namespace Linting

/-- Whether the run goes on behind the member with an index when that is invoked at an instant. -/
def goesOn (linting : Linting) (now : Rat) (index : Nat) : Bool :=
  ((Progress.start linting).invoke index now).2.isNone

/-- Those that are invoked when members are invoked until the run does not go on behind one. -/
def callees (goesOn : Nat → Bool) : List Nat → List Nat
  | [] => []
  | index :: rest => index :: if goesOn index then callees goesOn rest else []

theorem mem_callees_cons {goesOn : Nat → Bool} {first index : Nat} {rest : List Nat} :
    index ∈ callees goesOn (first :: rest) ↔
      index = first ∨ goesOn first = true ∧ index ∈ callees goesOn rest := by
  rw [callees, List.mem_cons]
  split
  · next goes => simp [goes]
  · next stops => simp [stops]

theorem callees_eq_self
    {goesOn : Nat → Bool}
    {indices : List Nat}
    (all : ∀ index ∈ indices, goesOn index = true) :
    callees goesOn indices = indices := by
  induction indices with
  | nil => rfl
  | cons first rest ih =>
    have others : ∀ index ∈ rest, goesOn index = true :=
      fun index known => all index (List.mem_cons_of_mem _ known)
    simp only [callees, all first List.mem_cons_self, if_true, ih others]

/-- The members that are invoked when the run begins at an instant, in order. -/
def invokees (linting : Linting) (now : Rat) : List Nat :=
  callees (linting.goesOn now) (List.range linting.members.length)

/-- A linting whose members are being invoked, compared with the linting before. -/
structure Entering (linting : Linting) (progress : Progress) : Prop where
  balanced : Balanced progress.linting
  invoking : progress.linting.phase = .invoking
  keys_eq : progress.linting.keys = linting.keys
  setting_eq : progress.linting.toSetting = linting.toSetting

namespace Entering

variable {linting : Linting} {progress : Progress}

theorem enter (balanced : Balanced linting) (scheduled : linting.phase = .scheduled) :
    Entering linting (Progress.start linting).enter where
  balanced := @Progress.balanced_enter (.start linting) balanced scheduled
  invoking := rfl
  keys_eq := rfl
  setting_eq := rfl

theorem invoke (entering : Entering linting progress) (index : Nat) (now : Rat) :
    Entering linting (progress.invoke index now).1 where
  balanced := (Progress.balanced_invoke entering.balanced entering.invoking).1
  invoking := (Progress.balanced_invoke entering.balanced entering.invoking).2
  keys_eq := (keys_invoke progress index now).trans entering.keys_eq
  setting_eq := Progress.keeps_invoke.setting_eq.trans entering.setting_eq

theorem invokeAll (entering : Entering linting progress) (now : Rat) (indices : List Nat) :
    Entering linting (progress.invokeAll now indices).1 :=
  Progress.invokeAll_induction (fun _ index kept => kept.invoke index now) entering indices

/-- Invoking a member leaves the others alone. -/
theorem members_invoke
    {index other : Nat}
    (different : other ≠ index)
    (progress : Progress)
    (now : Rat) :
    (progress.invoke other now).1.linting.members[index]? = progress.linting.members[index]? := by
  cases progress.invoked other now with
  | nobody unknown same => rw [same]
  | member member record known same =>
    have conduct := member.conduct_invoke progress.linting.toSetting now
    have followed := @Progress.followed_follow (progress.emit (.invoked other record)) other member _
      known conduct
    rw [same, followed.members_eq, List.getElem?_set_ne different]
    rfl

/-- Invoking the first of some members leaves the others alone. -/
theorem members_invoke_of_mem
    {first index : Nat}
    {rest : List Nat}
    (once : first ∉ rest)
    (later : index ∈ rest)
    (progress : Progress)
    (now : Rat) :
    (progress.invoke first now).1.linting.members[index]? = progress.linting.members[index]? :=
  members_invoke (ne_of_mem_of_not_mem later once).symm progress now

/-- Whether the run goes on behind a member does not depend on those that were invoked before. -/
theorem goesOn_eq
    {index : Nat}
    (entering : Entering linting progress)
    (untouched : progress.linting.members[index]? = linting.members[index]?)
    (now : Rat) :
    (progress.invoke index now).2.isNone = linting.goesOn now index := by
  simp only [goesOn, Progress.invoke, Progress.member?, Progress.linting_start, untouched,
    entering.setting_eq]
  split <;> rfl

section

variable {session : Session} {index : Nat} {solo : Solo}

/-- Invoking another member is not seen. -/
theorem shows_invoke_other
    {other : Nat}
    (entering : Entering linting progress)
    (shown : (session.follow progress).Shows index solo)
    (sorted : session.schedule.Sorted)
    (distinct : linting.keys.Nodup)
    (different : other ≠ index)
    (now : Rat) :
    (session.follow (progress.invoke other now).1).Shows index solo ∧
      (session.follow (progress.invoke other now).1).ownSchedule index =
        (session.follow progress).ownSchedule index := by
  cases progress.invoked other now with
  | nobody unknown same =>
    rw [same]
    exact ⟨shown, rfl⟩
  | member member record known same =>
    have conduct := member.conduct_invoke progress.linting.toSetting now
    have noted : (session.follow (progress.emit (.invoked other record))).Shows index solo :=
      shown.follow_foreign sorted rfl rfl rfl fun _ => rfl
    rw [same]
    refine ⟨?_, ?_⟩
    · refine noted.follow_other sorted entering.balanced ?_ different known conduct
      rw [Progress.linting_emit, entering.keys_eq]
      exact distinct
    · rw [Session.ownSchedule_follow_follow sorted, if_neg different]
      exact Session.ownSchedule_follow_emit sorted rfl index

/-- A member that is invoked begins as it does on its own. -/
theorem shows_invoke_self
    (entering : Entering linting progress)
    (shown : (session.follow progress).Shows index solo)
    (schedule_eq : (session.follow progress).ownSchedule index = solo.schedule)
    (sorted : session.schedule.Sorted)
    (now : Rat) :
    (session.follow (progress.invoke index now).1).Shows index
      (solo.follow (solo.member.invoke linting.toSetting now).1) := by
  have known := shown.member_eq
  rw [Session.linting_follow] at known
  cases progress.invoked index now with
  | nobody unknown same =>
    rw [known] at unknown
    contradiction
  | member member record found same =>
    have isMember : member = solo.member := Option.some.inj (found.symm.trans known)
    subst isMember
    have noted : (session.follow (progress.emit (.invoked index record))).Shows index solo :=
      shown.follow_foreign sorted rfl rfl rfl fun _ => rfl
    rw [same, entering.setting_eq]
    refine noted.follow_self ?_ sorted entering.balanced (solo.member.conduct_invoke _ now)
    rw [Session.ownSchedule_follow_emit sorted rfl, schedule_eq]

theorem shows_invokeAll_others
    {indices : List Nat}
    (entering : Entering linting progress)
    (shown : (session.follow progress).Shows index solo)
    (sorted : session.schedule.Sorted)
    (distinct : linting.keys.Nodup)
    (others : index ∉ indices)
    (now : Rat) :
    (session.follow (progress.invokeAll now indices).1).Shows index solo := by
  induction indices generalizing progress with
  | nil => exact shown
  | cons first rest ih =>
    rw [List.mem_cons, not_or] at others
    have later := (entering.shows_invoke_other shown sorted distinct (Ne.symm others.1) now).1
    simp only [Progress.invokeAll]
    split
    · exact ih (entering.invoke first now) later others.2
    · exact later

/-- When members are invoked one after another, those that are begin as they do on their own. -/
theorem shows_invokeAll
    {indices : List Nat}
    (entering : Entering linting progress)
    (shown : (session.follow progress).Shows index solo)
    (schedule_eq : (session.follow progress).ownSchedule index = solo.schedule)
    (sorted : session.schedule.Sorted)
    (distinct : linting.keys.Nodup)
    (once : indices.Nodup)
    (untouched : ∀ other ∈ indices,
      progress.linting.members[other]? = linting.members[other]?)
    (now : Rat) :
    (index ∈ callees (linting.goesOn now) indices →
        (session.follow (progress.invokeAll now indices).1).Shows index
          (solo.follow (solo.member.invoke linting.toSetting now).1)) ∧
      (index ∉ callees (linting.goesOn now) indices →
        (session.follow (progress.invokeAll now indices).1).Shows index solo) := by
  induction indices generalizing progress with
  | nil => exact ⟨fun called => absurd called List.not_mem_nil, fun _ => shown⟩
  | cons first rest ih =>
    rw [List.nodup_cons] at once
    have goes := entering.goesOn_eq (untouched first List.mem_cons_self) now
    rw [mem_callees_cons]
    simp only [Progress.invokeAll, goes]
    by_cases same : first = index
    · subst same
      have began := entering.shows_invoke_self shown schedule_eq sorted now
      refine ⟨fun _ => ?_, fun spared => absurd (.inl rfl) spared⟩
      split
      · exact (entering.invoke first now).shows_invokeAll_others began sorted distinct once.1 now
      · exact began
    · obtain ⟨still, schedule_same⟩ := entering.shows_invoke_other shown sorted distinct same now
      simp only [Ne.symm same, false_or]
      split
      · next goes =>
        simp only [goes, true_and]
        apply ih (entering.invoke first now) still (schedule_same.trans schedule_eq) once.2
        intro other known
        rw [members_invoke_of_mem once.1 known]
        exact untouched other (List.mem_cons_of_mem _ known)
      · next stops => exact ⟨fun called => absurd called.1 stops, fun _ => still⟩

end
end Entering

namespace Session

/-- When the run begins, the members that are invoked begin as they do on their own, and the others
are left alone. -/
theorem Shows.begin
    {session : Session}
    {index : Nat}
    {solo : Solo}
    (shown : session.Shows index solo)
    (schedule_eq : session.ownSchedule index = solo.schedule)
    (orderly : session.Orderly)
    (scheduled : session.linting.phase = .scheduled)
    (now : Rat) :
    let after := session.follow ((Progress.start session.linting).begin now)
    (index ∈ session.linting.invokees now →
        after.Shows index (solo.follow (solo.member.invoke session.linting.toSetting now).1)) ∧
      (index ∉ session.linting.invokees now → after.Shows index solo) := by
  intro after
  have sorted := orderly.sorted
  have entering := Entering.enter orderly.balanced scheduled
  have entered : (session.follow (Progress.start session.linting).enter).Shows index solo :=
    shown.of_same rfl (.refl _) (fun _ => rfl) rfl
  have once : (List.range session.linting.members.length).Nodup := List.nodup_range
  have every := entering.shows_invokeAll entered schedule_eq sorted orderly.distinct once
    (fun _ _ => rfl) now
  have closing : ∀ solo,
      (session.follow ((Progress.start session.linting).invokeEvery now).1).Shows index solo →
        after.Shows index solo := by
    intro solo invoked
    cases (Progress.start session.linting).begun now with
    | stopped failure stops same =>
      simp only [after, same]
      exact invoked.follow_foreign sorted rfl rfl rfl fun _ => rfl
    | waiting goesOn some same =>
      simp only [after, same]
      exact invoked.follow_foreign sorted (List.append_nil _).symm rfl rfl fun _ => rfl
    | finished goesOn none same =>
      simp only [after, same]
      exact invoked.follow_finish sorted
  exact ⟨fun called => closing _ (every.1 called), fun spared => closing _ (every.2 spared)⟩

end Session
end Linting
end MarkupLint
