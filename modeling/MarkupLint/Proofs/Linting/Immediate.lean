import MarkupLint.Proofs.Linting.Ending
import MarkupLint.Proofs.Linting.Hosting
import MarkupLint.Proofs.Linting.Invocation

/-!
# Instances that do everything at once

An instance that awaits nothing, and does not fail with what nobody handles, does all that it ever does
when it is invoked.  If all instances are of this kind, a run comes to its end in the turn in which it begins,
and its diagnostics are those that the scripts forecast.
-/

namespace MarkupLint

/-- A script does everything at once on a document: it awaits nothing, and does not fail with what nobody
handles. -/
structure Script.IsImmediate (document : Document) (script : Script) : Prop where
  awaited?_eq : script.awaited? = none
  contained : script.escape? document = none

/-- A script that awaits nothing, or ends before, lets its reporter be done unless what it does at once
ends with a failure that nobody handles. -/
theorem Script.isFinished_perform
    {document : Document}
    {script : Script}
    (contained : script.escape? document = none)
    (stopped : script.awaited? = none ∨ script.immediateEnding? document ≠ none)
    (now : Rat)
    (reporter : Reporter) :
    (script.perform document now reporter).reporter.isFinished = true := by
  rw [escape?, ← script.ending?_immediate document now reporter] at contained
  rw [← script.ending?_immediate document now reporter] at stopped
  cases ended : (Action.performAll document now (.start reporter) script.immediate).ending? with
  | none =>
    simp only [perform, ended, Option.bind_none, stopped.resolve_right fun goesOn => goesOn ended]
    exact Performance.isFinished_settle rfl now
  | some ending =>
    have settled := Performance.isFinished_settle (Option.isSome_of_mem ended) now
    rw [ended] at contained
    simpa only [perform, ended, contained] using settled

/-- A script that does everything at once lets its reporter be done. -/
theorem Script.IsImmediate.isFinished_perform
    {document : Document}
    {script : Script}
    (immediate : script.IsImmediate document)
    (now : Rat)
    (reporter : Reporter) :
    (script.perform document now reporter).reporter.isFinished = true :=
  Script.isFinished_perform immediate.contained (.inl immediate.awaited?_eq) now reporter

namespace Linting

/-- What a member is going to report if nothing keeps it from following its script. -/
def Member.forecast (document : Document) (member : Member) : List Diagnostic :=
  (member.script.prospect document member.reporter).diagnostics

/-- The diagnostics of a run whose members do everything at once, one member after the other. -/
def forecast (linting : Linting) : Collection :=
  ((linting.members.flatMap (·.forecast linting.document)).foldl Collection.accept
    linting.diagnostics).freeze

/-- All members do everything at once. -/
def IsImmediate (linting : Linting) : Prop :=
  ∀ member ∈ linting.members, member.script.IsImmediate linting.document

/-- A member that does everything at once is invoked: it is done, has reported what its script
forecasts, and needs no turn. -/
structure Member.Spent (document : Document) (member : Member) (course : Course) : Prop where
  finished : course.member.reporter.isFinished = true
  delivered_eq : delivered course.effects = member.forecast document
  turns_eq : course.turns = []

theorem Member.spent_invoke
    {setting : Setting}
    {member : Member}
    (untouched : member.Untouched)
    (immediate : member.script.IsImmediate setting.document)
    (now : Rat) :
    member.Spent setting.document (member.invoke setting now).1 := by
  obtain ⟨rule, index, script, rfl⟩ := untouched
  cases @entered (.new rule index script) Watch.noConfusion setting now with
  | launched performed steps performed_eq goesOn awaits member_eq turns_eq delivered_eq =>
    rw [immediate.awaited?_eq] at awaits
    contradiction
  | spent performed performed_eq member_eq turns_eq delivered_eq stopped =>
    refine ⟨?_, ?_, turns_eq⟩
    · rw [member_eq, performed_eq]
      exact immediate.isFinished_perform now _
    · rw [delivered_eq, performed_eq]
      exact congrArg (·.diagnostics)
        (Performance.prospect_eq_of_timeless (script.timeless_perform _ now 0 rfl))

/-- Whether an effect of a turn demands or takes away a turn. -/
def Effect.isTurn : Effect → Bool
  | soon _ => true
  | after _ _ => true
  | cancel _ => true
  | _ => false

namespace Progress

variable {progress : Progress}

/-- What a turn demands of the turns of the linting. -/
def turns (progress : Progress) : List Effect := progress.effects.filter Effect.isTurn

theorem turns_emit (progress : Progress) (effect : Effect) :
    (progress.emit effect).turns = progress.turns ++ [effect].filter Effect.isTurn :=
  List.filter_append _ _

/-- While members are being invoked, an effect of a member demands a turn of the linting only if it is a
turn of the member. -/
theorem turns_absorb
    {index : Nat}
    {effect : Member.Effect}
    (invoking : progress.linting.phase = .invoking)
    (turnless : effect.isTurn = false) :
    (absorb index progress effect).turns = progress.turns ∧
      (absorb index progress effect).linting.phase = .invoking := by
  cases effect with
  | delivered diagnostic => exact ⟨rfl, invoking⟩
  | log record => exact ⟨(turns_emit _ _).trans (List.append_nil _), invoking⟩
  | finished =>
    simp only [absorb, countDone]
    split
    · exact ⟨rfl, invoking⟩
    · simp only [log, linting_emit, linting_modify, invoking, reduceCtorEq, decide_false,
        Bool.and_false, Bool.false_eq_true, if_false, and_true]
      exact (turns_emit _ _).trans (List.append_nil _)
  | _ => contradiction

theorem turns_follow
    {index : Nat}
    {course : Member.Course}
    (invoking : progress.linting.phase = .invoking)
    (turnless : course.turns = []) :
    (progress.follow index course).turns = progress.turns := by
  have quiet : ∀ effect ∈ course.effects, effect.isTurn = false := by
    intro effect known
    have none := List.filter_eq_nil_iff.mp turnless effect known
    exact Bool.eq_false_iff.mpr none
  have folded : ∀ (effects : List Member.Effect) (progress : Progress),
      progress.linting.phase = .invoking → (∀ effect ∈ effects, effect.isTurn = false) →
        (effects.foldl (absorb index) progress).turns = progress.turns := by
    intro effects
    induction effects with
    | nil => exact fun _ _ _ => rfl
    | cons effect rest ih =>
      intro progress invoking quiet
      obtain ⟨same, still⟩ := @turns_absorb progress index effect invoking (quiet _ List.mem_cons_self)
      exact (ih _ still fun other known => quiet other (List.mem_cons_of_mem _ known)).trans same
  exact folded course.effects _ invoking quiet

end Progress

/-- Members have been invoked that do everything at once: they are done, their forecasts have been
accepted in order, and nothing has been demanded. -/
structure Entering.Through (before after : Progress) (linting : Linting) (indices : List Nat) :
    Prop where
  finished : ∀ index ∈ indices, ∀ member, after.linting.members[index]? = some member →
    member.reporter.isFinished = true
  diagnostics_eq : after.linting.diagnostics =
    ((indices.filterMap fun index => linting.members[index]?).flatMap
      (·.forecast linting.document)).foldl Collection.accept before.linting.diagnostics
  turns_eq : after.turns = before.turns

namespace Entering

variable {linting : Linting} {progress : Progress} {index : Nat} {now : Rat}

theorem through_invoke
    (entering : Entering linting progress)
    (untouched : progress.linting.members[index]? = linting.members[index]?)
    (early : ∀ member ∈ linting.members, member.Untouched)
    (immediate : linting.IsImmediate) :
    Through progress (progress.invoke index now).1 linting [index] := by
  cases progress.invoked index now with
  | nobody unknown same =>
    rw [same]
    refine ⟨?_, ?_, rfl⟩
    · intro other known member found
      rw [List.mem_singleton.mp known, unknown] at found
      contradiction
    · simp [← untouched, unknown]
  | member member record known same =>
    have held := List.mem_of_getElem? (untouched ▸ known)
    have document_eq : progress.linting.document = linting.document :=
      congrArg Setting.document entering.setting_eq
    have spent := @Member.spent_invoke progress.linting.toSetting member (early member held)
      (document_eq ▸ immediate member held) now
    have followed := @Progress.followed_follow (progress.emit (.invoked index record)) index member _
      known (member.conduct_invoke progress.linting.toSetting now)
    rw [same]
    refine ⟨?_, ?_, ?_⟩
    · intro other found member last
      rw [List.mem_singleton.mp found, followed.members_eq, List.getElem?_set_self] at last
      · cases last
        exact spent.finished
      · exact (List.getElem?_eq_some_iff.mp known).1
    · rw [followed.diagnostics_eq, spent.delivered_eq, document_eq]
      simp [← untouched, known]
    · refine (Progress.turns_follow ?_ spent.turns_eq).trans ?_
      · exact entering.invoking
      · exact (Progress.turns_emit _ _).trans (List.append_nil _)

theorem members_invokeAll
    {indices : List Nat}
    (others : index ∉ indices)
    (progress : Progress)
    (now : Rat) :
    (progress.invokeAll now indices).1.linting.members[index]? = progress.linting.members[index]? := by
  induction indices generalizing progress with
  | nil => rfl
  | cons first rest ih =>
    have apart := List.ne_and_not_mem_of_not_mem_cons others
    have begun := members_invoke apart.1.symm progress now
    simp only [Progress.invokeAll]
    split
    · exact (ih apart.2 _).trans begun
    · exact begun

/-- Members are invoked one after another. -/
theorem through_invokeAll
    {indices : List Nat}
    (entering : Entering linting progress)
    (once : indices.Nodup)
    (untouched : ∀ other ∈ indices, progress.linting.members[other]? = linting.members[other]?)
    (early : ∀ member ∈ linting.members, member.Untouched)
    (immediate : linting.IsImmediate) :
    (progress.invokeAll now indices).2 = none ∧
      Through progress (progress.invokeAll now indices).1 linting indices := by
  have goes : ∀ index, linting.goesOn now index = true := by
    intro index
    rw [goesOn_iff]
    exact fun member known => (immediate member (List.mem_of_getElem? known)).contained
  refine ⟨?_, ?_⟩
  · rw [← Option.isNone_iff_eq_none, entering.invokeAll_snd once untouched, List.all_eq_true]
    exact fun index _ => goes index
  induction indices generalizing progress with
  | nil => exact ⟨by simp, rfl, rfl⟩
  | cons first rest ih =>
    rw [List.nodup_cons] at once
    have begun := entering.goesOn_eq (untouched first List.mem_cons_self) now
    rw [goes] at begun
    have head := @through_invoke linting progress first now entering
      (untouched first List.mem_cons_self) early immediate
    have tail := ih (entering.invoke first now) once.2 fun other known => by
      rw [members_invoke_of_mem once.1 known]
      exact untouched other (List.mem_cons_of_mem _ known)
    simp only [Progress.invokeAll, begun, if_true]
    refine ⟨?_, ?_, tail.turns_eq.trans head.turns_eq⟩
    · intro index known member found
      rcases List.mem_cons.mp known with rfl | known
      · refine head.finished index List.mem_cons_self member ?_
        rw [← found]
        exact (members_invokeAll once.1 _ now).symm
      · exact tail.finished index known member found
    · rw [tail.diagnostics_eq, head.diagnostics_eq]
      simp only [List.filterMap_cons, List.filterMap_nil]
      cases linting.members[first]? with
      | none => rfl
      | some member =>
        simp only [List.flatMap_cons, List.flatMap_nil, List.append_nil, List.foldl_append]

end Entering

theorem Progress.turns_finish (progress : Progress) : progress.finish.turns = progress.turns := by
  have called : ∀ (labels : List String) (progress : Progress),
      (progress.called labels).turns = progress.turns := by
    intro labels progress
    rw [turns, effects_called, List.filter_append]
    refine (congrArg _ (List.filter_eq_nil_iff.mpr fun effect known => ?_)).trans (List.append_nil _)
    obtain ⟨label, -, rfl⟩ := List.mem_map.mp known
    exact Bool.false_ne_true
  simp only [finish]
  split <;>
    exact (turns_emit _ _).trans ((List.append_nil _).trans
      ((called _ _).trans ((turns_emit _ _).trans (List.append_nil _))))

/-- A run has come to its end with a collection of diagnostics. -/
structure EndedWith (linting : Linting) (diagnostics : Collection) : Prop where
  closed : linting.phase.isClosed = true
  diagnostics_eq : linting.diagnostics = diagnostics
  state_eq : linting.state = diagnostics.state

/-- A run whose members do everything at once comes to its end in the turn in which it begins: with
the diagnostics that are forecast, and without demanding another turn. -/
theorem endedWith_begin
    {linting : Linting}
    (balanced : Balanced linting)
    (scheduled : linting.phase = .scheduled)
    (immediate : linting.IsImmediate)
    (now : Rat) :
    ((Progress.start linting).begin now).linting.EndedWith linting.forecast ∧
      ((Progress.start linting).begin now).turns = [] := by
  have entering := Entering.enter balanced scheduled
  have early : ∀ member ∈ linting.members, member.Untouched :=
    balanced.untouched (by rw [scheduled]; rfl)
  obtain ⟨goes, through⟩ := @Entering.through_invokeAll linting (Progress.start linting).enter now
    (List.range linting.members.length) entering List.nodup_range (fun _ _ => rfl) early immediate
  have entered := entering.invokeAll now (List.range linting.members.length)
  have every : (List.range linting.members.length).filterMap (fun index => linting.members[index]?) =
      linting.members := by
    have mapped := filterMap_getElem?_range linting.members id
    simpa using mapped
  have diagnostics_eq := through.diagnostics_eq
  rw [every] at diagnostics_eq
  have turns_eq : ((Progress.start linting).invokeEvery now).1.turns = [] := through.turns_eq
  have unfinished : ((Progress.start linting).invokeEvery now).1.linting.unfinished = 0 := by
    refine List.countP_eq_zero.mpr fun member held => ?_
    obtain ⟨index, found⟩ := List.mem_iff_getElem?.mp held
    have length_eq := congrArg List.length entered.keys_eq
    simp only [keys, List.length_map] at length_eq
    have bound : index < linting.members.length :=
      length_eq ▸ (List.getElem?_eq_some_iff.mp found).1
    simp [through.finished index (List.mem_range.mpr bound) member found]
  have spent : ((Progress.start linting).invokeEvery now).1.linting.pending = 0 := by
    have counted := entered.balanced.counted (by rw [entered.invoking]; rfl)
    exact counted.trans (by exact_mod_cast unfinished)
  cases (Progress.start linting).begun now with
  | stopped failure stops same =>
    rw [show ((Progress.start linting).invokeEvery now).2 = none from goes] at stops
    contradiction
  | waiting goesOn some same =>
    rw [spent] at some
    exact absurd some (lt_irrefl 0)
  | finished goesOn none same =>
    rw [same]
    refine ⟨⟨?_, ?_, ?_⟩, (Progress.turns_finish _).trans turns_eq⟩
    · rw [Progress.linting_finish]
      exact Progress.isClosed_outcomeOf _ _
    · rw [Progress.linting_finish]
      exact congrArg Collection.freeze diagnostics_eq
    · rw [Progress.linting_finish]
      exact congrArg (·.freeze.state) diagnostics_eq

/-- A run whose members do everything at once has not begun, or has come to its end. -/
structure Prompt (linting : Linting) (diagnostics : Collection) : Prop where
  immediate : linting.phase.isEarly = true → linting.IsImmediate ∧ linting.forecast = diagnostics
  ended : linting.phase.isEarly = false → linting.EndedWith diagnostics

theorem Prompt.endedWith
    {linting : Linting}
    {diagnostics : Collection}
    (prompt : linting.Prompt diagnostics)
    (closed : linting.phase.isClosed = true) :
    linting.EndedWith diagnostics := by
  obtain ⟨outcome, ended⟩ := Phase.exists_ended_of_isClosed closed
  refine prompt.ended ?_
  rw [ended]
  rfl

theorem Prompt.take
    {linting : Linting}
    {diagnostics : Collection}
    (prompt : linting.Prompt diagnostics)
    (balanced : Balanced linting)
    (now : Rat)
    (turn : Turn) :
    (linting.take now turn).linting.Prompt diagnostics := by
  cases early : linting.phase.isEarly with
  | true =>
    obtain ⟨immediate, forecast_eq⟩ := prompt.immediate early
    rcases linting_take_of_isEarly balanced early now turn with ⟨scheduled, -, same⟩ | same
    · have ended := (endedWith_begin balanced scheduled immediate now).1
      rw [forecast_eq] at ended
      rw [same]
      refine ⟨fun still => ?_, fun _ => ended⟩
      rw [isEarly_begin] at still
      contradiction
    · rw [same]
      exact prompt
  | false =>
    obtain ⟨closed, diagnostics_eq, state_eq⟩ := prompt.ended early
    obtain ⟨state_same, diagnostics_same, phase_same⟩ :=
      balanced.same_of_isClosed closed (.take now turn)
    simp only [move] at state_same diagnostics_same phase_same
    refine ⟨fun still => ?_, fun _ => ⟨?_, ?_, ?_⟩⟩
    · rw [phase_same, early] at still
      contradiction
    · rw [phase_same, closed]
    · rw [diagnostics_same, diagnostics_eq]
    · rw [state_same, state_eq]

end Linting
end MarkupLint
