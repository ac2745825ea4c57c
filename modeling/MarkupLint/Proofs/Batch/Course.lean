import MarkupLint.Proofs.Batch.Stage
import MarkupLint.Proofs.Linting.Hosting

/-!
# What holds while a batch goes on

While a batch takes its turns, the watchers wait for the ends of the lintings: as many lintings have
been counted as ended with errors as did, and each linting that has come to its end has been shown
once, as it is.  Unless the run of a linting can be stopped, the turns that the lintings need are ready.
-/

namespace MarkupLint
namespace Batch

open Linting (Balanced Heeded)

/-- The labels of the watchers that wait for the end of a linting. -/
def watchers (isShown : Bool) : List String :=
  Watcher.tally.label :: if isShown then [Watcher.display.label] else []

/-- One of the watchers counts the linting if that ended with errors. -/
theorem countP_isTallied (isShown : Bool) (state : LintState) (size : Nat) :
    ((watchers isShown).map (⟨·, state, size⟩)).countP isTallied =
      if state = .error then 1 else 0 := by
  cases isShown <;> simp [watchers, isTallied, Watcher.label, List.countP_cons]

/-- One of the watchers shows the linting if lintings are shown. -/
theorem shownBy_watchers
    {batch : Batch}
    {index : Nat}
    {linting : Linting}
    (known : batch.lintings[index]? = some linting)
    (isShown : Bool)
    (state : LintState)
    (size : Nat) :
    batch.shownBy index ((watchers isShown).map (⟨·, state, size⟩)) =
      if isShown then [(index, linting)] else [] := by
  cases isShown <;> simp [shownBy, watchers, isDisplayed, Watcher.label, known]

/-- What a turn of the batch itself lets alone. -/
structure Apart (before after : Batch) : Prop where
  precision_eq : after.precision = before.precision
  isShown_eq : after.isShown = before.isShown
  lintings_eq : after.lintings = before.lintings
  skipped_eq : after.skipped = before.skipped
  errorCount_eq : after.errorCount = before.errorCount
  shown_eq : after.shown = before.shown
  timers_eq : after.schedule.timers = before.schedule.timers
  ready : before.schedule.ready <+: after.schedule.ready

theorem Apart.soon
    {before after : Batch}
    (apart : Apart before after)
    (turn : Turn) :
    Apart before (after.soon turn) := by
  refine ⟨apart.precision_eq, apart.isShown_eq, apart.lintings_eq, apart.skipped_eq,
    apart.errorCount_eq, apart.shown_eq, apart.timers_eq, apart.ready.trans ?_⟩
  simp only [Batch.soon, Schedule.ready_soon]
  exact List.prefix_append _ _

theorem apart_take {turn : Turn} (isOwn : turn.isOwn = true) (batch : Batch) :
    Apart batch (batch.take turn) := by
  have alone : ∀ (awaited : List Nat) (settled : Nat)
      (closing? : Option (Except Linting.Refusal Unit)) (isOver : Bool) (logs : List LogRecord),
      Apart batch { batch with
        awaited := awaited, settled := settled, closing? := closing?, isOver := isOver, logs := logs } :=
    fun _ _ _ _ _ => ⟨rfl, rfl, rfl, rfl, rfl, rfl, rfl, List.prefix_rfl⟩
  cases turn with
  | linting index turn => contradiction
  | opened => exact (alone _ _ _ _ _).soon _
  | gather =>
    simp only [take, gather]
    split
    · exact (alone _ _ _ _ _).soon _
    · obtain ⟨schedule, same, ready, timers, -⟩ := foldl_soon_wait batch _
      rw [same]
      exact ⟨rfl, rfl, rfl, rfl, rfl, rfl, timers, ready⟩
  | wait index =>
    simp only [take, wait]
    split
    · exact (alone _ _ _ _ _).soon _
    · exact alone _ _ _ _ _
  | settle index =>
    simp only [take, settle]
    split
    · exact alone _ _ _ _ _
    · split
      · exact (alone _ _ _ _ _).soon _
      · split
        · exact (alone _ _ _ _ _).soon _
        · exact alone _ _ _ _ _
  | conclude => exact alone _ _ _ _ _

/-- What a turn of a batch does: a linting takes a turn, or the lintings are let alone. -/
inductive Taken (batch : Batch) (turn : Turn) (after : Batch) : Prop where
  | apart
      (isOwn : turn.isOwn = true)
      (apart : Apart batch after)
  | followed
      (index : Nat)
      (own : Linting.Turn)
      (linting : Linting)
      (isLinting : turn = .linting index own)
      (known : batch.lintings[index]? = some linting)
      (same : after = batch.follow index (linting.take batch.schedule.now own))
  | nothing
      (index : Nat)
      (own : Linting.Turn)
      (isLinting : turn = .linting index own)
      (unknown : batch.lintings[index]? = none)
      (same : after = batch)

theorem taken (batch : Batch) (turn : Turn) : Taken batch turn (batch.take turn) := by
  cases isOwn : turn.isOwn with
  | true => exact .apart isOwn (apart_take isOwn batch)
  | false =>
    cases turn with
    | linting index own =>
      simp only [take]
      split
      · next linting known => exact .followed index own linting rfl known rfl
      · next unknown => exact .nothing index own rfl unknown rfl
    | _ => contradiction

/-- A linting of a batch: it has been started, and the watchers wait for its end. -/
structure Watched (batch : Batch) (linting : Linting) : Prop where
  balanced : Balanced linting
  started : linting.isStarted = true
  heeded : Heeded (watchers batch.isShown) linting

theorem Watched.congr
    {batch after : Batch}
    {linting : Linting}
    (watched : batch.Watched linting)
    (isShown_eq : after.isShown = batch.isShown) :
    after.Watched linting where
  balanced := watched.balanced
  started := watched.started
  heeded := isShown_eq ▸ watched.heeded

theorem Watched.take
    {batch : Batch}
    {linting : Linting}
    (watched : batch.Watched linting)
    (now : Rat)
    (turn : Linting.Turn) :
    batch.Watched (linting.take now turn).linting where
  balanced := watched.balanced.take now turn
  started := by
    rw [Linting.isStarted_take watched.balanced]
    exact watched.started
  heeded := watched.heeded.take now turn

/-- Each linting that has come to its end has been shown once, as it is, if lintings are shown. -/
structure Exhibits (batch : Batch) : Prop where
  once : (batch.shown.map (·.1)).Nodup
  lasting : ∀ entry ∈ batch.shown, ∃ linting, batch.lintings[entry.1]? = some linting ∧
    linting.phase.isClosed = true ∧ entry.2.verdict = linting.verdict
  complete : batch.isShown = true → ∀ (index : Nat) (linting : Linting),
    batch.lintings[index]? = some linting → linting.phase.isClosed = true →
      index ∈ batch.shown.map (·.1)

/-- What a batch has noted of its lintings between any two turns. -/
structure Noted (batch : Batch) : Prop where
  watched : ∀ linting ∈ batch.lintings, batch.Watched linting
  errorCount_eq : batch.errorCount = batch.lintings.countP (·.state = .error)
  exhibits : batch.Exhibits

/-- The watchers count a linting in the turn in which it comes to its end. -/
theorem errorCount_follow
    {batch : Batch}
    {index : Nat}
    {linting : Linting}
    {turn : Linting.Turn}
    (balanced : Balanced linting)
    (heeded : Heeded (watchers batch.isShown) linting)
    (known : batch.lintings[index]? = some linting)
    (counted : batch.errorCount = batch.lintings.countP (·.state = .error))
    (now : Rat) :
    (batch.follow index (linting.take now turn)).errorCount =
      (batch.follow index (linting.take now turn)).lintings.countP (·.state = .error) := by
  have absorbed := batch.absorbed_follow index (linting.take now turn)
  obtain ⟨bound, same⟩ := List.getElem?_eq_some_iff.mp known
  rw [absorbed.errorCount_eq, absorbed.lintings_eq, List.countP_set bound, same]
  change batch.errorCount + _ = _
  rw [counted, heeded.observed_take now turn]
  by_cases ends : linting.phase.isClosed = false ∧
      (linting.take now turn).linting.phase.isClosed = true
  · have passed : linting.state ≠ .error := by
      intro failed
      have terminal := balanced.isTerminal_eq
      rw [failed, ends.1] at terminal
      contradiction
    rw [ends.1, ends.2, Bool.not_false, Bool.true_and, if_pos rfl, countP_isTallied]
    simp [passed]
  · have same_closed : (linting.take now turn).linting.phase.isClosed = linting.phase.isClosed := by
      cases before : linting.phase.isClosed with
      | false => simpa [before] using ends
      | true =>
        obtain ⟨outcome, ended⟩ := Linting.Phase.exists_ended_of_isClosed before
        rw [Linting.phase_take_of_ended ended, ← ended, before]
    rw [same_closed, Bool.not_and_self, balanced.state_take same_closed]
    by_cases failed : linting.state = .error
    · have some : 0 < batch.lintings.countP (·.state = .error) :=
        List.countP_pos_iff.mpr ⟨linting, List.mem_of_getElem? known, by simpa using failed⟩
      simp only [failed, decide_true, if_true, Bool.false_eq_true, if_false, List.countP_nil]
      omega
    · simp [failed]

/-- The watchers show a linting in the turn in which it comes to its end. -/
theorem shown_follow
    {batch : Batch}
    {index : Nat}
    {linting : Linting}
    {turn : Linting.Turn}
    (heeded : Heeded (watchers batch.isShown) linting)
    (known : batch.lintings[index]? = some linting)
    (now : Rat) :
    (batch.follow index (linting.take now turn)).shown = batch.shown ++
      if linting.phase.isClosed = false ∧ (linting.take now turn).linting.phase.isClosed = true ∧
        batch.isShown = true then [(index, (linting.take now turn).linting)] else [] := by
  obtain ⟨bound, -⟩ := List.getElem?_eq_some_iff.mp known
  rw [(batch.absorbed_follow index (linting.take now turn)).shown_eq, heeded.observed_take now turn]
  by_cases ends : (!linting.phase.isClosed &&
      (linting.take now turn).linting.phase.isClosed) = true
  · rw [if_pos ends, shownBy_watchers (List.getElem?_set_self bound)]
    simp only [Bool.and_eq_true, Bool.not_eq_true'] at ends
    simp [ends.1, ends.2]
  · rw [if_neg ends, if_neg]
    · rfl
    · rintro ⟨opened, closed, -⟩
      simp [opened, closed] at ends

/-- A linting that has not come to its end has not been shown. -/
theorem Exhibits.not_mem_shown
    {batch : Batch}
    {index : Nat}
    {linting : Linting}
    (exhibits : batch.Exhibits)
    (known : batch.lintings[index]? = some linting)
    (opened : linting.phase.isClosed = false) :
    index ∉ batch.shown.map (·.1) := by
  intro held
  obtain ⟨entry, held, same⟩ := List.mem_map.mp held
  obtain ⟨seen, found, closed, -⟩ := exhibits.lasting entry held
  rw [same, known] at found
  cases found
  rw [opened] at closed
  contradiction

theorem getElem?_follow
    {batch : Batch}
    {index : Nat}
    {linting : Linting}
    (known : batch.lintings[index]? = some linting)
    (progress : Linting.Progress)
    (other : Nat) :
    (batch.follow index progress).lintings[other]? =
      if index = other then some progress.linting else batch.lintings[other]? := by
  obtain ⟨bound, -⟩ := List.getElem?_eq_some_iff.mp known
  rw [(batch.absorbed_follow index progress).lintings_eq, List.getElem?_set, if_pos bound]

/-- What has been shown of lintings stays true of them. -/
theorem Exhibits.lasting_follow
    {batch : Batch}
    {index : Nat}
    {linting : Linting}
    (exhibits : batch.Exhibits)
    (balanced : Balanced linting)
    (known : batch.lintings[index]? = some linting)
    (now : Rat)
    (turn : Linting.Turn) :
    ∀ entry ∈ batch.shown, ∃ after,
      (batch.follow index (linting.take now turn)).lintings[entry.1]? = some after ∧
        after.phase.isClosed = true ∧ entry.2.verdict = after.verdict := by
  intro entry held
  obtain ⟨seen, found, closed, verdict_eq⟩ := exhibits.lasting entry held
  rw [getElem?_follow known]
  split
  · next here =>
    rw [← here, known] at found
    cases found
    obtain ⟨outcome, ended⟩ := Linting.Phase.exists_ended_of_isClosed closed
    refine ⟨_, rfl, ?_, verdict_eq.trans (balanced.verdict_take closed now turn).symm⟩
    rw [Linting.phase_take_of_ended ended, ← ended, closed]
  · exact ⟨seen, found, closed, verdict_eq⟩

/-- A linting that comes to its end has not been shown before. -/
theorem Exhibits.follow
    {batch : Batch}
    {index : Nat}
    {linting : Linting}
    {turn : Linting.Turn}
    (exhibits : batch.Exhibits)
    (balanced : Balanced linting)
    (heeded : Heeded (watchers batch.isShown) linting)
    (known : batch.lintings[index]? = some linting)
    (now : Rat) :
    (batch.follow index (linting.take now turn)).Exhibits := by
  have isShown_eq := (batch.absorbed_follow index (linting.take now turn)).isShown_eq
  have lintings_eq := getElem?_follow known (linting.take now turn)
  have lasting := exhibits.lasting_follow balanced known now turn
  have shown_eq := @shown_follow batch index linting turn heeded known now
  split at shown_eq
  · next ends =>
    refine ⟨?_, ?_, fun _ other after found closed => ?_⟩
    · rw [shown_eq, List.map_append, List.map_singleton]
      exact List.nodup_append_comm.mp
        (List.nodup_cons.mpr ⟨exhibits.not_mem_shown known ends.1, exhibits.once⟩)
    · intro entry held
      rw [shown_eq] at held
      rcases List.mem_append.mp held with early | new
      · exact lasting entry early
      · rw [List.mem_singleton.mp new, lintings_eq, if_pos rfl]
        exact ⟨_, rfl, ends.2.1, rfl⟩
    · rw [shown_eq, List.map_append]
      rw [lintings_eq] at found
      split at found
      · next here =>
        rw [← here]
        exact List.mem_append_right _ List.mem_cons_self
      · exact List.mem_append_left _ (exhibits.complete ends.2.2 other after found closed)
  · next goes =>
    rw [List.append_nil] at shown_eq
    refine ⟨shown_eq ▸ exhibits.once, shown_eq ▸ lasting, fun isShown other after found closed => ?_⟩
    rw [isShown_eq] at isShown
    rw [shown_eq]
    rw [lintings_eq] at found
    split at found
    · next here =>
      cases found
      subst here
      refine exhibits.complete isShown index linting known (Bool.of_not_eq_false fun opened => ?_)
      exact goes ⟨opened, closed, isShown⟩
    · exact exhibits.complete isShown other after found closed

namespace Noted

variable {batch after : Batch}

theorem congr
    (noted : batch.Noted)
    (isShown_eq : after.isShown = batch.isShown)
    (lintings_eq : after.lintings = batch.lintings)
    (errorCount_eq : after.errorCount = batch.errorCount)
    (shown_eq : after.shown = batch.shown) :
    after.Noted := by
  refine ⟨fun linting held => ?_, ?_, ?_, ?_, ?_⟩
  · rw [lintings_eq] at held
    exact (noted.watched linting held).congr isShown_eq
  · rw [errorCount_eq, lintings_eq]
    exact noted.errorCount_eq
  · rw [shown_eq]
    exact noted.exhibits.once
  · rw [shown_eq, lintings_eq]
    exact noted.exhibits.lasting
  · rw [shown_eq, lintings_eq, isShown_eq]
    exact noted.exhibits.complete

theorem follow
    {index : Nat}
    {linting : Linting}
    (noted : batch.Noted)
    (known : batch.lintings[index]? = some linting)
    (now : Rat)
    (turn : Linting.Turn) :
    (batch.follow index (linting.take now turn)).Noted := by
  have watched := noted.watched linting (List.mem_of_getElem? known)
  have absorbed := batch.absorbed_follow index (linting.take now turn)
  refine ⟨fun other held => ?_, ?_, ?_⟩
  · rw [absorbed.lintings_eq] at held
    rcases List.mem_or_eq_of_mem_set held with early | rfl
    · exact (noted.watched other early).congr absorbed.isShown_eq
    · exact (watched.take now turn).congr absorbed.isShown_eq
  · exact errorCount_follow watched.balanced watched.heeded known noted.errorCount_eq now
  · exact noted.exhibits.follow watched.balanced watched.heeded known now

theorem step
    (noted : batch.Noted)
    (stepped : batch.step? = some after) :
    after.Noted := by
  obtain ⟨⟨first, schedule⟩, next, rfl⟩ := Option.map_eq_some_iff.mp stepped
  have popped : ({ batch with schedule := schedule } : Batch).Noted := noted.congr rfl rfl rfl rfl
  cases taken { batch with schedule := schedule } first with
  | apart isOwn apart =>
    exact popped.congr apart.isShown_eq apart.lintings_eq apart.errorCount_eq apart.shown_eq
  | followed index turn linting isLinting known same =>
    rw [same]
    exact popped.follow known _ _
  | nothing index turn isLinting unknown same =>
    rw [same]
    exact popped

end Noted

/-- What holds of a batch between any two turns once all files have been opened. -/
structure Recorded (batch : Batch) : Prop extends Noted batch where
  stage : batch.Stage

theorem Recorded.step
    {batch later : Batch}
    (recorded : batch.Recorded)
    (stepped : batch.step? = some later) :
    later.Recorded := by
  refine ⟨recorded.toNoted.step stepped, ?_⟩
  obtain ⟨⟨first, schedule⟩, next, rfl⟩ := Option.map_eq_some_iff.mp stepped
  have own_perm := own_next? next
  cases taken { batch with schedule := schedule } first with
  | apart isOwn apart =>
    rw [if_pos isOwn] at own_perm
    exact recorded.stage.takeOwn isOwn own_perm
  | followed index turn linting isLinting known same =>
    rw [isLinting] at own_perm
    rw [same]
    have watched := recorded.watched linting (List.mem_of_getElem? known)
    exact (recorded.stage.popped own_perm).follow known watched.started
  | nothing index turn isLinting unknown same =>
    rw [isLinting] at own_perm
    rw [same]
    exact recorded.stage.popped own_perm

/-- A linting of a batch that nothing stops, and whose turns are ready. -/
structure Hosted (batch : Batch) (index : Nat) (linting : Linting) : Prop
    extends Watched batch linting where
  unstopped : linting.Unstopped
  tended : linting.Tended fun turn => .linting index turn ∈ batch.schedule.ready

namespace Hosted

variable {batch : Batch} {index : Nat} {linting : Linting}

/-- A linting that has come to its end has completed its run. -/
theorem phase_of_isAnswered
    (hosted : batch.Hosted index linting)
    (answered : linting.phase.isAnswered = true) :
    linting.phase = .ended .completed := by
  cases phase : linting.phase with
  | unstarted =>
    have started := hosted.started
    simp [Linting.isStarted, phase] at started
  | ended outcome =>
    cases outcome with
    | completed => rfl
    | failed group => exact absurd phase (hosted.heeded.unfailed group)
    | stopped failure =>
      have decided := hosted.unstopped.decided (by rw [phase]; rfl)
      have stopped := decided.stopped
      rw [phase] at stopped
      contradiction
  | _ =>
    rw [phase] at answered
    contradiction

theorem answer?_ne_error
    (hosted : batch.Hosted index linting)
    (refusal : Linting.Refusal) :
    linting.answer? ≠ some (.error refusal) := by
  intro refused
  have answered := Linting.isSome_answer? linting
  rw [refused] at answered
  simp [Linting.answer?, hosted.phase_of_isAnswered answered.symm] at refused

theorem mono
    {after : Batch}
    (hosted : batch.Hosted index linting)
    (isShown_eq : after.isShown = batch.isShown)
    (ready : ∀ turn, .linting index turn ∈ batch.schedule.ready →
      .linting index turn ∈ after.schedule.ready) :
    after.Hosted index linting where
  toWatched := hosted.toWatched.congr isShown_eq
  unstopped := hosted.unstopped
  tended := hosted.tended.mono ready

end Hosted

/-- The turns that the lintings need are ready, and only lintings have timers. -/
structure Attended (batch : Batch) : Prop where
  hosted : ∀ (index : Nat) (linting : Linting), batch.lintings[index]? = some linting →
    batch.Hosted index linting
  punctual : ∀ timer ∈ batch.schedule.timers, timer.2.isOwn = false

theorem Attended.step
    {batch later : Batch}
    (attended : batch.Attended)
    (stepped : batch.step? = some later) :
    later.Attended := by
  obtain ⟨⟨first, schedule⟩, next, rfl⟩ := Option.map_eq_some_iff.mp stepped
  have punctual : ∀ timer ∈ schedule.timers, timer.2.isOwn = false :=
    fun timer known => attended.punctual timer (Schedule.mem_timers_of_next? next known)
  -- Of the turns of a linting, only the one that is taken is no longer ready.
  have others : ∀ (index : Nat) (linting : Linting), (∀ own, first ≠ .linting index own) →
      batch.lintings[index]? = some linting →
        ({ batch with schedule := schedule } : Batch).Hosted index linting := by
    intro index linting different known
    exact (attended.hosted index linting known).mono rfl fun own ready =>
      Schedule.mem_ready_next? next ready (different own).symm
  cases taken { batch with schedule := schedule } first with
  | apart isOwn apart =>
    refine ⟨fun index linting known => ?_, ?_⟩
    · rw [apart.lintings_eq] at known
      refine (others index linting ?_ known).mono apart.isShown_eq fun turn ready =>
        apart.ready.mem ready
      rintro own rfl
      contradiction
    · rw [apart.timers_eq]
      exact punctual
  | followed index turn linting isLinting known same =>
    subst isLinting
    rw [same]
    have known : batch.lintings[index]? = some linting := known
    have hosted := attended.hosted index linting known
    have absorbed := ({ batch with schedule := schedule } : Batch).absorbed_follow index
      (linting.take schedule.now turn)
    refine ⟨fun other after found => ?_, absorbed.timers punctual⟩
    rw [absorbed.lintings_eq, List.getElem?_set] at found
    split at found
    · next here =>
      subst here
      split at found
      · cases found
        refine ⟨(hosted.toWatched.take _ _).congr absorbed.isShown_eq,
          hosted.unstopped.take hosted.balanced _ _, ?_⟩
        refine (hosted.tended.take hosted.balanced schedule.now turn).mono fun own needed => ?_
        rcases needed with ⟨different, ready⟩ | soon
        · refine absorbed.ready.mem (Schedule.mem_ready_next? next ready ?_)
          simpa using different
        · exact absorbed.soon own soon
      · contradiction
    · next elsewhere =>
      refine (others other after ?_ found).mono absorbed.isShown_eq fun own ready =>
        absorbed.ready.mem ready
      simp [elsewhere]
  | nothing index turn isLinting unknown same =>
    subst isLinting
    rw [same]
    have unknown : batch.lintings[index]? = none := unknown
    refine ⟨fun other linting known => others other linting ?_ known, punctual⟩
    rintro own ⟨⟩
    rw [unknown] at known
    contradiction

/-- What holds of a batch between any two turns when no linting can be stopped. -/
structure Sound (batch : Batch) : Prop extends Recorded batch, Attended batch where
  unrefused : ∀ refusal, batch.closing? ≠ some (.error refusal)

namespace Sound

variable {batch : Batch} {schedule : Schedule Turn}

/-- A batch fails only when the run of a linting was stopped. -/
theorem unrefused_take
    (sound : batch.Sound)
    (turn : Turn)
    (refusal : Linting.Refusal) :
    (({ batch with schedule := schedule } : Batch).take turn).closing? ≠
      some (.error refusal) := by
  cases turn with
  | linting index own =>
    simp only [take]
    split
    · rw [(absorbed_follow _ index _).closing_eq]
      exact sound.unrefused refusal
    · exact sound.unrefused refusal
  | gather =>
    simp only [take, gather]
    split
    · simp [Batch.soon]
    · obtain ⟨ahead, same, -⟩ := foldl_soon_wait { batch with schedule := schedule }
        (List.range batch.lintings.length)
      rw [same]
      exact sound.unrefused refusal
  | wait index =>
    simp only [take, wait]
    split <;> exact sound.unrefused refusal
  | settle index =>
    simp only [take, settle]
    split
    · exact sound.unrefused refusal
    · split
      · next other refused =>
        obtain ⟨linting, found, answered⟩ := Option.bind_eq_some_iff.mp refused
        exact absurd answered ((sound.hosted index linting found).answer?_ne_error other)
      · split
        · simp [Batch.soon]
        · exact sound.unrefused refusal
  | _ => exact sound.unrefused refusal

theorem step
    {later : Batch}
    (sound : batch.Sound)
    (stepped : batch.step? = some later) :
    later.Sound := by
  refine ⟨sound.toRecorded.step stepped, sound.toAttended.step stepped, ?_⟩
  obtain ⟨⟨first, schedule⟩, next, rfl⟩ := Option.map_eq_some_iff.mp stepped
  exact sound.unrefused_take first

end Sound
end Batch
end MarkupLint
