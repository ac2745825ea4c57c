import MarkupLint.Proofs.Batch.Course
import MarkupLint.Proofs.Files.Reading
import MarkupLint.Proofs.Linting.Isolation

/-!
# Opening the files of a batch

Every file is opened once, in order: either it is read as a document, which gets a linting that is
started and watched, or it is skipped.  Only a name with a null character fails the batch.
-/

namespace MarkupLint
namespace Batch

open Linting (observed ends Balanced)

/-- What replacing the linting with an index does, as long as nobody is told of an end. -/
structure Replaced (before after : Batch) (index : Nat) (linting : Linting) : Prop where
  precision_eq : after.precision = before.precision
  isShown_eq : after.isShown = before.isShown
  lintings_eq : after.lintings = before.lintings.set index linting
  skipped_eq : after.skipped = before.skipped
  awaited_eq : after.awaited = before.awaited
  settled_eq : after.settled = before.settled
  closing_eq : after.closing? = before.closing?
  isOver_eq : after.isOver = before.isOver
  errorCount_eq : after.errorCount = before.errorCount
  shown_eq : after.shown = before.shown
  own_perm : after.own.Perm before.own
  timers : (∀ timer ∈ before.schedule.timers, timer.2.isOwn = false) →
    ∀ timer ∈ after.schedule.timers, timer.2.isOwn = false
  ready : before.schedule.ready <+: after.schedule.ready

theorem Replaced.trans
    {first second third : Batch}
    {index : Nat}
    {linting other : Linting}
    (early : Replaced first second index linting)
    (late : Replaced second third index other) :
    Replaced first third index other where
  precision_eq := late.precision_eq.trans early.precision_eq
  isShown_eq := late.isShown_eq.trans early.isShown_eq
  lintings_eq := by rw [late.lintings_eq, early.lintings_eq, List.set_set]
  skipped_eq := late.skipped_eq.trans early.skipped_eq
  awaited_eq := late.awaited_eq.trans early.awaited_eq
  settled_eq := late.settled_eq.trans early.settled_eq
  closing_eq := late.closing_eq.trans early.closing_eq
  isOver_eq := late.isOver_eq.trans early.isOver_eq
  errorCount_eq := late.errorCount_eq.trans early.errorCount_eq
  shown_eq := late.shown_eq.trans early.shown_eq
  own_perm := late.own_perm.trans early.own_perm
  timers punctual := late.timers (early.timers punctual)
  ready := early.ready.trans late.ready

/-- Whether the call of an observer counts or shows a linting. -/
def isNoted (call : Linting.ObservedCall) : Bool := isTallied call || isDisplayed call

theorem replaced_follow
    {batch : Batch}
    {index : Nat}
    {progress : Linting.Progress}
    (quiet : ends progress.effects = [])
    (unnoted : (observed progress.effects).any isNoted = false) :
    Replaced batch (batch.follow index progress) index progress.linting := by
  have absorbed := batch.absorbed_follow index progress
  simp only [isNoted, List.any_eq_false, Bool.or_eq_true, not_or, Bool.not_eq_true] at unnoted
  refine ⟨absorbed.precision_eq, absorbed.isShown_eq, absorbed.lintings_eq, absorbed.skipped_eq,
    absorbed.awaited_eq, absorbed.settled_eq, absorbed.closing_eq, absorbed.isOver_eq, ?_, ?_,
    own_follow_of_quiet quiet, absorbed.timers, absorbed.ready⟩
  · rw [absorbed.errorCount_eq, List.countP_eq_zero.mpr fun call known => by simp [unnoted call known]]
    rfl
  · rw [absorbed.shown_eq, shownBy,
      List.filter_eq_nil_iff.mpr fun call known => by simp [unnoted call known]]
    exact List.append_nil _

theorem replaced_watch
    {batch : Batch}
    {index : Nat}
    {linting : Linting}
    {milestone : Linting.Milestone}
    {watcher : Watcher}
    (known : batch.lintings[index]? = some linting)
    (unnoted : (observed (linting.subscribe milestone watcher.observer).1.effects).any isNoted =
      false) :
    Replaced batch (batch.watch index milestone watcher) index
      (linting.subscribe milestone watcher.observer).1.linting := by
  simp only [watch, known]
  refine replaced_follow ?_ unnoted
  simp [Linting.subscribe, Linting.Progress.effects_called, Linting.Progress.start, ends,
    List.filterMap_map, Function.comp_def, Linting.Effect.end?]

/-- The linting of a document, once it has been started and is watched. -/
def entered (plan : Config.Plan) (precision : Precision) (isShown : Bool) (document : Document) :
    Linting :=
  { Linting.new document plan.rules plan.timeout? precision with
    phase := .scheduled
    audience := ⟨true, false, [], (watchers isShown).map (⟨·, .leave⟩)⟩ }

theorem balanced_entered
    (plan : Config.Plan)
    (precision : Precision)
    (isShown : Bool)
    (document : Document) :
    Balanced (entered plan precision isShown document) := by
  have started := (Balanced.new document plan.rules plan.timeout? precision).start
  have tallied := started.subscribe .done Watcher.tally.observer
  cases isShown with
  | false => exact tallied
  | true => exact tallied.subscribe .done Watcher.display.observer

/-- Nothing stops the linting of a document unless a failure that goes past those who handle failures is
raised by an instance in what it does at once. -/
theorem unstopped_entered
    {plan : Config.Plan}
    {document : Document}
    (contained : plan.rules.IsContained document)
    (precision : Precision)
    (isShown : Bool) :
    (entered plan precision isShown document).Unstopped := by
  refine ⟨fun _ now => ?_, fun begun => ?_⟩
  · have same := @Linting.goesThrough_congr (entered plan precision isShown document)
      (Linting.new document plan.rules plan.timeout? precision) rfl rfl now
    rw [same]
    exact Linting.goesThrough_new.mpr contained
  · contradiction

/-- A batch that enters a document starts a linting for it and watches that. -/
theorem replaced_enter (batch : Batch) (plan : Config.Plan) (document : Document) :
    let linting := entered plan batch.precision batch.isShown document
    let after := batch.enter plan document
    Replaced
        { batch with
          lintings := batch.lintings ++ [linting]
          schedule := batch.schedule.soon (.linting batch.lintings.length .run) }
        after batch.lintings.length linting := by
  intro linting after
  let start := (Linting.new document plan.rules plan.timeout? batch.precision).start.1
  let begun := ({ batch with
    lintings := batch.lintings ++ [start.linting], remaining := batch.remaining + 1 } : Batch).follow
      batch.lintings.length start
  have started : Replaced
      { batch with
        lintings := batch.lintings ++ [linting]
        schedule := batch.schedule.soon (.linting batch.lintings.length .run) }
      begun batch.lintings.length start.linting :=
    ⟨rfl, rfl, (absorbed_follow _ _ start).lintings_eq.trans (by simp), rfl, rfl, rfl, rfl, rfl, rfl,
      rfl, .refl _, fun punctual => punctual, List.prefix_rfl⟩
  have known : ∀ {after : Batch} {other : Linting},
      Replaced { batch with
        lintings := batch.lintings ++ [linting]
        schedule := batch.schedule.soon (.linting batch.lintings.length .run) } after
        batch.lintings.length other →
      after.lintings[batch.lintings.length]? = some other := by
    intro after other replaced
    rw [replaced.lintings_eq]
    simp
  have tallied := started.trans (@replaced_watch begun batch.lintings.length start.linting .done .tally
    (known started) rfl)
  have after_eq : after =
      if (begun.watch batch.lintings.length .done .tally).isShown then
        (begun.watch batch.lintings.length .done .tally).present batch.lintings.length start.linting
      else begun.watch batch.lintings.length .done .tally := rfl
  rw [after_eq, tallied.isShown_eq]
  have linting_eq : linting = entered plan batch.precision batch.isShown document := rfl
  clear_value linting
  subst linting_eq
  cases isShown : batch.isShown with
  | false =>
    rw [isShown] at tallied
    exact tallied
  | true =>
    rw [isShown] at tallied known
    rw [if_pos rfl]
    have shown : Replaced _ { begun.watch batch.lintings.length .done .tally with
        presented := (begun.watch batch.lintings.length .done .tally).presented ++
          [(start.linting.name, start.linting.state)] } _ _ :=
      ⟨tallied.precision_eq, tallied.isShown_eq, tallied.lintings_eq, tallied.skipped_eq,
        tallied.awaited_eq, tallied.settled_eq, tallied.closing_eq, tallied.isOver_eq,
        tallied.errorCount_eq,
        tallied.shown_eq, tallied.own_perm, tallied.timers, tallied.ready⟩
    have told := shown.trans (@replaced_watch _ _ _ .started .progress (known shown) rfl)
    exact told.trans (@replaced_watch _ _ _ .done .display (known told) rfl)

/-- A batch whose files are still being opened, while its lintings may have taken turns. -/
structure Filling (batch : Batch) : Prop extends Noted batch, Unopened batch

/-- The linting of a document has been started, and its end is waited for. -/
theorem watched_entered (batch : Batch) (plan : Config.Plan) (document : Document) :
    batch.Watched (entered plan batch.precision batch.isShown document) :=
  ⟨balanced_entered plan batch.precision batch.isShown document, rfl, fun _ => rfl, by simp [entered]⟩

theorem lintings_enter (batch : Batch) (plan : Config.Plan) (document : Document) :
    (batch.enter plan document).lintings =
      batch.lintings ++ [entered plan batch.precision batch.isShown document] := by
  rw [(batch.replaced_enter plan document).lintings_eq]
  simp

/-- Among the lintings of a batch that enters a document, a linting with an index is an early one or the
linting of the document. -/
theorem getElem?_lintings_enter
    {batch : Batch}
    {plan : Config.Plan}
    {document : Document}
    {index : Nat}
    {linting : Linting}
    (known : (batch.enter plan document).lintings[index]? = some linting) :
    batch.lintings[index]? = some linting ∨
      index = batch.lintings.length ∧
        linting = entered plan batch.precision batch.isShown document := by
  rw [lintings_enter, List.getElem?_append] at known
  split at known
  · exact .inl known
  · obtain ⟨bound, same⟩ := List.getElem?_eq_some_iff.mp known
    rw [List.length_singleton] at bound
    rw [List.getElem_singleton] at same
    exact .inr ⟨by omega, same.symm⟩

namespace Noted

variable {batch : Batch}

theorem empty (precision : Precision) (precedence : Precedence Turn) (isShown : Bool) :
    (Batch.empty precision precedence isShown).Noted where
  watched := by simp [Batch.empty]
  errorCount_eq := rfl
  exhibits := ⟨by simp [Batch.empty], by simp [Batch.empty], by simp [Batch.empty]⟩

theorem enter (noted : batch.Noted) (plan : Config.Plan) (document : Document) :
    (batch.enter plan document).Noted := by
  have replaced := batch.replaced_enter plan document
  refine ⟨fun linting held => ?_, ?_, ?_, ?_, fun isShown index linting known closed => ?_⟩
  · rw [lintings_enter] at held
    rcases List.mem_append.mp held with early | new
    · exact (noted.watched linting early).congr replaced.isShown_eq
    · rw [List.mem_singleton.mp new]
      exact (watched_entered batch plan document).congr replaced.isShown_eq
  · rw [replaced.errorCount_eq, lintings_enter, List.countP_append]
    exact noted.errorCount_eq
  · rw [replaced.shown_eq]
    exact noted.exhibits.once
  · rw [replaced.shown_eq, lintings_enter]
    intro entry held
    obtain ⟨linting, known, ended⟩ := noted.exhibits.lasting entry held
    refine ⟨linting, ?_, ended⟩
    rw [List.getElem?_append_left (List.getElem?_eq_some_iff.mp known).1, known]
  · rw [replaced.shown_eq]
    rw [replaced.isShown_eq] at isShown
    rcases getElem?_lintings_enter known with early | ⟨-, rfl⟩
    · exact noted.exhibits.complete isShown index linting early closed
    · contradiction

end Noted

namespace Unopened

variable {batch later : Batch}

theorem empty (precision : Precision) (precedence : Precedence Turn) (isShown : Bool) :
    (Batch.empty precision precedence isShown).Unopened := ⟨rfl, rfl, rfl, rfl, rfl⟩

theorem enter (unopened : batch.Unopened) (plan : Config.Plan) (document : Document) :
    (batch.enter plan document).Unopened := by
  have replaced := batch.replaced_enter plan document
  have own_perm : (batch.enter plan document).own.Perm batch.own :=
    replaced.own_perm.trans (own_soon batch (.linting batch.lintings.length .run))
  exact ⟨replaced.closing_eq.trans unopened.closing_eq, replaced.isOver_eq.trans unopened.isOver_eq,
    List.perm_nil.mp (unopened.own_eq ▸ own_perm), replaced.awaited_eq.trans unopened.awaited_eq,
    replaced.settled_eq.trans unopened.settled_eq⟩

/-- While files are being opened, only lintings take turns. -/
theorem step
    (unopened : batch.Unopened)
    (stepped : batch.step? = some later) :
    later.Unopened := by
  obtain ⟨⟨first, schedule⟩, next, rfl⟩ := Option.map_eq_some_iff.mp stepped
  have own_perm := own_next? next
  rw [unopened.own_eq] at own_perm
  have popped : first.isOwn = false → ({ batch with schedule := schedule } : Batch).Unopened := by
    intro notOwn
    rw [notOwn] at own_perm
    exact { unopened with own_eq := List.perm_nil.mp own_perm.symm }
  cases taken { batch with schedule := schedule } first with
  | apart isOwn apart =>
    rw [if_pos isOwn] at own_perm
    exact absurd own_perm.symm (List.not_perm_cons_nil)
  | followed index turn linting isLinting known same =>
    rw [same]
    exact (popped (by rw [isLinting]; rfl)).follow known
  | nothing index turn isLinting unknown same =>
    rw [same]
    exact popped (by rw [isLinting]; rfl)

end Unopened

namespace Filling

variable {batch later : Batch}

theorem empty (precision : Precision) (precedence : Precedence Turn) (isShown : Bool) :
    (Batch.empty precision precedence isShown).Filling :=
  ⟨.empty precision precedence isShown, .empty precision precedence isShown⟩

theorem enter (filling : batch.Filling) (plan : Config.Plan) (document : Document) :
    (batch.enter plan document).Filling :=
  ⟨filling.toNoted.enter plan document, filling.toUnopened.enter plan document⟩

theorem skip (filling : batch.Filling) (path : String) (error : ParseError) :
    (batch.skip path error).Filling :=
  ⟨filling.toNoted.congr rfl rfl rfl rfl, ⟨filling.closing_eq, filling.isOver_eq, filling.own_eq,
    filling.awaited_eq, filling.settled_eq⟩⟩

theorem step (filling : batch.Filling) (stepped : batch.step? = some later) : later.Filling :=
  ⟨filling.toNoted.step stepped, filling.toUnopened.step stepped⟩

/-- When all files have been opened, the batch knows of its lintings what there is to know. -/
theorem recorded (filling : batch.Filling) : (batch.soon .opened).Recorded :=
  ⟨filling.toNoted.congr rfl rfl rfl rfl, filling.toUnopened.stage⟩

end Filling

namespace Attended

variable {batch : Batch}

theorem empty (precision : Precision) (precedence : Precedence Turn) (isShown : Bool) :
    (Batch.empty precision precedence isShown).Attended where
  hosted := by simp [Batch.empty]
  punctual := by simp [Batch.empty, Schedule.empty]

/-- The linting of a document gets the turn that it needs. -/
theorem enter
    {plan : Config.Plan}
    {document : Document}
    (attended : batch.Attended)
    (contained : plan.rules.IsContained document) :
    (batch.enter plan document).Attended := by
  have replaced := batch.replaced_enter plan document
  have ready := replaced.ready
  rw [Schedule.ready_soon] at ready
  refine ⟨fun index linting known => ?_, replaced.timers attended.punctual⟩
  rcases getElem?_lintings_enter known with early | ⟨rfl, rfl⟩
  · exact (attended.hosted index linting early).mono replaced.isShown_eq fun turn held =>
      ready.mem (List.mem_append_left _ held)
  · have watched := watched_entered batch plan document
    refine ⟨watched.congr replaced.isShown_eq, unstopped_entered contained _ _, fun _ => ?_,
      fun index member found => ?_⟩
    · exact ready.mem (List.mem_append_right _ List.mem_cons_self)
    · exact .of_untouched (watched.balanced.untouched rfl member (List.mem_of_getElem? found))

theorem soon (attended : batch.Attended) (turn : Turn) : (batch.soon turn).Attended where
  hosted index linting known := (attended.hosted index linting known).mono rfl fun own ready => by
    rw [Batch.soon, Schedule.ready_soon]
    exact List.mem_append_left _ ready
  punctual := attended.punctual

end Attended

/-- When all files have been opened, the batch is sound, unless the run of a linting can be stopped. -/
theorem Filling.sound
    {batch : Batch}
    (filling : batch.Filling)
    (attended : batch.Attended) :
    (batch.soon .opened).Sound where
  toRecorded := filling.recorded
  toAttended := attended.soon .opened
  unrefused refusal refused := by
    rw [show (batch.soon .opened).closing? = none from filling.closing_eq] at refused
    contradiction

/-- The setting of the linting of a document. -/
def setting (plan : Config.Plan) (precision : Precision) (document : Document) : Linting.Setting :=
  (Linting.new document plan.rules plan.timeout? precision).toSetting

/-- The documents in files, in order. -/
def documents (host : Files.Host) (files : List Files.PathName) : List Document :=
  files.filterMap fun name =>
    match host.readDocument name.text with
    | .ok document => some document
    | .error _ => none

/-- The files that are not read as documents, in order. -/
def refused (host : Files.Host) (files : List Files.PathName) : List SkippedFile :=
  files.filterMap fun name =>
    match host.readDocument name.text with
    | .error (.refused error) => some ⟨name.text, error.message⟩
    | _ => none

section

variable {host : Files.Host} {plan : Config.Plan} {files : List Files.PathName}

/-- The documents are those that files are read as. -/
theorem mem_documents {document : Document} :
    document ∈ documents host files ↔
      ∃ file ∈ files, host.readDocument file.text = .ok document := by
  simp only [documents, List.mem_filterMap]
  refine exists_congr fun file => and_congr_right fun _ => ?_
  cases host.readDocument file.text <;> simp

/-- Files whose names have no null character can be opened. -/
theorem exists_openFiles
    (clean : ∀ name ∈ files, '\x00' ∉ name.text.toList)
    (batch : Batch) :
    ∃ opened, openFiles host plan batch files = .ok opened := by
  induction files generalizing batch with
  | nil => exact ⟨_, rfl⟩
  | cons name rest ih =>
    have others := ih fun other known => clean other (List.mem_cons_of_mem _ known)
    unfold openFiles
    split
    · exact others _
    · exact others _
    · next failure read =>
      exact absurd read (host.readDocument_ne_failure (clean name List.mem_cons_self) failure)

end

end Batch
end MarkupLint
