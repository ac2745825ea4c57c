import MarkupLint.Proofs.Batch.Reading

/-!
# The order in which lintings come to their ends

A linting is shown in the turn in which it comes to its end, and no other linting comes to its end in
that turn.  So, however the files are read, the lintings are shown in the order in which they come to
their ends.
-/

namespace MarkupLint
namespace Batch

/-- The lintings that have been shown are those that have come to their ends. -/
theorem Noted.mem_shown_iff
    {batch : Batch}
    (noted : batch.Noted)
    (isShown : batch.isShown = true)
    {index : Nat} :
    index ∈ batch.shown.map (·.1) ↔ batch.hasClosed index = true := by
  rw [hasClosed, Option.any_eq_true]
  constructor
  · intro shown
    obtain ⟨entry, held, rfl⟩ := List.mem_map.mp shown
    obtain ⟨linting, known, closed, -⟩ := noted.exhibits.lasting entry held
    exact ⟨linting, known, closed⟩
  · rintro ⟨linting, known, closed⟩
    exact noted.exhibits.complete isShown index linting known closed

/-- In a turn of a batch, at most one linting is shown, which had not come to its end. -/
theorem Noted.shown_step
    {batch later : Batch}
    (noted : batch.Noted)
    (stepped : batch.step? = some later) :
    later.shown = batch.shown ∨
      ∃ entry, later.shown = batch.shown ++ [entry] ∧ batch.hasClosed entry.1 = false := by
  obtain ⟨⟨first, schedule⟩, next, rfl⟩ := Option.map_eq_some_iff.mp stepped
  cases taken { batch with schedule := schedule } first with
  | apart isOwn apart => exact .inl apart.shown_eq
  | nothing index turn isLinting unknown same =>
    rw [same]
    exact .inl rfl
  | followed index turn linting isLinting known same =>
    have known : batch.lintings[index]? = some linting := known
    have shown_eq := @shown_follow { batch with schedule := schedule } index linting turn
      (noted.watched linting (List.mem_of_getElem? known)).heeded known schedule.now
    rw [same]
    split at shown_eq
    · next ends =>
      refine .inr ⟨_, shown_eq, ?_⟩
      rw [hasClosed, known, Option.any_some]
      exact ends.1
    · rw [List.append_nil] at shown_eq
      exact .inl shown_eq

/-- When all lintings have come to their ends, each of them has been shown once. -/
theorem Recorded.shown_perm
    {batch : Batch}
    (recorded : batch.Recorded)
    (isShown : batch.isShown = true)
    (closed : batch.AllClosed) :
    (batch.shown.map (·.1)).Perm (List.range batch.lintings.length) := by
  refine (List.perm_ext_iff_of_nodup recorded.exhibits.once List.nodup_range).mpr fun index => ?_
  rw [recorded.toNoted.mem_shown_iff isShown, List.mem_range]
  refine ⟨fun ended => ?_, closed index⟩
  obtain ⟨linting, known, -⟩ := (Option.any_eq_true _ _).mp ended
  exact (List.getElem?_eq_some_iff.mp known).1

namespace Reading

section

variable (host : Files.Host) (plan : Config.Plan) (files : List Files.PathName)
  (first last : Reading)

/-- On the way from one state to another, a linting comes to its end before another one. -/
def Precedes (index other : Nat) : Prop :=
  ∃ middle, Reaches host plan files first middle ∧ Reaches host plan files middle last ∧
    middle.batch.hasClosed index = true ∧ middle.batch.hasClosed other = false

/-- An order in which all lintings come to their ends on the way from one state to another. -/
structure Completes (order : List Nat) : Prop where
  perm : order.Perm (List.range last.batch.lintings.length)
  pairwise : order.Pairwise (Precedes host plan files first last)

end

section

variable {host : Files.Host} {plan : Config.Plan} {precision : Precision} {precedence : Precedence Turn}
  {files : List Files.PathName} {reading later last : Reading}

theorem shown_step
    (noted : reading.batch.Noted)
    (stepped : Step host plan files reading later) :
    later.batch.shown = reading.batch.shown ∨
      ∃ entry, later.batch.shown = reading.batch.shown ++ [entry] ∧
        reading.batch.hasClosed entry.1 = false := by
  cases stepped with
  | delayed => exact .inl rfl
  | took taken => exact noted.shown_step (next?_eq_some.mp taken).2
  | @entered place name document waits known read =>
    rw [shown_goOn]
    exact .inl (reading.batch.replaced_enter plan document).shown_eq
  | skipped =>
    rw [shown_goOn]
    exact .inl rfl

theorem Reaches.shown_prefix
    {isShown : Bool}
    (start : Reaches host plan files (.start precision precedence isShown files.length) reading)
    (path : Reaches host plan files reading last) :
    reading.batch.shown <+: last.batch.shown := by
  induction path with
  | refl => exact List.prefix_rfl
  | tail path stepped ih =>
    have reached := Relation.ReflTransGen.trans start path
    rcases shown_step (Reaches.valid reached).noted stepped with same | ⟨entry, same, -⟩
    · rwa [same]
    · rw [same]
      exact ih.trans (List.prefix_append _ _)

/-- No two lintings come to their ends before each other. -/
theorem Precedes.asymm
    {index other : Nat}
    (precedes : Precedes host plan files (.start precision precedence true files.length) last index other) :
    ¬Precedes host plan files (.start precision precedence true files.length) last other index := by
  rintro ⟨second, others, behind, other_closed, unclosed⟩
  obtain ⟨middle, path, ahead, closed, other_unclosed⟩ := precedes
  have shown := fun {state : Reading} {index : Nat}
      (path : Reaches host plan files (.start precision precedence true files.length) state) =>
    @Noted.mem_shown_iff state.batch path.valid.noted path.valid.isShown_eq index
  rcases List.prefix_or_prefix_of_prefix (path.shown_prefix ahead) (others.shown_prefix behind) with
    less | less
  · have held := (less.map (·.1)).mem ((shown path).mpr closed)
    rw [(shown others).mp held] at unclosed
    contradiction
  · have held := (less.map (·.1)).mem ((shown others).mpr other_closed)
    rw [(shown path).mp held] at other_unclosed
    contradiction

/-- There is only one order in which the lintings come to their ends. -/
theorem Completes.unique
    {order other : List Nat}
    (completes : Completes host plan files (.start precision precedence true files.length) last order)
    (others : Completes host plan files (.start precision precedence true files.length) last other) :
    order = other :=
  (completes.perm.trans others.perm.symm).eq_of_pairwise
    (fun _ _ _ _ precedes behind => absurd behind precedes.asymm) completes.pairwise others.pairwise

/-- The lintings are shown in the order in which they come to their ends. -/
theorem Reaches.pairwise_shown
    (path : Reaches host plan files (.start precision precedence true files.length) last) :
    (last.batch.shown.map (·.1)).Pairwise
      (Precedes host plan files (.start precision precedence true files.length) last) := by
  induction path with
  | refl =>
    rw [start, shown_goOn]
    exact .nil
  | @tail middle last path stepped ih =>
    have valid := Reaches.valid path
    have others : (middle.batch.shown.map (·.1)).Pairwise
        (Precedes host plan files (.start precision precedence true files.length) last) := by
      refine ih.imp ?_
      rintro index other ⟨between, before, behind, closed⟩
      exact ⟨between, before, behind.tail stepped, closed⟩
    rcases shown_step valid.noted stepped with same | ⟨entry, same, unclosed⟩
    · rw [same]
      exact others
    · rw [same, List.map_append]
      refine List.pairwise_append.mpr ⟨others, List.pairwise_singleton _ _, ?_⟩
      intro index held other new
      have closed := (valid.noted.mem_shown_iff valid.isShown_eq).mp held
      obtain rfl := List.mem_singleton.mp new
      exact ⟨middle, path, .single stepped, closed, unclosed⟩

theorem Reaches.completes
    (path : Reaches host plan files (.start precision precedence true files.length) last)
    (complete : last.batch.isOver = true)
    (closing : last.batch.closing? = some (.ok ())) :
    Completes host plan files (.start precision precedence true files.length) last
      (last.batch.shown.map (·.1)) where
  perm := by
    have recorded := path.valid.recorded (path.valid.unread_eq_nil complete)
    exact recorded.shown_perm path.valid.isShown_eq (recorded.stage.of_closing closing)
  pairwise := path.pairwise_shown

end

end Reading
end Batch
end MarkupLint
